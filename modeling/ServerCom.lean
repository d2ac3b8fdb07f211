import ServerCom.Connector.Correctness.Bounds
import ServerCom.Connector.Correctness.Ends
import ServerCom.Connector.Correctness.Grammar
import ServerCom.Connector.Correctness.Notices
import ServerCom.Connector.Correctness.Ownership
import ServerCom.Connector.Correctness.Prompt
import ServerCom.Connector.Correctness.Reconnect
import ServerCom.Connector.Correctness.Sending
import ServerCom.Connector.Correctness.Splitting
import ServerCom.Connector.Correctness.WireFormat
import ServerCom.Connector.Interpretation.Frames
import ServerCom.Connector.Interpretation.Held
import ServerCom.Connector.Interpretation.Notices
import ServerCom.Connector.Interpretation.Passes
import ServerCom.Connector.Interpretation.Reentry
import ServerCom.Connector.Native.BaseConnect
import ServerCom.Connector.Native.Lifetime
import ServerCom.Connector.Native.MsgPack
import ServerCom.Connector.Native.ReadLoop
import ServerCom.Connector.Native.Reader
import ServerCom.Connector.Native.Send
import ServerCom.Connector.Native.Session
import ServerCom.Core.Data.Buckets
import ServerCom.Core.Data.Cursor
import ServerCom.Core.Data.Entries
import ServerCom.Core.Data.Lending
import ServerCom.Core.Data.SortedMap
import ServerCom.Core.Machine.Descent
import ServerCom.Core.Machine.Guarded
import ServerCom.Core.Machine.Refinement
import ServerCom.Core.Stream.Arrival
import ServerCom.Core.Stream.Framing
import ServerCom.Core.Stream.Grammar
import ServerCom.Core.Stream.Scanner
import ServerCom.Core.Text.CString
import ServerCom.Core.Text.Expansion
import ServerCom.Core.Text.Plain
import ServerCom.Core.Text.Printf
import ServerCom.Core.Text.Query
import ServerCom.Core.Text.Separator
import ServerCom.Core.Text.Unicode
import ServerCom.Core.Word.BitField
import ServerCom.Core.Word.Digits
import ServerCom.Core.Word.Int32
import ServerCom.Core.Word.Order
import ServerCom.Http.Correctness.Answers
import ServerCom.Http.Correctness.EtcdReport
import ServerCom.Http.Correctness.EtcdUrl
import ServerCom.Http.Correctness.Once
import ServerCom.Http.Correctness.ReplyText
import ServerCom.Http.Native.Client
import ServerCom.Http.Native.EtcdClient
import ServerCom.Http.Native.ReplyText
import ServerCom.Http.Native.Server
import ServerCom.Listener.Correctness.Accept
import ServerCom.Listener.Correctness.Broadcast
import ServerCom.Listener.Correctness.Nesting
import ServerCom.Listener.Correctness.Table
import ServerCom.Listener.Interpretation.Doomed
import ServerCom.Listener.Interpretation.Exact
import ServerCom.Listener.Interpretation.Orderly
import ServerCom.Listener.Interpretation.Registry
import ServerCom.Listener.Interpretation.Visit
import ServerCom.Listener.Native.Accept
import ServerCom.Listener.Native.Foreach
import ServerCom.Listener.Native.Nesting
import ServerCom.Listener.Native.World
import ServerCom.Log.Correctness.Screen
import ServerCom.Log.Native.DebugLog
import ServerCom.Pool.Correctness.HandedOut
import ServerCom.Pool.Native.MemPool
import ServerCom.RedeemCode.Correctness.Crash
import ServerCom.RedeemCode.Correctness.Damaged
import ServerCom.RedeemCode.Correctness.Failure
import ServerCom.RedeemCode.Correctness.Forgery
import ServerCom.RedeemCode.Correctness.Image
import ServerCom.RedeemCode.Correctness.Layout
import ServerCom.RedeemCode.Correctness.Loss
import ServerCom.RedeemCode.Correctness.Serials
import ServerCom.RedeemCode.Correctness.Uniqueness
import ServerCom.RedeemCode.Interpretation.Base32
import ServerCom.RedeemCode.Interpretation.Fields
import ServerCom.RedeemCode.Interpretation.History
import ServerCom.RedeemCode.Interpretation.Layout
import ServerCom.RedeemCode.Interpretation.Ledger
import ServerCom.RedeemCode.Interpretation.Served
import ServerCom.RedeemCode.Interpretation.Stock
import ServerCom.RedeemCode.Native.Code
import ServerCom.RedeemCode.Native.History
import ServerCom.RedeemCode.Native.Tool
import ServerCom.Redis.Correctness.Agreement
import ServerCom.Redis.Correctness.Consumed
import ServerCom.Redis.Correctness.Destruction
import ServerCom.Redis.Correctness.Dictionary
import ServerCom.Redis.Correctness.EventLoop
import ServerCom.Redis.Correctness.Flushing
import ServerCom.Redis.Correctness.Pairing
import ServerCom.Redis.Correctness.Reading
import ServerCom.Redis.Correctness.TimeEvents
import ServerCom.Redis.Correctness.Variadic
import ServerCom.Redis.Interpretation.AeAttached
import ServerCom.Redis.Interpretation.AeFiles
import ServerCom.Redis.Interpretation.AsyncPairing
import ServerCom.Redis.Interpretation.Bookkept
import ServerCom.Redis.Interpretation.DictContents
import ServerCom.Redis.Interpretation.DictWalk
import ServerCom.Redis.Interpretation.Ledger
import ServerCom.Redis.Interpretation.Links
import ServerCom.Redis.Interpretation.ReaderSession
import ServerCom.Redis.Interpretation.ReaderStep
import ServerCom.Redis.Interpretation.ReplyScanner
import ServerCom.Redis.Interpretation.ReplySpine
import ServerCom.Redis.Interpretation.Resp
import ServerCom.Redis.Interpretation.RespReading
import ServerCom.Redis.Interpretation.RespValue
import ServerCom.Redis.Interpretation.Simulation
import ServerCom.Redis.Interpretation.Sound
import ServerCom.Redis.Native.AsyncSocket
import ServerCom.Redis.Native.Dict
import ServerCom.Redis.Native.EventLoop
import ServerCom.Redis.Native.Format
import ServerCom.Redis.Native.Hiredis
import ServerCom.Redis.Native.LibAe
import ServerCom.Redis.Native.Outgoing
import ServerCom.Redis.Native.Reader
import ServerCom.Redis.Native.RedisConn
import ServerCom.Redis.Native.Sds
import ServerCom.Redis.Native.TimeEvents
import ServerCom.SimpleIni.Correctness.ConvertW
import ServerCom.SimpleIni.Correctness.Encodings
import ServerCom.SimpleIni.Interpretation.Characters
import ServerCom.SimpleIni.Interpretation.Conversions
import ServerCom.SimpleIni.Interpretation.Encodings
import ServerCom.SimpleIni.Native.ConvertUtf
import ServerCom.SimpleIni.Native.ConvertW
import ServerCom.SingleProgress.Correctness.Exclusive
import ServerCom.SingleProgress.Native.FileLock
import ServerCom.Timer.Correctness.InStep
import ServerCom.Timer.Native.LeTimer
