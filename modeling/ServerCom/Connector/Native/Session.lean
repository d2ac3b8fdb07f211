import ServerCom.Connector.Native.BaseConnect
import ServerCom.Connector.Native.ReadLoop

/-!
# The input of one connection

`receive` hands the chunks of a connection to the object's read callback. The
object survives the connection, with the parsing state the last callback left in
it. A run that leaves `m_msg` has no defined object afterwards.
-/

namespace ServerCom.Connector

/-- The object behind the read callbacks of a connection; a rejected header has
called `DisConnect`. -/
def Connection.receive (rd : BuffereventRead) (c : Connection) (chunks : List (List UInt8)) :
    List MsgPack × Option Connection :=
  match Connector.receive rd c.reader [] chunks with
  | (msgs, .returned r _) => (msgs, some { c with reader := r })
  | (msgs, .disConnect r) => (msgs, some { c with reader := r }.disConnect)
  | (msgs, .overrun) => (msgs, none)

section singleton

variable {rd : BuffereventRead} {c : Connection} {r' : Reader} {msgs : List MsgPack}
  {chunk left : List UInt8}

/-- A single callback that returns leaves its parsing state in the object. -/
theorem Connection.receive_singleton_returned
    (h : connReadCallback rd c.reader chunk = (msgs, .returned r' left)) :
    c.receive rd [chunk] = (msgs, some { c with reader := r' }) := by
  simp only [Connection.receive, Connector.receive, List.nil_append, List.append_nil, h]

/-- A single callback that disconnects leaves a closed connection. -/
theorem Connection.receive_singleton_disConnect
    (h : connReadCallback rd c.reader chunk = (msgs, .disConnect r')) :
    c.receive rd [chunk] = (msgs, some { c with reader := r' }.disConnect) := by
  simp only [Connection.receive, Connector.receive, List.nil_append, h]

end singleton

/-- What `IsWaitCompleteMsg` answers before the first callback and behind each one. -/
def waits (rd : BuffereventRead) (r : Reader) (buffered : List UInt8) :
    List (List UInt8) → List Bool
  | [] => [r.isWaitCompleteMsg]
  | chunk :: chunks =>
    r.isWaitCompleteMsg ::
      match connReadCallback rd r (buffered ++ chunk) with
      | (_, .returned r' left) => waits rd r' left chunks
      | (_, .disConnect r') => [r'.isWaitCompleteMsg]
      | (_, .overrun) => []

/-- Everything the user can tell about the input of a connection: the messages and
the verdict, and what `IsWaitCompleteMsg` answers. -/
def session (rd : BuffereventRead) (r : Reader) (chunks : List (List UInt8)) :
    (List Message × Verdict) × List Bool :=
  (observe (receive rd r [] chunks), waits rd r [] chunks)

end ServerCom.Connector
