import ServerCom.Core.Text.Plain
import ServerCom.Redis.Native.Sds

/-!
# The reply reader of hiredis

The incremental parser of `hiredis.c`, with its default functions for the objects of a reply.
A task on its stack stands for an object that is being read; the object of a task is where the
indices of the tasks lead from the root. Memory does not run out, and signed overflow wraps.
-/

namespace ServerCom.Redis

open Text

/-- `REDIS_ERR_*`. -/
inductive RedisErr where
  /-- `REDIS_ERR_IO`. -/
  | io
  /-- `REDIS_ERR_EOF`. -/
  | eof
  /-- `REDIS_ERR_PROTOCOL`. -/
  | protocol
  /-- `REDIS_ERR_OTHER`. -/
  | other
  deriving DecidableEq, Repr

/-- `REDIS_REPLY_*`. -/
inductive ReplyType where
  /-- `REDIS_REPLY_STRING`. -/
  | string
  /-- `REDIS_REPLY_ARRAY`. -/
  | array
  /-- `REDIS_REPLY_INTEGER`. -/
  | integer
  /-- `REDIS_REPLY_NIL`. -/
  | nil
  /-- `REDIS_REPLY_STATUS`. -/
  | status
  /-- `REDIS_REPLY_ERROR`. -/
  | error
  deriving DecidableEq, Repr

/-- `redisReply`. -/
inductive RedisReply where
  /-- A string, a status or an error; `len` counts the bytes of `str`. -/
  | text (type : ReplyType) (str : List UInt8)
  /-- An integer. -/
  | integer (integer : Int)
  /-- Nil. -/
  | nil
  /-- An array. A pointer in `element` may be null, and a null `element` has none. -/
  | array (elements : Nat) (element : List (Option RedisReply))
  deriving Repr

/-- `redisReadTask`. Its parent is the task below it. -/
structure ReadTask where
  /-- `type`; `-1` is `none`. -/
  type : Option ReplyType
  /-- `elements`. -/
  elements : Int
  /-- `idx`. -/
  idx : Int
  deriving DecidableEq, Repr

/-- `redisReader`. -/
structure Reader where
  /-- `err` and `errstr`. -/
  err : Option (RedisErr × List UInt8)
  /-- `buf`, and `len` is its length. It is null after an error, and empty here. -/
  buf : Sds
  /-- `pos`. -/
  pos : Nat
  /-- `maxbuf`. -/
  maxbuf : Nat
  /-- `rstack` up to `ridx`, the task at `ridx` first. -/
  rstack : List ReadTask
  /-- `reply`. -/
  reply : Option RedisReply

/-- How a function of the reader returns. -/
inductive ItemResult where
  /-- `REDIS_OK`. -/
  | ok (r : Reader)
  /-- `REDIS_ERR`. -/
  | err (r : Reader)
  /-- An assertion fails, or an object goes where no slot is. -/
  | undefined

/-! ## Objects -/

/-- The object in a slot, with another one stored where a path leads from it. -/
def RedisReply.store (obj : RedisReply) : (path : List Nat) → Option RedisReply → Option RedisReply
  | [], _ => some obj
  | idx :: path, some (.array elements element) => match element[idx]? with
    | some slot => (store obj path slot).map fun child =>
      .array elements (element.set idx (some child))
    | none => none
  | _, _ => none

namespace Reader

/-- The path to the object of the innermost task. -/
def path : List ReadTask → List Nat
  | [] => []
  | [_] => []
  | cur :: rest => path rest ++ [cur.idx.toNat]

/-- The object of the innermost task is made: it goes into `element` of the parent, or it
becomes `reply`. -/
def place (rstack : List ReadTask) (reply : Option RedisReply) (obj : RedisReply) :
    Option RedisReply :=
  RedisReply.store obj (path rstack) reply

/-- A task before its type is read. -/
def newTask (idx : Int) : ReadTask := ⟨none, -1, idx⟩

/-- `createArrayObject`, with a count that is converted to `int` and to `size_t`. -/
def createArrayObject (elements : Int) : RedisReply :=
  .array (elements % 2 ^ 64).toNat (List.replicate elements.toNat none)

/-! ## Errors -/

/-- `__redisReaderSetError`. -/
def setError (r : Reader) (type : RedisErr) (str : List UInt8) : Reader :=
  { r with err := some (type, str.take 127), buf := .empty, pos := 0, rstack := [], reply := none }

/-- Two hexadecimal digits. -/
def hex (b : UInt8) : List UInt8 :=
  (literal "0123456789abcdef").drop (b.toNat / 16) |>.take 1 |>.append
    ((literal "0123456789abcdef").drop (b.toNat % 16) |>.take 1)

/-- `chrtos`. -/
def chrtos (byte : UInt8) : List UInt8 :=
  literal "\"" ++
    (if byte = 92 ∨ byte = 34 then [92, byte]
    else if byte = 10 then literal "\\n"
    else if byte = 13 then literal "\\r"
    else if byte = 9 then literal "\\t"
    else if byte = 7 then literal "\\a"
    else if byte = 8 then literal "\\b"
    else if 32 ≤ byte ∧ byte ≤ 126 then [byte] -- `isprint`
    else literal "\\x" ++ hex byte) ++
  literal "\""

/-- The text of `__redisReaderSetErrorProtocolByte`. -/
def protocolByteText (byte : UInt8) : List UInt8 :=
  literal "Protocol error, got " ++ chrtos byte ++ literal " as reply type byte"

/-- The text for an array inside of eight others. -/
def depthText : List UInt8 :=
  literal "No support for nested multi bulk replies with depth > 7"

/-! ## Lines -/

/-- The loops of `seekNewline`, at `pos`: the outer one looks at its condition, and the inner
one goes on to a carriage return. Behind the buffer is a NUL. -/
def seekLoop (_len : Int) : (outer : Bool) → (pos : Nat) → List UInt8 → Option Nat
  | _, _, [] => none
  | outer, pos, c :: s =>
    if outer ∧ _len ≤ pos then none
    else if c ≠ 13 then if pos < _len then seekLoop _len false (pos + 1) s else none
    else if s.head? = some 10 then some pos
    else seekLoop _len true (pos + 1) s

/-- `seekNewline`, whose `_len` is an `int`. -/
def seekNewline (s : List UInt8) : Option Nat := seekLoop (int32 (s.length - 1)) true 0 s

/-- Reduction to the range of `long long`. -/
def int64 (x : Int) : Int := x.bmod (2 ^ 64)

/-- The loop of `readLongLong`; `none` stands for its `return -1`. -/
def readDigits (v : Int) : List UInt8 → Option Int
  | [] => none
  | c :: s =>
    if c = 13 then some v
    else if isDigit c then readDigits (int64 (int64 (v * 10) + (c.toNat - 48))) s
    else none

/-- `readLongLong`. -/
def readLongLong (s : List UInt8) : Int :=
  let mult : Int := if s.head? = some 45 then -1 else 1
  match readDigits 0 (if s.head? = some 45 ∨ s.head? = some 43 then s.tail else s) with
  | none => -1
  | some v => int64 (mult * v)

/-! ## Items -/

/-- What is not read yet. -/
def unread (r : Reader) : List UInt8 := r.buf.buf.drop r.pos

/-- `moveToNextTask`; its assertions may fail. -/
def moveToNextTask : List ReadTask → Option (List ReadTask)
  | [] => some []
  | [_] => some []
  | cur :: prv :: rest =>
    if prv.type ≠ some .array then none
    else if cur.idx = prv.elements - 1 then moveToNextTask (prv :: rest)
    else if cur.idx < prv.elements then some (newTask (cur.idx + 1) :: prv :: rest)
    else none

/-- An object is complete, and the bytes up to `pos` are read. -/
def complete (r : Reader) (pos : Nat) (obj : RedisReply) : ItemResult :=
  match place r.rstack r.reply obj, moveToNextTask r.rstack with
  | some reply, some rstack => .ok { r with pos := pos, rstack := rstack, reply := some reply }
  | _, _ => .undefined

/-- `processLineItem`, on a task of this type. -/
def processLineItem (r : Reader) (type : ReplyType) : ItemResult :=
  match seekNewline r.unread with
  | none => .err r
  | some len =>
    let obj := if type = .integer then .integer (readLongLong r.unread)
      else .text type (r.unread.take len)
    r.complete (r.pos + len + 2) obj

/-- `processBulkItem`. -/
def processBulkItem (r : Reader) : ItemResult :=
  match seekNewline r.unread with
  | none => .err r
  | some n =>
    let bytelen := n + 2
    let len := readLongLong r.unread
    if len < 0 then r.complete (r.pos + bytelen) .nil
    else
      let bytelen := bytelen + len.toNat + 2
      if r.pos + bytelen ≤ r.buf.len then
        r.complete (r.pos + bytelen) (.text .string ((r.unread.drop (n + 2)).take len.toNat))
      else .err r

/-- `processMultiBulkItem`, on the task `cur` above `below`. -/
def processMultiBulkItem (r : Reader) (cur : ReadTask) (below : List ReadTask) : ItemResult :=
  if r.rstack.length = 9 then .err (r.setError .protocol depthText)
  else match seekNewline r.unread with
    | none => .err r
    | some n =>
      let pos := r.pos + n + 2
      let elements := readLongLong r.unread
      if elements = -1 then r.complete pos .nil
      else
        let obj := createArrayObject (int32 elements)
        if 0 < elements then
          match place r.rstack r.reply obj with
          | some reply => .ok { r with
              pos := pos
              rstack := newTask 0 :: { cur with elements := int32 elements } :: below
              reply := some reply }
          | none => .undefined
        else r.complete pos obj

/-- The type a byte stands for. -/
def typeOfByte (b : UInt8) : Option ReplyType :=
  if b = 45 then some .error
  else if b = 43 then some .status
  else if b = 58 then some .integer
  else if b = 36 then some .string
  else if b = 42 then some .array
  else none

/-- `processItem`, behind the type of the task `cur` above `below`. -/
def processTyped (r : Reader) (type : ReplyType) (cur : ReadTask) (below : List ReadTask) :
    ItemResult :=
  match type with
  | .error | .status | .integer => r.processLineItem type
  | .string => r.processBulkItem
  | .array => r.processMultiBulkItem cur below
  | .nil => .undefined

/-- `processItem`. -/
def processItem (r : Reader) : ItemResult :=
  match r.rstack with
  | [] => .undefined
  | cur :: below => match cur.type with
    | some type => r.processTyped type cur below
    | none => match r.unread with
      | [] => .err r
      | b :: _ => match typeOfByte b with
        | none => .err (r.setError .protocol (protocolByteText b))
        | some type =>
          let cur := { cur with type := some type }
          { r with pos := r.pos + 1, rstack := cur :: below }.processTyped type cur below

/-- The loop of `redisReaderGetReply`, up to a number of items. -/
def processItems : (fuel : Nat) → Reader → ItemResult
  | 0, r => .ok r
  | fuel + 1, r =>
    if r.rstack = [] then .ok r
    else match r.processItem with
      | .ok r => processItems fuel r
      | res => res

/-! ## The interface -/

/-- `redisReaderCreate`. -/
def create : Reader where
  err := none
  buf := .empty
  pos := 0
  maxbuf := 1024 * 16
  rstack := []
  reply := none

/-- `redisReaderFeed`, and whether it returns `REDIS_OK`. -/
def feed (r : Reader) (buf : List UInt8) : Bool × Reader :=
  if r.err.isSome then (false, r)
  else if buf = [] then (true, r)
  else
    let r := if r.buf.len = 0 ∧ r.maxbuf ≠ 0 ∧ r.maxbuf < r.buf.free then
      { r with buf := .empty, pos := 0 } else r
    (true, { r with buf := r.buf.catlen buf })

/-- What `redisReaderGetReply` returns. -/
inductive Answer where
  /-- `REDIS_OK`, with a reply or with null. -/
  | ok (reply : Option RedisReply)
  /-- `REDIS_ERR`. -/
  | err

/-- The end of `redisReaderGetReply`. -/
def emit (r : Reader) : Answer × Reader :=
  let r := if 1024 ≤ r.pos then { r with buf := r.buf.range r.pos (-1), pos := 0 } else r
  if r.rstack = [] then (.ok r.reply, { r with reply := none }) else (.ok none, r)

/-- What `redisReaderGetReply` returns behind its loop. -/
def answer : ItemResult → Option (Answer × Reader)
  | .undefined => none
  | .ok r => some r.emit
  | .err r => if r.err.isSome then some (.err, r) else some r.emit

/-- `redisReaderGetReply`; it may be undefined. -/
def getReply (r : Reader) : Option (Answer × Reader) :=
  if r.err.isSome then some (.err, r)
  else if r.buf.len = 0 then some (.ok none, r)
  else
    let r := if r.rstack = [] then { r with rstack := [newTask (-1)] } else r
    -- every item takes a byte
    answer (processItems (r.buf.len - r.pos + 1) r)

end Reader

end ServerCom.Redis
