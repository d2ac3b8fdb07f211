import ServerCom.Core.Text.CString
import ServerCom.Http.Native.Client

/-!
# The buffer behind a reply

`remote_read_callback` copies a response body into an array on the stack, which is not
cleared, and passes it on as a NUL-terminated string. Between two responses any other
function may have used the same part of the stack.
-/

namespace ServerCom.Http

open Text
open ClientWorld (maxLen remoteCallback)

/-- `write_addr`. -/
structure WriteAddr where
  /-- Its bytes. -/
  bytes : List UInt8
  /-- `MAX_LEN` of them. -/
  size : bytes.length = maxLen

/-- A buffer of equal bytes. -/
def WriteAddr.fill (c : UInt8) : WriteAddr := ⟨List.replicate maxLen c, List.length_replicate⟩

/-- `evbuffer_remove(input_buffer, write_addr, MAX_LEN)`. -/
def WriteAddr.evbufferRemove (b : WriteAddr) (input : List UInt8) : WriteAddr where
  bytes := overwrite b.bytes (input.take maxLen)
  size := by
    rw [length_overwrite, b.size]
    rw [List.length_take, b.size]
    exact Nat.min_le_left ..

/-- A response that `remote_read_callback` passes to `Reply`. -/
def RemoteResponse.Replied (rsp : RemoteResponse) : Prop :=
  rsp.responseCode.tdiv 100 ≠ 4 ∧ rsp.responseCode.tdiv 100 ≠ 5

instance (rsp : RemoteResponse) : Decidable rsp.Replied := inferInstanceAs (Decidable (_ ∧ _))

/-- What `remote_read_callback` passes to `Reply`. The string has no value when its bytes
do not end inside the buffer. -/
structure ReplyText where
  /-- The body of the response. -/
  body : List UInt8
  /-- The C string. -/
  text : Option (List UInt8)
  deriving DecidableEq

/-- The stack memory of the callback, and the replies so far. -/
structure Replies where
  /-- What `write_addr` holds. -/
  writeAddr : WriteAddr
  /-- The calls of `Reply`, the newest first. -/
  calls : List ReplyText

/-- What happens to that memory. -/
inductive StackMove where
  /-- `remote_read_callback` with a response. -/
  | respond (rsp : RemoteResponse)
  /-- Other functions leave these bytes there. -/
  | scribble (b : WriteAddr)

/-- The memory and the replies behind a move. -/
def Replies.step (r : Replies) : StackMove → Replies
  | .respond rsp =>
    if rsp.Replied then
      let b := r.writeAddr.evbufferRemove rsp.input
      ⟨b, ⟨rsp.input, cString b.bytes⟩ :: r.calls⟩
    else r
  | .scribble b => ⟨b, r.calls⟩

/-- The bytes that are copied are those of the client's callback. -/
theorem remoteCallback_replied {rsp : RemoteResponse} (h : rsp.Replied) (b : WriteAddr) :
    ∃ copied, remoteCallback (some rsp) = .reply copied ∧
      (b.evbufferRemove rsp.input).bytes = overwrite b.bytes copied :=
  ⟨rsp.input.take maxLen, if_pos h, rfl⟩

end ServerCom.Http
