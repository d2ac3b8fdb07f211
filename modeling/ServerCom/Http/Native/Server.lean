import Mathlib.Data.List.Basic

/-!
# The HTTP server object

`BaseHttpSvr` keeps the request that is open in one pointer. While `RevRequest` runs,
the user's code may answer it; afterwards the server answers it itself if the pointer is
still set. `libevent` is represented by the list of responses it was asked to send, and
does not enter `RevRequestCB` from inside a send.
-/

namespace ServerCom.Http

/-- `evhttp_request *`. -/
abbrev RequestPtr := Nat

/-- What `libevent` is asked to send. -/
inductive Response where
  /-- `evhttp_send_reply`. -/
  | reply (code : Int) (reason : Option (List UInt8)) (body : List UInt8)
  /-- `evhttp_send_error`. -/
  | error (code : Int) (reason : Option (List UInt8))
  deriving DecidableEq, Repr

/-- `BaseHttpSvr`. -/
structure BaseHttpSvr where
  /-- `m_tmp_req`. -/
  tmpReq : Option RequestPtr
  deriving DecidableEq, Repr

/-- The server and the responses sent so far. -/
structure Serving where
  /-- The object. -/
  svr : BaseHttpSvr
  /-- The responses, each with the request it was sent for. -/
  sent : List (RequestPtr × Response)
  deriving DecidableEq, Repr

/-- What the user's code calls. -/
inductive UserCall where
  /-- `Reply`. -/
  | reply (code : Int) (reason : Option (List UInt8)) (str : List UInt8)
  /-- `ReplyError`. -/
  | replyError (code : Int) (reason : Option (List UInt8))
  /-- `GetUri`. -/
  | getUri
  deriving DecidableEq, Repr

/-- `HTTP_SERVUNAVAIL`. -/
def httpServUnavail : Int := 503

/-- `"svr have error code"`. -/
def svrHaveErrorCode : List UInt8 := "svr have error code".toList.map Char.toUInt8

namespace Serving

/-- A constructed server. -/
def start : Serving := ⟨⟨none⟩, []⟩

/-- Send the response and forget the request, as `Reply` and `ReplyError` do. -/
def send (s : Serving) (r : Response) : Serving :=
  match s.svr.tmpReq with
  | none => s
  | some req => ⟨⟨none⟩, s.sent ++ [(req, r)]⟩

/-- `Reply`; the body is printed with `"%s"`. -/
def reply (s : Serving) (code : Int) (reason : Option (List UInt8)) (str : List UInt8) : Serving :=
  s.send (.reply code reason (str.takeWhile (· ≠ 0)))

/-- `ReplyError`. -/
def replyError (s : Serving) (code : Int) (reason : Option (List UInt8)) : Serving :=
  s.send (.error code reason)

/-- `GetUri`, where `uri` is `evhttp_request_get_uri`. -/
def getUri (uri : RequestPtr → List UInt8) (s : Serving) : Option (List UInt8) :=
  s.svr.tmpReq.map uri

/-- The server behind a call of the user's code. -/
def call (s : Serving) : UserCall → Serving
  | .reply code reason str => s.reply code reason str
  | .replyError code reason => s.replyError code reason
  | .getUri => s

/-- `RevRequestCB`, where `RevRequest` makes these calls. -/
def revRequestCB (s : Serving) (req : RequestPtr) (calls : List UserCall) : Serving :=
  let s := calls.foldl call { s with svr := ⟨some req⟩ }
  match s.svr.tmpReq with
  | some req => ⟨⟨none⟩, s.sent ++ [(req, .error httpServUnavail (some svrHaveErrorCode))]⟩
  | none => s

end Serving

/-- What happens to a server. -/
inductive Event where
  /-- A request arrives, and `RevRequest` makes these calls. -/
  | request (req : RequestPtr) (calls : List UserCall)
  /-- The user's code makes a call between requests. -/
  | call (c : UserCall)
  deriving DecidableEq, Repr

/-- The server behind an event. -/
def Serving.step (s : Serving) : Event → Serving
  | .request req calls => s.revRequestCB req calls
  | .call c => s.call c

end ServerCom.Http
