import ServerCom.Core.Text.Plain
import ServerCom.Http.Native.Client

/-!
# The etcd client object

`BaseEtcdClient` makes a new HTTP client for every operation, which calls it back through
an inner `HttpClient`. The key and the values of an operation are written into the URL as
they are. The inner class hands `Reply` and `ReplyError` on and leaves `ConnectFail` as
`BaseHttpClient` has it, with an empty body.
-/

namespace ServerCom.Http

open Text

/-- A call of an operation. -/
inductive EtcdOp where
  /-- `Set`. -/
  | set (key value : List UInt8)
  /-- `Get`. -/
  | get (key : List UInt8)
  /-- `Del`. -/
  | del (key : List UInt8)
  /-- `CreateQueue`. -/
  | createQueue (dirKey value : List UInt8)
  /-- `Watch`. -/
  | watch (key : List UInt8)
  /-- `ConditionSet`. -/
  | conditionSet (key prevValue value : List UInt8)
  deriving DecidableEq, Repr

/-- What `libevent` answers to a call of `Request`. -/
structure RequestAnswer where
  /-- `evhttp_uri_parse`. -/
  parsed : Option Uri
  /-- `evdns_base_new` succeeds. -/
  dnsCreated : Bool
  /-- `evhttp_connection_base_new` succeeds. -/
  connCreated : Bool
  /-- `evhttp_make_request` returns zero. -/
  requestMade : Bool
  deriving DecidableEq, Repr

namespace EtcdOp

/-- `s`, the URL of an operation. -/
def url (preUrl : List UInt8) : EtcdOp → List UInt8
  | .set key value => preUrl ++ key ++ literal "?value=" ++ value
  | .get key => preUrl ++ key
  | .del key => preUrl ++ key
  | .createQueue dirKey value => preUrl ++ dirKey ++ literal "?value=" ++ value
  | .watch key => preUrl ++ key ++ literal "?wait=true&recursive=true"
  | .conditionSet key prevValue value =>
    preUrl ++ key ++ literal "?prevValue=" ++ prevValue ++ literal "&value=" ++ value

/-- The method of an operation. -/
def cmdType : EtcdOp → UInt32
  | .set .. => 8 -- `EVHTTP_REQ_PUT`
  | .get _ => 1 -- `EVHTTP_REQ_GET`
  | .del _ => 16 -- `EVHTTP_REQ_DELETE`
  | .createQueue .. => 2 -- `EVHTTP_REQ_POST`
  | .watch _ => 1 -- `EVHTTP_REQ_GET`
  | .conditionSet .. => 8 -- `EVHTTP_REQ_PUT`

/-- What `Request` reads at `s.c_str()`. -/
def urlRead (preUrl : List UInt8) (op : EtcdOp) : List UInt8 :=
  (op.url preUrl).takeWhile (· ≠ 0)

/-- The call of `Request`, with its default arguments. -/
def requestCall (preUrl : List UInt8) (op : EtcdOp) (ans : RequestAnswer) : RequestCall where
  url := some (op.urlRead preUrl)
  cmdType := op.cmdType
  otSec := 30
  postData := none
  parsed := ans.parsed
  dnsCreated := ans.dnsCreated
  connCreated := ans.connCreated
  requestMade := ans.requestMade

end EtcdOp

/-- `m_pre_url` behind `Init`. -/
def initPreUrl (dnsName : List UInt8) : List UInt8 :=
  literal "http://" ++ dnsName ++ literal "/v2/keys/"

/-- `m_pre_url` as the constructor sets it. -/
def defaultPreUrl : List UInt8 := literal "http://127.0.0.1:2379/v2/keys/"

/-- The default of `Init` is the prefix of the constructor. -/
example : initPreUrl (literal "127.0.0.1:2379") = defaultPreUrl := by rfl

/-- A callback of the owner. -/
inductive OwnerCall where
  /-- `Reply`. -/
  | reply (str : List UInt8)
  /-- `ReplyError`. -/
  | replyError (errCode : Int) (errStr : List UInt8)
  deriving DecidableEq, Repr

/-- What the inner `HttpClient` makes of its callbacks; `m_owner` is set. -/
def UserCallback.forward : UserCallback → Option OwnerCall
  | .reply str => some (.reply str)
  | .replyError errCode errStr => some (.replyError errCode errStr)
  | .connectFail => none

/-- A living `BaseEtcdClient`, with the HTTP clients it made. -/
structure EtcdWorld where
  /-- `m_pre_url`. -/
  preUrl : List UInt8
  /-- The HTTP clients, one for each operation. -/
  clients : List ClientWorld
  /-- The callbacks of the owner, in order. -/
  answers : List OwnerCall
  deriving DecidableEq, Repr

/-- What happens to an etcd client. -/
inductive EtcdMove where
  /-- `Init`. -/
  | init (dnsName : List UInt8)
  /-- An operation. -/
  | call (op : EtcdOp) (ans : RequestAnswer)
  /-- The exchange of an operation is over. -/
  | finish (i : Nat) (c : ConnPtr) (rsp : Option RemoteResponse)
  /-- The connection of an operation is closed. -/
  | close (i : Nat) (c : ConnPtr)
  /-- The callback of an operation returns. -/
  | ret (i : Nat)
  deriving DecidableEq, Repr

/-- The move calls an operation. -/
def EtcdMove.isCall : EtcdMove → Bool
  | .call .. => true
  | _ => false

namespace EtcdWorld

/-- A constructed etcd client. -/
def create : EtcdWorld := ⟨defaultPreUrl, [], []⟩

/-- No callback is running. -/
def idle (w : EtcdWorld) : Bool := w.clients.all (·.running == 0)

/-- The owner is called for what is new in a client. -/
def hear (old new : ClientWorld) : List OwnerCall :=
  (new.callbacks.drop old.callbacks.length).filterMap UserCallback.forward

/-- Something happens to the client of an operation. -/
def onClient (w : EtcdWorld) (i : Nat) (m : ClientMove) : EtcdWorld :=
  match w.clients[i]? with
  | none => w
  | some c => { w with
      clients := w.clients.set i (c.step m), answers := w.answers ++ hear c (c.step m) }

/-- An operation, in a new client. -/
def call (w : EtcdWorld) (op : EtcdOp) (ans : RequestAnswer) : EtcdWorld :=
  let c := ClientWorld.create.request (op.requestCall w.preUrl ans)
  { w with clients := w.clients ++ [c], answers := w.answers ++ hear .create c }

/-- The world behind a move. The event loop waits for the callbacks to return; a move that
cannot happen changes nothing. -/
def step (w : EtcdWorld) : EtcdMove → EtcdWorld
  | .init dnsName => { w with preUrl := initPreUrl dnsName }
  | .call op ans => w.call op ans
  | .finish i c rsp => if w.idle then w.onClient i (.finish c rsp) else w
  | .close i c => if w.idle then w.onClient i (.close c) else w
  | .ret i => w.onClient i .ret

end EtcdWorld

end ServerCom.Http
