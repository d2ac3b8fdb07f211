import Mathlib.Data.List.Basic

/-!
# The HTTP client object

`BaseHttpClient` owns a connection on which it makes a request, calls the user back once
the exchange is over, and deletes itself behind the callback, as it does behind every error
in `Request`. A callback of the user is still running while `delete` is due, and may call
`Request` again. `libevent` is represented by the exchanges in flight and the connections
it may still report on; freeing a connection drops its exchange without a callback.
-/

namespace ServerCom.Http

/-- `evhttp_connection *`. -/
abbrev ConnPtr := Nat

/-- What `evhttp_uri_parse` finds in a URL. -/
structure Uri where
  /-- `evhttp_uri_get_host`. -/
  host : Option (List UInt8)
  /-- `evhttp_uri_get_port`. -/
  port : Int
  /-- `evhttp_uri_get_path`. -/
  path : Option (List UInt8)
  deriving DecidableEq, Repr

/-- The arguments of a call of `Request`, and what it is answered by `libevent`. -/
structure RequestCall where
  /-- `url`. -/
  url : Option (List UInt8)
  /-- `cmd_type`. -/
  cmdType : UInt32
  /-- `ot_sec`. -/
  otSec : UInt32
  /-- `post_data`. -/
  postData : Option (List UInt8)
  /-- `evhttp_uri_parse`. -/
  parsed : Option Uri
  /-- `evdns_base_new` succeeds. -/
  dnsCreated : Bool
  /-- `evhttp_connection_base_new` succeeds. -/
  connCreated : Bool
  /-- `evhttp_make_request` returns zero. -/
  requestMade : Bool
  deriving DecidableEq, Repr

/-- A request `libevent` is working on. -/
structure Exchange where
  /-- The connection it is made on. -/
  connection : ConnPtr
  /-- The host, also of the header `Host`. -/
  host : List UInt8
  /-- The port. -/
  port : Int
  /-- The method. -/
  cmdType : UInt32
  /-- The request target. -/
  uri : List UInt8
  /-- The body. -/
  body : List UInt8
  /-- The timeout of the connection. -/
  timeout : UInt32
  deriving DecidableEq, Repr

/-- The answer of an exchange. -/
structure RemoteResponse where
  /-- `response_code`. -/
  responseCode : Int
  /-- `response_code_line`. -/
  responseCodeLine : List UInt8
  /-- `input_buffer`. -/
  input : List UInt8
  deriving DecidableEq, Repr

/-- A callback of the user. -/
inductive UserCallback where
  /-- `Reply`. -/
  | reply (str : List UInt8)
  /-- `ReplyError`. -/
  | replyError (errCode : Int) (errStr : List UInt8)
  /-- `ConnectFail`. -/
  | connectFail
  deriving DecidableEq, Repr

/-- `BaseHttpClient`. -/
structure BaseHttpClient where
  /-- `m_dnsbase`, as the number of the `evdns_base`. -/
  dnsbase : Option Nat
  /-- `m_connection`. -/
  connection : Option ConnPtr
  /-- `m_is_request`. -/
  isRequest : Bool
  deriving DecidableEq, Repr

/-- A client and what `libevent` holds for it. -/
structure ClientWorld where
  /-- The object; without meaning once it is deleted. -/
  client : BaseHttpClient
  /-- How often it was deleted. -/
  deletions : Nat
  /-- The user's callbacks that have not returned; the object is deleted behind each. -/
  running : Nat
  /-- All callbacks, in order. -/
  callbacks : List UserCallback
  /-- What the calls of `Request` return. -/
  requests : List Bool
  /-- How many `evdns_base` were created. -/
  dnsBases : Nat
  /-- How many connections were created. -/
  connections : Nat
  /-- The connections whose closing can be reported. -/
  reporting : List ConnPtr
  /-- The exchanges in flight. -/
  inFlight : List Exchange
  /-- The exchanges dropped with their connection. -/
  dropped : List Exchange
  /-- A deleted object was used or deleted again. -/
  fault : Bool
  deriving DecidableEq, Repr

namespace ClientWorld

/-- A client made by `Create`. -/
def create : ClientWorld where
  client := ⟨none, none, false⟩
  deletions := 0
  running := 0
  callbacks := []
  requests := []
  dnsBases := 0
  connections := 0
  reporting := []
  inFlight := []
  dropped := []
  fault := false

/-- Call the user back; `delete` is due behind the callback. -/
def callBack (w : ClientWorld) (cb : UserCallback) : ClientWorld :=
  { w with callbacks := w.callbacks ++ [cb], running := w.running + 1 }

/-- A failing exit of `Request`. -/
def failRequest (w : ClientWorld) (msg : String) : ClientWorld :=
  { w with requests := w.requests ++ [false] }.callBack
    (.replyError 500 (msg.toList.map Char.toUInt8))

/-- The end of `Request`, with the connection created. -/
def makeRequest (w : ClientWorld) (r : RequestCall) (host : List UInt8) (port : Int)
    (uri : List UInt8) : ClientWorld :=
  let connection := w.connections
  let exchange : Exchange :=
    { connection, host, port, cmdType := r.cmdType, uri, body := r.postData.getD [],
      timeout := r.otSec }
  { w with
    client := { w.client with connection := some connection }
    connections := connection + 1
    reporting := connection :: w.reporting
    inFlight := if r.requestMade then exchange :: w.inFlight else w.inFlight
    requests := w.requests ++ [true] }

/-- `Request`. -/
def request (w : ClientWorld) (r : RequestCall) : ClientWorld :=
  if w.client.isRequest then w.failRequest "repeated Request"
  else match r.url with
    | none => w.failRequest "nullptr == url"
    | some url => match r.parsed with
      | none => w.failRequest "Parse url failed! "
      | some hu => match hu.host with
        | none => w.failRequest "Parse host failed! "
        | some host =>
          let port := if hu.port < 0 then 80 else hu.port
          let uri := if hu.path.getD [] = [] then [47] else url
          if !r.dnsCreated then
            { w with client := { w.client with dnsbase := none } }.failRequest
              "Create dns base failed!"
          else
            let w := { w with
              client := { w.client with dnsbase := some w.dnsBases }, dnsBases := w.dnsBases + 1 }
            if !r.connCreated then
              { w with client := { w.client with connection := none } }.failRequest
                "Create evhttp connection failed!"
            else w.makeRequest r host port uri

/-- The size of the buffer in `remote_read_callback`. -/
def maxLen : Nat := 1024 * 100

/-- The callback `remote_read_callback` makes. -/
def remoteCallback : Option RemoteResponse → UserCallback
  | some rsp =>
    let startNum := rsp.responseCode.tdiv 100
    if startNum ≠ 4 ∧ startNum ≠ 5 then .reply (rsp.input.take maxLen)
    else .replyError rsp.responseCode rsp.responseCodeLine
  | none => .connectFail

/-- `remote_read_callback`, for the exchange on this connection. -/
def remoteReadCallback (w : ClientWorld) (c : ConnPtr) (rsp : Option RemoteResponse) :
    ClientWorld :=
  let w := { w with inFlight := w.inFlight.filter (·.connection ≠ c) }
  if w.deletions = 0 then w.callBack (remoteCallback rsp) else { w with fault := true }

/-- `connection_close_callback`. -/
def connectionCloseCallback (w : ClientWorld) (c : ConnPtr) : ClientWorld :=
  let w := { w with reporting := w.reporting.filter (· ≠ c) }
  if w.deletions = 0 then { w with client := { w.client with connection := none } }
  else { w with fault := true }

/-- `evhttp_connection_free`. -/
def connectionFree (w : ClientWorld) (c : ConnPtr) : ClientWorld :=
  { w with
    reporting := w.reporting.filter (· ≠ c)
    inFlight := w.inFlight.filter (·.connection ≠ c)
    dropped := w.dropped ++ w.inFlight.filter (·.connection = c) }

/-- `delete`, with the destructor. -/
def delete (w : ClientWorld) : ClientWorld :=
  if w.deletions = 0 then
    let w := { w with deletions := 1 }
    match w.client.connection with
    | some c => w.connectionFree c
    | none => w
  else { w with deletions := w.deletions + 1, fault := true }

end ClientWorld

/-- What happens to a client. -/
inductive ClientMove where
  /-- The user's code calls `Request`, from outside or from one of the callbacks. -/
  | request (r : RequestCall)
  /-- The exchange on a connection is over. -/
  | finish (c : ConnPtr) (rsp : Option RemoteResponse)
  /-- A connection is closed. -/
  | close (c : ConnPtr)
  /-- The callback that runs returns. -/
  | ret
  deriving DecidableEq, Repr

/-- The world behind a move. A deleted object is not called, and `libevent` waits for the
callbacks to return; an exchange is taken to end only from the event loop, and not inside of
`evhttp_make_request`. A move that cannot happen changes nothing. -/
def ClientWorld.step (w : ClientWorld) : ClientMove → ClientWorld
  | .request r => if w.deletions = 0 then w.request r else w
  | .finish c rsp =>
    if w.running = 0 ∧ c ∈ w.inFlight.map Exchange.connection then w.remoteReadCallback c rsp
    else w
  | .close c => if w.running = 0 ∧ c ∈ w.reporting then w.connectionCloseCallback c else w
  | .ret => if 0 < w.running then { w with running := w.running - 1 }.delete else w

end ServerCom.Http
