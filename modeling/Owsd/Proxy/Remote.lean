import Owsd.Basis.BitMask
import Owsd.Basis.Run
import Owsd.Proxy.Merge
import Owsd.Rpc.Message

/-!
A connection to a remote owsd server (`ws_ubusproxy.c`, `local_stub.c`).

The remote is asked to log us in, for its events and for its objects; for
each object there is a stub on the local bus. A call on a stub is sent to the
remote under a fresh id, and the local request is deferred in one of the
twenty slots of `calls` until the reply comes. One callback receives all
messages of the remote, replies and events alike.

`log` records what happened, newest first: what was sent to the remote and
received from it, and what the local bus saw. Local requests are numbered in
the order in which they reach a stub. The code reads neither.
-/

namespace Owsd.Proxy

open LinkedList BitMask Rpc

def maxProxiedCalls : ℕ := 20

/-- The field `waiting_for`. -/
structure WaitingFor where
  login : Bool
  listen : Bool
  call : BitVec maxProxiedCalls
  listId : Int

/-- `struct wsu_proxied_call`. -/
structure ProxiedCall where
  jsonrpcId : Int
  ureq : ℕ

inductive Request where
  | call (id : Int) (sid : Option CString) (object method : CString) (args : Json)
  | listen (id : Int) (sid pattern : CString)
  | list (id : Int) (sid pattern : CString)

inductive Action where
  | sent (req : Request)
  | received (msg : Json)
  /-- A local request waits for the reply to the call with this id. -/
  | deferred (ureq : ℕ) (id : Int)
  | refused (ureq : ℕ) (status : Int)
  | reply (ureq : ℕ) (data : List (CString × Json))
  | completed (ureq : ℕ) (status : Int)
  | event (type : CString) (data : List (CString × Json))

inductive Crash where
  /-- The cursor of a merge read something that is no stub. -/
  | cursor (f : Fault)
  /-- An assertion of json-c failed. -/
  | assertion
  /-- A null pointer was read as text. -/
  | nullText
  /-- `call_id` overflowed. -/
  | overflow

/-- `struct wsu_remote_bus`, with the session id of its peer. The array
`calls` is only read and written at places below `maxProxiedCalls`. -/
structure RemoteBus where
  callId : Int
  waitingFor : WaitingFor
  calls : ℕ → ProxiedCall
  stubs : Stubs
  sid : CString
  ureqs : ℕ
  log : List Action

/-- What happens to a connection: a method of a stub is called, or the
receive callback gets data, which may not parse. -/
inductive Event where
  | call (object method : CString) (args : List Attr)
  | receive (msg : Option Json)

/-! ### The list reply -/

/-- The type name of an argument as text. A value that is no string is
printed, and its text begins with none of the letters of a type. -/
def typeText : Json → Option CString
  | .null => none
  | .string s => some s
  | _ => some []

/-- The signature an object of the reply stands for, if it is one: the code
takes it for an object of objects. -/
def signatureOf : Json → Option Signature
  | .object methods => methods.mapM fun m =>
      match m.2 with
      | .object margs => some (m.1, margs.map fun a => (a.1, typeText a.2))
      | _ => none
  | _ => none

/-- The round for a member of the reply. What is no signature fails an
assertion as soon as it is looked at, and that is always, except when the
object has no stub and does not pass the filters. -/
def Merge.member (M : Allocator) (accepts : CString → Bool) (last : Place) (m : Merge)
    (obj : CString × Json) : Except Crash Merge :=
  match signatureOf obj.2 with
  | some s => (m.object M accepts last (obj.1, s)).mapError .cursor
  | none => do
      let m ← (m.advance last obj.1).mapError .cursor
      if m.cmpResult ≠ 0 ∧ accepts obj.1 = false then .ok m else .error .assertion

def mergeReply (M : Allocator) (accepts : CString → Bool) (st : Stubs)
    (members : List (CString × Json)) : Except Crash Stubs := do
  let last := placeOf LocalStub.addr st.tree.getLast?
  let start := Merge.start st (members.map fun obj => (obj.1, []))
  let m ← members.foldlM (Merge.member M accepts last) start
  .ok m.stubs

def IsListed (obj : CString × Json) (obj' : CString × Signature) : Prop :=
  obj.1 = obj'.1 ∧ signatureOf obj.2 = some obj'.2

section
variable {M : Allocator} {accepts : CString → Bool} {members : List (CString × Json)}
  {list : List (CString × Signature)}

theorem foldlM_member {last : Place} {m : Merge} (h : List.Forall₂ IsListed members list) :
    members.foldlM (Merge.member M accepts last) m =
      (list.foldlM (Merge.object M accepts last) m).mapError .cursor := by
  induction h generalizing m with
  | nil => rfl
  | @cons obj obj' members list hobj hrest ih =>
      have hmember : Merge.member M accepts last m obj =
          (m.object M accepts last obj').mapError .cursor := by
        simp only [Merge.member, hobj.1, hobj.2]
      rw [List.foldlM_cons, List.foldlM_cons, hmember]
      cases m.object M accepts last obj' with
      | error f => rfl
      | ok m' => exact ih

theorem mergeReply_eq {st : Stubs} (h : List.Forall₂ IsListed members list) :
    mergeReply M accepts st members = (mergeList M accepts st list).mapError .cursor := by
  have hstart : Merge.start st (members.map fun obj => (obj.1, [])) = Merge.start st list := by
    cases h with
    | nil => rfl
    | cons hobj _ => simp only [List.map_cons, Merge.start, hobj.1]
  rw [mergeReply, mergeList, hstart, foldlM_member h]
  cases list.foldlM (Merge.object M accepts (placeOf LocalStub.addr st.tree.getLast?))
    (Merge.start st list) with
  | error f => rfl
  | ok m => rfl

end

/-! ### The slots -/

namespace RemoteBus

def emit (r : RemoteBus) (actions : List Action) : RemoteBus :=
  { r with log := actions ++ r.log }

/-- `++remote->call_id`. -/
def nextId (r : RemoteBus) : Except Crash RemoteBus :=
  if r.callId < 2147483647 then .ok { r with callId := r.callId + 1 } else .error .overflow

/-- `waiting_for.call` as an `int`. -/
def callMask (r : RemoteBus) : BitVec 32 := r.waitingFor.call.setWidth 32

def wsuProxiedCallNew (r : RemoteBus) : Option (ℕ × RemoteBus) :=
  let callIdx := ffs (~~~r.callMask)
  if callIdx = 0 ∨ maxProxiedCalls < callIdx then none
  else
    let mask := (r.callMask ||| (1#32 <<< (callIdx - 1))).setWidth maxProxiedCalls
    some (callIdx - 1, { r with waitingFor := { r.waitingFor with call := mask } })

def wsuProxiedCallFree (r : RemoteBus) (idx : ℕ) : RemoteBus :=
  if idx < maxProxiedCalls then
    let mask := (r.callMask &&& ~~~(1#32 <<< idx)).setWidth maxProxiedCalls
    { r with waitingFor := { r.waitingFor with call := mask } }
  else r

/-- The search for an id with `wsu_proxied_call_foreach`. -/
def findCall (r : RemoteBus) (id : Int) : Option ℕ :=
  (foreach 32 r.callMask).find? fun idx => (r.calls idx).jsonrpcId = id

/-! ### Requests of the proxy -/

def sendListen (r : RemoteBus) : Except Crash RemoteBus := do
  let r ← r.nextId
  let r := { r with waitingFor := { r.waitingFor with listen := true } }
  .ok (r.emit [.sent (.listen r.callId r.sid (.ofString "*"))])

def sendList (r : RemoteBus) : Except Crash RemoteBus := do
  let r ← r.nextId
  let r := { r with waitingFor := { r.waitingFor with listId := r.callId } }
  .ok (r.emit [.sent (.list r.callId r.sid (.ofString "*"))])

/-- `wsu_local_stub_handle_call`, for an object that is on the bus. -/
def wsuLocalStubHandleCall (r : RemoteBus) (object method : CString) (args : List Attr) :
    Except Crash RemoteBus := do
  let r ← r.nextId
  let ureq := r.ureqs
  let r := { r with ureqs := ureq + 1 }
  match r.wsuProxiedCallNew with
  | none => .ok (r.emit [.refused ureq ubusStatusNotSupported])
  | some (idx, r) =>
      -- save id into slot
      let r := { r with calls := Function.update r.calls idx ⟨r.callId, ureq⟩ }
      let req := Request.call r.callId (some r.sid) object method (Blob.table args).toJson
      .ok (r.emit [.sent req, .deferred ureq r.callId])

/-! ### Replies -/

def onLogin (r : RemoteBus) (result : Json) : Except Crash RemoteBus :=
  if result.isArray = false ∨ (result.arrayGetIdx 0).getInt ≠ 0 then .ok r
  else
    match (result.arrayGetIdx 1).getEx (.ofString "ubus_rpc_session") with
    | some (.string sid) =>
        sendListen { r with
          waitingFor := { r.waitingFor with login := false }
          sid := sid.take ubusSidMaxStrlen }
    | _ => .ok r

def onListen (r : RemoteBus) (result : Json) : Except Crash RemoteBus :=
  if result.isArray = true ∧ (result.arrayGetIdx 0).getInt = 0 then
    sendList { r with waitingFor := { r.waitingFor with listen := false } }
  else .ok r

/-- The message is taken for the reply to the last `list`. -/
def isListReply (r : RemoteBus) (id : Json) : Bool :=
  r.waitingFor.listId ≠ 0 && id.isInt && id.getInt = r.waitingFor.listId

/-- The reply to a `list`. -/
def onList (M : Allocator) (accepts : CString → Bool) (r : RemoteBus) (result : Json) :
    Except Crash RemoteBus :=
  if result.isArray = false ∨ (result.arrayGetIdx 0).getInt ≠ 0 then .ok r
  else
    match result.arrayGetIdx 1 with
    | .object members => do
        let stubs ← mergeReply M accepts r.stubs members
        .ok { r with stubs := stubs, waitingFor := { r.waitingFor with listId := 0 } }
    | _ => .ok r

def answerData (ureq : ℕ) (result : Json) : List Action :=
  match result.arrayGetIdx 1 with
  | .object data => [.reply ureq data]
  | _ => []

/-- What the local bus sees of the result of a call, newest first: the data,
and the status that completes the request. -/
def answer (ureq : ℕ) (result : Json) : List Action :=
  match result with
  | .array _ =>
      match result.arrayGetIdx 0 with
      | .int status => .completed ureq (Json.int status).getInt :: answerData ureq result
      | _ => answerData ureq result
  | _ => [.completed ureq ubusStatusUnknownError]

def onCallReply (r : RemoteBus) (id result : Json) : RemoteBus :=
  if id.isInt = false then r
  else if id.getInt = 0 then r
  else
    match r.findCall id.getInt with
    | none => r
    | some idx =>
        -- will send response to found request
        (r.emit (answer (r.calls idx).ureq result)).wsuProxiedCallFree idx

/-- A message with a result: process it depending on what state we are in. -/
def onResult (M : Allocator) (accepts : CString → Bool) (r : RemoteBus) (id result : Json) :
    Except Crash RemoteBus :=
  if r.waitingFor.login then r.onLogin result
  else if r.waitingFor.listen then r.onListen result
  else if r.isListReply id then r.onList M accepts result
  else if r.waitingFor.call ≠ BitVec.zero maxProxiedCalls then .ok (r.onCallReply id result)
  else .ok r

/-! ### Events -/

def replay (r : RemoteBus) (type : CString) (data : Json) : RemoteBus :=
  match data with
  | .object members => r.emit [.event type members]
  | _ => r.emit [.event type []]

/-- An event of the remote's bus. `data` is null when there is none. -/
def onEvent (r : RemoteBus) (type : CString) (data : Json) : Except Crash RemoteBus :=
  let path := (data.getEx (.ofString "path")).getD .null
  if type = .ofString "ubus.object.add" then
    match path with
    | .string _ => r.sendList
    | _ => .ok (r.replay type path)
  else if type = .ofString "ubus.object.remove" then
    match path with
    | .string name =>
        match r.stubs.tree.find? fun s => strcmp s.key name = 0 with
        | some stub => .ok { r with stubs := r.stubs.wsuLocalStubDestroy stub }
        | none => .ok r
    | _ => .ok (r.replay type path)
  else .ok (r.replay type data)

/-- A message without a result but with a method. A method that is no string
is printed, and its text is not that of an event. -/
def onMethod (r : RemoteBus) (msg method : Json) : Except Crash RemoteBus :=
  match method with
  | .null => .error .nullText
  | .string method =>
      if method ≠ .ofString "event" then .ok r
      else
        match msg.getEx (.ofString "params") with
        | some (.object params) =>
            match (Json.object params).getEx (.ofString "type") with
            | some (.string type) =>
                r.onEvent type (((Json.object params).getEx (.ofString "data")).getD .null)
            | _ => .ok r
        | _ => .ok r
  | _ => .ok r

def msgId (msg : Json) : Json := (msg.getEx (.ofString "id")).getD .null

/-- `LWS_CALLBACK_CLIENT_RECEIVE`, for a message that parses. -/
def onReceive (M : Allocator) (accepts : CString → Bool) (r : RemoteBus) (msg : Json) :
    Except Crash RemoteBus :=
  let r := r.emit [.received msg]
  match msg.getEx (.ofString "result") with
  | some result => r.onResult M accepts (msgId msg) result
  | none =>
      match msg.getEx (.ofString "method") with
      | some method => r.onMethod msg method
      | none => .ok r

/-! ### Runs -/

/-- The connection before anything was sent: the memory comes zeroed. -/
def connected : RemoteBus where
  callId := 0
  waitingFor := ⟨false, false, .zero _, 0⟩
  calls _ := ⟨0, 0⟩
  stubs := .empty
  sid := []
  ureqs := 0
  log := []

end RemoteBus

/-- What `LWS_CALLBACK_CLIENT_ESTABLISHED` finds: whether to log in through
rpcd, and the name in our certificate when there is TLS and one. -/
structure Handshake where
  rpcdIntegration : Bool
  certName : Option CString

/-- The connection as the established callback leaves it. -/
def Handshake.established (h : Handshake) : RemoteBus :=
  if h.rpcdIntegration then
    match h.certName with
    | none => .connected
    | some name =>
        let r := { RemoteBus.connected with callId := 1, waitingFor := ⟨true, false, .zero _, 0⟩ }
        r.emit [.sent (.call 1 none (.ofString "session") (.ofString "login")
          (.object [(.ofString "certificate", .string name)]))]
  else
    let r := { RemoteBus.connected with
      callId := 1
      waitingFor := ⟨false, true, .zero _, 0⟩
      sid := .ofString "X-tls-certificate" }
    r.emit [.sent (.listen 1 r.sid (.ofString "*"))]

/-- One callback. A call on an object that is not on the bus does not reach
us. -/
def step (M : Allocator) (accepts : CString → Bool) (r : RemoteBus) :
    Event → Except Crash RemoteBus
  | .call object method args =>
      if r.stubs.registered.any fun s => s.key = object then
        r.wsuLocalStubHandleCall object method args
      else .ok r
  | .receive none => .ok r
  | .receive (some msg) => r.onReceive M accepts msg

end Owsd.Proxy
