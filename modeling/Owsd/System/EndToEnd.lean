import Owsd.Basis.Channel
import Owsd.Proxy.Answered
import Owsd.Proxy.Sent
import Owsd.Server.Replies

/-!
A proxy and the server it is connected to.

The proxy of one owsd is a client of another: its requests are the messages
the server gets on one of its connections, and the responses and events the
server sends there are what the proxy receives. Everything else goes on at
both ends in any order: local calls at the proxy, and at the server the other
clients, the bus, rpcd, the timers, and the end of the connection.

A local request is completed with what the remote bus answered to the call it
stands for, or with a refusal (`completed_traced`), and what the server
invokes for the proxy was asked for by one local request
(`invoked_traced`).
-/

namespace Owsd.System

open Rpc

/-! ### The two sides -/

def blobOf (req : Proxy.Request) : List Attr := (req.message.bind messageBlob).getD []

/-- What is written to the client on `w`. -/
def toClient (w : Server.Wsi) : Server.Action → Option (List Attr)
  | .reply w' _ resp => if w' = w then some resp else none
  | .notify w' _ notif => if w' = w then some notif else none
  | _ => none

/-- The messages to the client on `w`, the oldest first. -/
def outbox (w : Server.Wsi) (log : List Server.Action) : List Json :=
  (log.reverse.filterMap (toClient w)).map fun msg => (Blob.table msg).toJson

theorem outbox_suffix {w : Server.Wsi} {log log' : List Server.Action} (h : log <:+ log') :
    outbox w log <+: outbox w log' := by
  obtain ⟨acts, rfl⟩ := h
  rw [outbox, outbox, List.reverse_append, List.filterMap_append, List.map_append]
  exact List.prefix_append _ _

theorem mem_outbox {w : Server.Wsi} {log : List Server.Action} {msg : Json}
    (h : msg ∈ outbox w log) :
    (∃ m resp, .reply w m resp ∈ log ∧ msg = (Blob.table resp).toJson) ∨
      ∃ sub notif, .notify w sub notif ∈ log ∧ msg = (Blob.table notif).toJson := by
  obtain ⟨blob, hblob, rfl⟩ := List.mem_map.mp h
  obtain ⟨a, ha, hto⟩ := List.mem_filterMap.mp hblob
  have ha := List.mem_reverse.mp ha
  cases a with
  | reply w' m resp =>
      simp only [toClient, Option.ite_none_right_eq_some, Option.some.injEq] at hto
      obtain ⟨rfl, rfl⟩ := hto
      exact .inl ⟨m, resp, ha, rfl⟩
  | notify w' sub notif =>
      simp only [toClient, Option.ite_none_right_eq_some, Option.some.injEq] at hto
      obtain ⟨rfl, rfl⟩ := hto
      exact .inr ⟨sub, notif, ha, rfl⟩
  | _ => cases hto

def received : Proxy.Event → Option Json
  | .receive msg => msg
  | _ => none

/-- The message of the client on `w`. -/
def messageOf (w : Server.Wsi) : Server.Event → Option (List Attr)
  | .message w' blob _ _ => if w' = w then some blob else none
  | _ => none

theorem sent_grows {r r' : Proxy.RemoteBus} {e : Proxy.Event} (h : Proxy.Outgoing r e r') :
    Proxy.sentRequests r.log <+: Proxy.sentRequests r'.log := by
  have happend : ∀ acts, r'.log = acts ++ r.log →
      Proxy.sentRequests r.log <+: Proxy.sentRequests r'.log := by
    intro acts hlog
    rw [hlog, Proxy.sentRequests_append]
    exact List.prefix_append _ _
  cases h with
  | silent acts hlog => exact happend acts hlog
  | asked acts req hlog => exact happend (.sent req :: acts) hlog
  | called object method args _ hlog => exact happend [_, _] hlog

def proxySide (M : Proxy.Allocator) (accepts : CString → Bool) :
    Side Proxy.RemoteBus Proxy.Event Proxy.Crash Json (List Attr) where
  step := Proxy.step M accepts
  written r := (Proxy.sentRequests r.log).map blobOf
  input := received
  grows _ _ _ h := (sent_grows (Proxy.outgoing_step h)).map blobOf

theorem log_step {cfg : Server.Config} {s s' : Server.State} {e : Server.Event}
    (h : Server.step cfg s e = .ok s') : s.log <:+ s'.log := by
  obtain ⟨t, ht, rfl⟩ := Server.step_effect h
  have hlog := Server.log_effect ht
  exact hlog

def serverSide (cfg : Server.Config) (w : Server.Wsi) :
    Side Server.State Server.Event Server.Fault (List Attr) Json where
  step := Server.step cfg
  written s := outbox w s.log
  input := messageOf w
  grows _ _ _ h := outbox_suffix (log_step h)

/-! ### Messages -/

section
variable {req : Proxy.Request}

def envelopeBlob (id : BitVec 32) (method : CString) (params : List Json) : List Attr :=
  [(.ofString "jsonrpc", .string (.ofString "2.0")), (.ofString "id", .int32 id),
    (.ofString "method", .string method), (.ofString "params", .array (elemsToBlob params))]

theorem messageBlob_envelope (id : BitVec 32) (method : CString) (params : List Json) :
    messageBlob (envelope id method params) = some (envelopeBlob id method params) := by
  simp only [messageBlob, envelope, membersToBlob, toBlob_int]
  rfl

theorem blobOf_call (n : Int) (sid : Option CString) (object method : CString) (args : Json) :
    blobOf (.call n sid object method args) = envelopeBlob (BitVec.ofInt 32 n) (.ofString "call")
      [.string (sid.getD ubusDefaultSid), .string object, .string method, args] := by
  rw [blobOf, Proxy.Request.message, ubuscall_eq, Option.bind_some, messageBlob_envelope]
  rfl

theorem blobOf_listen (n : Int) (sid pattern : CString) :
    blobOf (.listen n sid pattern) = envelopeBlob (BitVec.ofInt 32 n) (.ofString "subscribe")
      [.string sid, .string pattern] := by
  rw [blobOf, Proxy.Request.message, ubuslisten_eq, Option.bind_some, messageBlob_envelope]
  rfl

theorem blobOf_list (n : Int) (sid pattern : CString) :
    blobOf (.list n sid pattern) = envelopeBlob (BitVec.ofInt 32 n) (.ofString "list")
      [.string sid, .string pattern] := by
  rw [blobOf, Proxy.Request.message, ubuslist_eq, Option.bind_some, messageBlob_envelope]
  rfl

theorem jsonrpcId_blobOf (req : Proxy.Request) :
    jsonrpcId (blobOf req) = some (.ofString "id", .int32 (BitVec.ofInt 32 req.id)) := by
  cases req with
  | call n sid object method args =>
      rw [blobOf_call]
      rfl
  | listen n sid pattern =>
      rw [blobOf_listen]
      rfl
  | list n sid pattern =>
      rw [blobOf_list]
      rfl

theorem parseRequest_envelope (x : ScalarAttrs) (id : BitVec 32) (method : CString)
    (params : List Json) : parseRequest x (envelopeBlob id method params) =
      ubusrpcBlobParse x method (.array (elemsToBlob params)) := rfl

/-- A call that the server accepts is the one that was sent. -/
theorem parseRequest_call {x : ScalarAttrs} {n : Int} {sid : Option CString}
    {object method : CString} {args : Json} {q : UbusrpcBlob}
    (h : parseRequest x (blobOf (.call n sid object method args)) = some (.ok q)) :
    ∃ members, args.toBlob.forEachAttr x = some members ∧
      q = .call ⟨sid.getD ubusDefaultSid, object, method, members⟩ := by
  rw [blobOf_call, parseRequest_envelope, ubusrpcBlobParse, if_pos rfl] at h
  obtain ⟨parsed, hparsed, hq⟩ := Option.map_eq_some_iff.mp h
  obtain ⟨A, rfl, rfl⟩ := parseParams_ok hq
  have hslots : blobmsgParseArray [.string, .string, .string, .unspec]
      (Blob.array (elemsToBlob [.string (sid.getD ubusDefaultSid), .string object,
        .string method, args])).members =
      [some ([], .string (sid.getD ubusDefaultSid)), some ([], .string object),
        some ([], .string method), some ([], args.toBlob)] := rfl
  simp only [ubusrpcBlobCallParse, hslots] at hparsed
  obtain ⟨members, hmembers, hA⟩ := Option.map_eq_some_iff.mp hparsed
  split at hA
  · cases hA
  · cases hA
    exact ⟨members, hmembers, rfl⟩

theorem eq_call_of_parseRequest {x : ScalarAttrs} {req : Proxy.Request} {A : UbusrpcBlobCall}
    (h : parseRequest x (blobOf req) = some (.ok (.call A))) :
    ∃ sid args, req = .call req.id sid A.object A.method args ∧
      A.sid = sid.getD ubusDefaultSid ∧ args.toBlob.forEachAttr x = some A.paramsBuf := by
  cases req with
  | call n sid object method args =>
      obtain ⟨members, hmembers, heq⟩ := parseRequest_call h
      cases heq
      exact ⟨sid, args, rfl, rfl, hmembers⟩
  | listen n sid pattern =>
      rw [blobOf_listen, parseRequest_envelope] at h
      cases h
  | list n sid pattern =>
      rw [blobOf_list, parseRequest_envelope] at h
      cases h

end

def dataOf : Option Blob → List Json
  | some data => [(if data.type = .array then Blob.array data.members
      else .table data.members).toJson]
  | none => []

def resultOf (rc : Int) (data : Option Blob) : Json :=
  .array (.int (BitVec.ofInt 32 rc).toInt :: dataOf data)

theorem toJson_respUbus (id : BitVec 32) (rc : Int) (data : Option Blob) :
    (Blob.table (jsonrpcRespUbus (some (.ofString "id", .int32 id)) rc data)).toJson =
      Proxy.resultMsg id.toInt (resultOf rc data) := by
  cases data with
  | none =>
      rw [jsonrpcRespUbus, Blob.toJson_table (by simp only [List.map, respId]; decide)]
      rfl
  | some data =>
      rw [jsonrpcRespUbus, Blob.toJson_table (by simp only [List.map, respId]; decide)]
      rfl

theorem getEx_respError (id : BitVec 32) (e : JsonrpcErrorCode) :
    (Blob.table (jsonrpcRespError (some (.ofString "id", .int32 id)) e none)).toJson.getEx
      (.ofString "result") = none := by
  rw [jsonrpcRespError, Blob.toJson_table (by simp only [List.map, respId]; decide)]
  rfl

theorem getEx_evNotification (t : Server.EvNotif) (info : Server.SubInfo) :
    (Blob.table (Server.evNotification t info)).toJson.getEx (.ofString "result") = none := by
  rw [Server.evNotification, Blob.toJson_table (by simp only [List.map]; decide)]
  rfl

/-! ### Runs -/

section
variable {M : Proxy.Allocator} {accepts : CString → Bool} {cfg : Server.Config} {w : Server.Wsi}
  {h : Proxy.Handshake} {n : ℕ} {es : List (Proxy.Event ⊕ Server.Event)}
  {s : Joined Proxy.RemoteBus Server.State}

/-- A message of the connection is a request of the proxy. -/
theorem message_sent
    (hat : JoinedAt (proxySide M accepts) (serverSide cfg w) h.established (Server.init n) es s)
    {m : ℕ} {blob : List Attr} {now : Server.Timespec} {a : Server.MessageAnswers}
    (he : (rights es)[m]? = some (.message w blob now a)) :
    ∃ req, .sent req ∈ s.left.log ∧ blob = blobOf req := by
  have hin : blob ∈ (serverSide cfg w).inputs (rights es) :=
    List.mem_filterMap.mpr ⟨_, List.mem_of_getElem? he, if_pos rfl⟩
  rw [hat.rightInputs.inputs] at hin
  obtain ⟨req, hreq, rfl⟩ := List.mem_map.mp (List.mem_of_mem_take hin)
  exact ⟨req, Proxy.mem_sentRequests.mp hreq, rfl⟩

/-- The server read the request as the request `q`, in its message `m`. -/
def ReadAs (es : List (Proxy.Event ⊕ Server.Event)) (w : Server.Wsi) (m : ℕ)
    (req : Proxy.Request) (q : UbusrpcBlob) : Prop :=
  ∃ now a, (rights es)[m]? = some (.message w (blobOf req) now a) ∧
    parseRequest a.scalarAttrs (blobOf req) = some (.ok q)

/-- Where a message with a result comes from. -/
structure ResultTraced (cfg : Server.Config) (n : ℕ) (es : List (Proxy.Event ⊕ Server.Event))
    (w : Server.Wsi) (s : Joined Proxy.RemoteBus Server.State) (msg : Json)
    (req : Proxy.Request) (q : UbusrpcBlob) (m : ℕ) (rc : Int) (data : Option Blob) : Prop where
  sent : .sent req ∈ s.left.log
  read : ReadAs es w m req q
  replied : .reply w m (jsonrpcRespUbus (jsonrpcId (blobOf req)) rc data) ∈ s.right.log
  message : msg = Proxy.resultMsg (BitVec.ofInt 32 req.id).toInt (resultOf rc data)
  call : ∀ A, q = .call A → Server.CallReply cfg n (rights es) w m (jsonrpcId (blobOf req)) A
    (jsonrpcRespUbus (jsonrpcId (blobOf req)) rc data)

theorem outbox_traced
    (hat : JoinedAt (proxySide M accepts) (serverSide cfg w) h.established (Server.init n) es s)
    {msg result : Json} (hmem : msg ∈ outbox w s.right.log)
    (hresult : msg.getEx (.ofString "result") = some result) :
    ∃ req q m rc data, ResultTraced cfg n es w s msg req q m rc data := by
  have hreplied := Server.replied_run hat.right
  rcases mem_outbox hmem with ⟨m, resp, hreply, rfl⟩ | ⟨sub, notif, hnotify, rfl⟩
  · obtain ⟨blob, now, a, he, -, hanswer, hcall⟩ := hreplied.replies w m resp hreply
    obtain ⟨req, hsent, rfl⟩ := message_sent hat he
    rcases hanswer with ⟨e, -, rfl⟩ | ⟨q, rc, data, hq, rfl⟩
    · -- An error has no result.
      rw [jsonrpcId_blobOf, getEx_respError] at hresult
      cases hresult
    · refine ⟨req, q, m, rc, data, hsent, ⟨now, a, he, hq⟩, hreply, ?_, ?_⟩
      · rw [jsonrpcId_blobOf, toJson_respUbus]
      · rintro A rfl
        exact hcall A hq
  · obtain ⟨t, info, rfl⟩ := hreplied.notified w sub notif hnotify
    rw [getEx_evNotification] at hresult
    cases hresult

theorem received_outbox
    (hat : JoinedAt (proxySide M accepts) (serverSide cfg w) h.established (Server.init n) es s)
    {msg : Json} (hmem : .receive (some msg) ∈ lefts es) : msg ∈ outbox w s.right.log := by
  have hin : msg ∈ (proxySide M accepts).inputs (lefts es) :=
    List.mem_filterMap.mpr ⟨_, hmem, rfl⟩
  rw [hat.leftInputs.inputs] at hin
  exact List.mem_of_mem_take hin

theorem toInt_id {r : Proxy.RemoteBus} (ho : Proxy.Orderly r) (hw : Proxy.WellFormed r)
    {req : Proxy.Request} (hreq : .sent req ∈ r.log) :
    (BitVec.ofInt 32 req.id).toInt = req.id := by
  obtain ⟨hpos, hle⟩ := ho.ids req hreq
  have hmax := hw.callId.2
  rw [BitVec.toInt_ofInt, Int.bmod_eq_of_le (by omega) (by omega)]

theorem wellFormed_left
    (hat : JoinedAt (proxySide M accepts) (serverSide cfg w) h.established (Server.init n) es s) :
    Proxy.WellFormed s.left :=
  run_invariant_of_step Proxy.WellFormed (fun _ _ _ hi hstep => Proxy.wellFormed_step hi hstep)
    (Proxy.wellFormed_established h) hat.left

theorem tracks_left
    (hat : JoinedAt (proxySide M accepts) (serverSide cfg w) h.established (Server.init n) es s) :
    Proxy.Tracks s.left := by
  have hwf := wellFormed_left hat
  have hanswerable : ∀ e ∈ lefts es, ∀ r, Proxy.Answerable r e := by
    intro e he r
    cases e with
    | call object method args => trivial
    | receive msg =>
        cases msg with
        | none => trivial
        | some msg =>
            intro result k idx hresult hid hfind
            obtain ⟨req, q, m, rc, data, ht⟩ := outbox_traced hat (received_outbox hat he) hresult
            have hk : (BitVec.ofInt 32 req.id).toInt = k := by
              rw [ht.message] at hid
              exact Json.int.inj hid
            have hres : resultOf rc data = result := by
              rw [ht.message] at hresult
              exact Option.some.inj hresult
            rw [← hres, ← hk, toInt_id (Proxy.orderly_run hat.left) hwf ht.sent]
            obtain ⟨hpos, hle⟩ := (Proxy.orderly_run hat.left).ids req ht.sent
            exact ⟨Proxy.getInt_int hpos (hle.trans hwf.callId.2), rfl⟩
  exact (Proxy.tracks_run (guarded_of_forall hanswerable _) hat.left).2

/-! ### Completed requests -/

/-- The local request `ureq` is that of a local call, which was sent as the
call `A` under the id `k`, came in at the server as its message `m`, and was
answered with the status `rc` and the data. -/
structure CallTraced (M : Proxy.Allocator) (accepts : CString → Bool) (cfg : Server.Config)
    (h : Proxy.Handshake) (n : ℕ) (es : List (Proxy.Event ⊕ Server.Event)) (w : Server.Wsi)
    (s : Joined Proxy.RemoteBus Server.State) (ureq : ℕ) (k : Int) (args : List Attr)
    (A : UbusrpcBlobCall) (m : ℕ) (rc : Int) (data : Option Blob) : Prop where
  forwarded : Proxy.Forwarded M accepts h (lefts es) ureq k A.sid A.object A.method args
  /-- The arguments are those of the local call, as JSON carries them. -/
  arguments : (Blob.table args).toJson.toBlob = .table A.paramsBuf
  read : ReadAs es w m (.call k (some A.sid) A.object A.method (Blob.table args).toJson) (.call A)
  replied : .reply w m (jsonrpcRespUbus (some (.ofString "id", .int32 (BitVec.ofInt 32 k))) rc
    data) ∈ s.right.log
  /-- The call was refused, or the remote bus completed its invocation with
  this status, and this is the first of the data it returned before. -/
  outcome : rc = ubusStatusPermissionDenied ∧ data = none ∨ ∃ mid,
    Server.Completed cfg n (rights es) w m A mid rc
      (jsonrpcRespUbus (some (.ofString "id", .int32 (BitVec.ofInt 32 k))) rc data) ∧
    data = (Server.returned w m mid).head?
  /-- The local bus saw this answer and no other. -/
  answered : s.left.log.filter (Proxy.Action.answersTo ureq) =
    Proxy.properAnswer ureq (resultOf rc data)

theorem resultOf_eq {id : BitVec 32} {rc rc' : Int} {data data' : Option Blob}
    (h : jsonrpcRespUbus (some (.ofString "id", .int32 id)) rc data =
      jsonrpcRespUbus (some (.ofString "id", .int32 id)) rc' data') :
    resultOf rc data = resultOf rc' data' := by
  have hjson := congrArg (fun resp => (Blob.table resp).toJson) h
  simp only [toJson_respUbus] at hjson
  have hmember := congrArg (fun msg => msg.getEx (.ofString "result")) hjson
  exact Option.some.inj hmember

/-- The call that a request waits for is the only request with its id. -/
theorem eq_call_of_forwarded
    (hat : JoinedAt (proxySide M accepts) (serverSide cfg w) h.established (Server.init n) es s)
    {req : Proxy.Request} {ureq : ℕ} {k : Int} (hreq : .sent req ∈ s.left.log) (hid : req.id = k)
    (hk : .deferred ureq k ∈ s.left.log) :
    ∃ sid object method args, req = .call k (some sid) object method (Blob.table args).toJson ∧
      Proxy.Forwarded M accepts h (lefts es) ureq k sid object method args := by
  obtain ⟨sid, object, method, args, hforwarded⟩ := Proxy.forwarded_of_deferred hat.left hk
  refine ⟨sid, object, method, args, ?_, hforwarded⟩
  have ho := Proxy.orderly_run hat.left
  have hsent := hforwarded.sent_mem hat.left
  exact List.inj_on_of_nodup_map ho.distinct (Proxy.mem_sentRequests.mpr hreq)
    (Proxy.mem_sentRequests.mpr hsent) hid

theorem resultOf_of_reply {id : BitVec 32} {result : Json} {rc rc' : Int}
    {data data' : Option Blob} (hresult : resultOf rc data = result)
    (hreply : jsonrpcRespUbus (some (.ofString "id", .int32 id)) rc data =
      jsonrpcRespUbus (some (.ofString "id", .int32 id)) rc' data') :
    result = resultOf rc' data' := by
  rw [← hresult, resultOf_eq hreply]

theorem callTraced_of_completed
    (hat : JoinedAt (proxySide M accepts) (serverSide cfg w) h.established (Server.init n) es s)
    {ureq : ℕ} (hmem : ureq ∈ Proxy.completions s.left.log) :
    ∃ k args A m rc data, CallTraced M accepts cfg h n es w s ureq k args A m rc data := by
  have hwf := wellFormed_left hat
  have ho := Proxy.orderly_run hat.left
  obtain ⟨later, msg, past, result, k, hlog, hfor, hanswered⟩ := (tracks_left hat).answered hmem
  have hreceived : .received msg ∈ s.left.log := by simp [hlog]
  have hdeferred : .deferred ureq k ∈ s.left.log := by
    rw [hlog]
    exact List.mem_append_right _ (.tail _ hfor.deferred)
  obtain ⟨req, q, m, rc, data, ht⟩ := outbox_traced hat
    (received_outbox hat (Proxy.receive_of_received hat.left hreceived)) hfor.result
  have hid : req.id = k := by
    have hid := hfor.id
    rw [ht.message, toInt_id ho hwf ht.sent] at hid
    exact Json.int.inj hid
  have hresult : resultOf rc data = result := by
    have hres := hfor.result
    rw [ht.message] at hres
    exact Option.some.inj hres
  obtain ⟨sid, object, method, args, rfl, hforwarded⟩ :=
    eq_call_of_forwarded hat ht.sent hid hdeferred
  have hreply := ht.replied
  have hread := ht.read
  obtain ⟨now, a, he, hq⟩ := hread
  obtain ⟨members, hmembers, rfl⟩ := parseRequest_call hq
  rw [Option.getD_some] at hq
  have hcall := ht.call _ rfl
  rw [jsonrpcId_blobOf] at hcall hreply
  -- An object is taken for the table it is.
  have hargs : (Blob.table args).toJson.toBlob = .table members := by
    have hobject : (Blob.table args).toJson.toBlob.forEachAttr a.scalarAttrs =
        some (Blob.table args).toJson.toBlob.members := rfl
    rw [hobject, Option.some.injEq] at hmembers
    rw [← hmembers]
    rfl
  rcases hcall with hdenied | ⟨mid, status, hcompleted, hresp⟩
  · refine ⟨k, args, ⟨sid, object, method, members⟩, m, ubusStatusPermissionDenied, none,
      hforwarded, hargs, ⟨now, a, he, hq⟩, ?_, .inl ⟨rfl, rfl⟩, ?_⟩
    · rw [hdenied] at hreply
      exact hreply
    · rw [hanswered, resultOf_of_reply hresult hdenied]
  · refine ⟨k, args, ⟨sid, object, method, members⟩, m, status,
      (Server.returned w m mid).head?, hforwarded, hargs, ⟨now, a, he, hq⟩, ?_,
      .inr ⟨mid, ?_, rfl⟩, ?_⟩
    · rw [hresp] at hreply
      exact hreply
    · rw [hresp] at hcompleted
      exact hcompleted
    · rw [hanswered, resultOf_of_reply hresult hresp]

/-! ### Deliveries -/

theorem resultId_le
    (hat : JoinedAt (proxySide M accepts) (serverSide cfg w) h.established (Server.init n) es s)
    {msg : Json} {k : Int} (hmem : msg ∈ outbox w s.right.log)
    (hid : Proxy.resultId msg = some k) : k ≤ s.left.callId := by
  have ho := Proxy.orderly_run hat.left
  obtain ⟨⟨result, hresult⟩, hid⟩ := Proxy.resultId_eq_some.mp hid
  obtain ⟨req, q, m, rc, data, ht⟩ := outbox_traced hat hmem hresult
  rw [ht.message] at hid
  have hk : (BitVec.ofInt 32 req.id).toInt = k := Json.int.inj hid
  rw [toInt_id ho (wellFormed_left hat) ht.sent] at hk
  rw [← hk]
  exact (ho.ids req ht.sent).2

/-- The local requests that are completed are those whose results were
delivered. -/
def Delivered (w : Server.Wsi) (s : Joined Proxy.RemoteBus Server.State) : Prop :=
  ∀ ureq k, .deferred ureq k ∈ s.left.log → (ureq ∈ Proxy.completions s.left.log ↔
    ∃ msg ∈ (outbox w s.right.log).take s.leftRead, Proxy.resultId msg = some k)

theorem awaiting_received {log : List Proxy.Action} {msg : Json} {k : Int} {ureq : ℕ} :
    (k, ureq) ∈ Proxy.awaiting Proxy.resultId (.received msg :: log) ↔
      (k, ureq) ∈ Proxy.awaiting Proxy.resultId log ∧ Proxy.resultId msg ≠ some k := by
  cases hid : Proxy.resultId msg with
  | none =>
      rw [Proxy.awaiting, outstanding_closes_none rfl (by simp [Proxy.Action.closes, hid])]
      simp [Proxy.awaiting]
  | some j =>
      have hcloses : (Proxy.Action.received msg).closes Proxy.resultId = some j := hid
      rw [Proxy.awaiting, outstanding_closes rfl hcloses, List.mem_filter, ← Proxy.awaiting,
        decide_eq_true_iff]
      refine and_congr_right fun _ => not_congr ?_
      rw [Option.some.injEq, eq_comm]

/-- Taking a message in removes the call it is the result for, and no
other. -/
theorem awaiting_receive {r r' : Proxy.RemoteBus} {msg : Json}
    (hstep : Proxy.step M accepts r (.receive (some msg)) = .ok r') (k : Int) (ureq : ℕ) :
    ((k, ureq) ∈ Proxy.awaiting Proxy.resultId r'.log ↔
      (k, ureq) ∈ Proxy.awaiting Proxy.resultId r.log ∧ Proxy.resultId msg ≠ some k) ∧
      (.deferred ureq k ∈ r'.log ↔ .deferred ureq k ∈ r.log) := by
  cases Proxy.step_effect hstep with
  | ignored _ he => exact absurd rfl (he msg)
  | message _ _ hb hnot =>
      obtain ⟨acts, hlog, hacts⟩ := hb.entries
      rw [hlog]
      refine ⟨?_, Proxy.mem_deferred_append (Proxy.opens_message hacts)⟩
      rw [List.append_assoc, Proxy.awaiting_append fun a ha =>
        Proxy.background_quiet (hacts a ha) Proxy.resultId]
      exact awaiting_received
  | answered _ result j idx mask hresult hid hfind hmask =>
      have hlog : ((r.setMask mask).emit (Proxy.RemoteBus.answer (r.calls idx).ureq result ++
          [.received msg])).log =
          Proxy.RemoteBus.answer (r.calls idx).ureq result ++ [.received msg] ++ r.log := rfl
      rw [hlog]
      refine ⟨?_, Proxy.mem_deferred_append Proxy.opens_answer⟩
      rw [List.append_assoc, Proxy.awaiting_append fun a ha =>
        Proxy.isAnswer_quiet (Proxy.isAnswer_of_mem_answer a ha) Proxy.resultId]
      exact awaiting_received

theorem completions_call {r r' : Proxy.RemoteBus} {object method : CString} {args : List Attr}
    (hstep : Proxy.step M accepts r (.call object method args) = .ok r') :
    Proxy.completions r'.log = Proxy.completions r.log ∧
      ∀ ureq k, .deferred ureq k ∈ r'.log → .deferred ureq k ∈ r.log ∨
        ureq = r.ureqs ∧ k = r.callId + 1 := by
  cases Proxy.step_effect hstep with
  | ignored _ _ => exact ⟨rfl, fun _ _ hmem => .inl hmem⟩
  | refused _ _ _ _ _ =>
      refine ⟨rfl, fun ureq k hmem => .inl ?_⟩
      simpa [Proxy.RemoteBus.emit] using hmem
  | deferred _ _ _ idx mask req _ _ _ _ =>
      refine ⟨rfl, fun ureq k hmem => ?_⟩
      rcases List.mem_append.mp hmem with hmem | hmem
      · exact .inr (by simpa using hmem)
      · exact .inl hmem

theorem delivered_step {s' : Joined Proxy.RemoteBus Server.State}
    {e : Proxy.Event ⊕ Server.Event}
    (hat : JoinedAt (proxySide M accepts) (serverSide cfg w) h.established (Server.init n) es s)
    (hi : Delivered w s) (hd : Delivers (proxySide M accepts) (serverSide cfg w) s e)
    (hstep : joinedStep (proxySide M accepts) (serverSide cfg w) s e = .ok s') :
    Delivered w s' := by
  have hat' := joinedAt_step hat hd hstep
  have ht := tracks_left hat
  have ht' := tracks_left hat'
  cases e with
  | inr e =>
      simp only [joinedStep] at hstep
      split at hstep
      · next right hright =>
        cases hstep
        have htake : (outbox w right.log).take s.leftRead =
            (outbox w s.right.log).take s.leftRead :=
          take_prefix (outbox_suffix (log_step hright)) hat.leftInputs.read
        intro ureq k hdef
        rw [htake]
        exact hi ureq k hdef
      · cases hstep
  | inl e =>
      simp only [joinedStep] at hstep
      split at hstep
      · next left hleft =>
        cases hstep
        have hleft : Proxy.step M accepts s.left e = .ok left := hleft
        intro ureq k hdef
        show ureq ∈ Proxy.completions left.log ↔ ∃ msg ∈ (outbox w s.right.log).take _, _
        cases e with
        | call object method args =>
            obtain ⟨hcompletions, hdeferred⟩ := completions_call hleft
            rw [hcompletions]
            rcases hdeferred ureq k hdef with hold | ⟨rfl, rfl⟩
            · exact hi ureq k hold
            · refine iff_of_false (fun hmem => Nat.lt_irrefl _ (ht.known _ hmem)) ?_
              rintro ⟨msg, hmem, hid⟩
              have hle := resultId_le hat (List.mem_of_mem_take hmem) hid
              omega
        | receive msg =>
            cases msg with
            | none =>
                cases hleft
                exact hi ureq k hdef
            | some msg =>
                obtain ⟨hawaiting, hdeferred⟩ := awaiting_receive hleft k ureq
                have hold := hdeferred.mp hdef
                have hread : (outbox w s.right.log)[s.leftRead]? = some msg := hd msg rfl
                have hreads : (proxySide M accepts).reads (.receive (some msg)) s.leftRead =
                    s.leftRead + 1 := rfl
                rw [hreads, List.take_add_one, hread]
                rw [← not_iff_not, ← ht'.completed k ureq hdef, hawaiting,
                  ht.completed k ureq hold, hi ureq k hold]
                simp only [List.mem_append, Option.toList_some, List.mem_singleton]
                constructor
                · rintro ⟨hno, hne⟩ ⟨msg', hmem | rfl, hid⟩
                  · exact hno ⟨msg', hmem, hid⟩
                  · exact hne hid
                · intro hno
                  refine ⟨fun hyes => ?_, fun hid => hno ⟨msg, .inr rfl, hid⟩⟩
                  obtain ⟨msg', hmem, hid⟩ := hyes
                  exact hno ⟨msg', .inl hmem, hid⟩
      · cases hstep

theorem delivered_run
    (hg : Guarded (joinedStep (proxySide M accepts) (serverSide cfg w))
      (Delivers (proxySide M accepts) (serverSide cfg w)) ⟨h.established, Server.init n, 0, 0⟩ es)
    (hrun : run (joinedStep (proxySide M accepts) (serverSide cfg w))
      ⟨h.established, Server.init n, 0, 0⟩ es = .ok s) : Delivered w s := by
  have hpair : JoinedAt (proxySide M accepts) (serverSide cfg w) h.established (Server.init n) es
      s ∧ Delivered w s := by
    refine guarded_history (fun es s => JoinedAt (proxySide M accepts) (serverSide cfg w)
      h.established (Server.init n) es s ∧ Delivered w s) ⟨joinedAt_nil, ?_⟩ ?_ hg hrun
    · intro ureq k hmem
      have hback := (Proxy.established_fresh h).2.2.2.2 _ hmem
      cases hback
    · intro es s e s' hi hd hstep
      exact ⟨joinedAt_step hi.1 hd hstep, delivered_step hi.1 hi.2 hd hstep⟩
  exact hpair.2

/-! ### Invocations -/

/-- The local request is that of a local call; the server took the call that
was sent for it in as its message `m`, and invoked it. -/
structure InvokedFor (M : Proxy.Allocator) (accepts : CString → Bool) (h : Proxy.Handshake)
    (es : List (Proxy.Event ⊕ Server.Event)) (w : Server.Wsi)
    (s : Joined Proxy.RemoteBus Server.State) (ureq m : ℕ) (k : Int)
    (sid object method : CString) (args params : List Attr) : Prop where
  invoked : .invoke m sid object method params ∈ s.right.log
  forwarded : Proxy.Forwarded M accepts h (lefts es) ureq k sid object method args
  received : .received w m (blobOf (.call k (some sid) object method (Blob.table args).toJson)) ∈
    s.right.log
  arguments : (Blob.table args).toJson.toBlob.members <+: params

theorem inputs_nodup
    (hat : JoinedAt (proxySide M accepts) (serverSide cfg w) h.established (Server.init n) es s) :
    (((rights es).filterMap (messageOf w)).map jsonrpcId).Nodup := by
  have ho := Proxy.orderly_run hat.left
  have hwf := wellFormed_left hat
  have hinputs : (rights es).filterMap (messageOf w) =
      ((Proxy.sentRequests s.left.log).map blobOf).take s.rightRead := hat.rightInputs.inputs
  rw [hinputs, List.map_take]
  refine List.Nodup.sublist (List.take_sublist _ _) ?_
  rw [List.map_map]
  refine List.Nodup.map_on ?_ (List.Nodup.of_map _ ho.distinct)
  intro req hreq req' hreq' heq
  simp only [Function.comp_apply, jsonrpcId_blobOf, Option.some.injEq, Prod.mk.injEq,
    Blob.int32.injEq, true_and] at heq
  refine List.inj_on_of_nodup_map ho.distinct hreq hreq' ?_
  rw [← toInt_id ho hwf (Proxy.mem_sentRequests.mp hreq), heq,
    toInt_id ho hwf (Proxy.mem_sentRequests.mp hreq')]

theorem received_once
    (hat : JoinedAt (proxySide M accepts) (serverSide cfg w) h.established (Server.init n) es s)
    {m m' : ℕ} {blob blob' : List Attr} (hm : .received w m blob ∈ s.right.log)
    (hm' : .received w m' blob' ∈ s.right.log) (hid : jsonrpcId blob = jsonrpcId blob') :
    m = m' := by
  have hreplied := Server.replied_run hat.right
  obtain ⟨now, a, he⟩ := hreplied.received w m blob hm
  obtain ⟨now', a', he'⟩ := hreplied.received w m' blob' hm'
  exact eq_of_filterMap_key (inputs_nodup hat) he he' (if_pos rfl) (if_pos rfl) hid

theorem invokedFor_unique
    (hat : JoinedAt (proxySide M accepts) (serverSide cfg w) h.established (Server.init n) es s)
    {ureq m m' : ℕ} {k k' : Int} {sid sid' object object' method method' : CString}
    {args args' params params' : List Attr}
    (hm : InvokedFor M accepts h es w s ureq m k sid object method args params)
    (hm' : InvokedFor M accepts h es w s ureq m' k' sid' object' method' args' params') :
    m = m' := by
  have hdef := hm.forwarded.deferred_mem hat.left
  have hdef' := hm'.forwarded.deferred_mem hat.left
  have hk : k = k' := ((wellFormed_left hat).paired ureq k ureq k' hdef hdef').mpr rfl
  refine received_once hat hm.received hm'.received ?_
  rw [jsonrpcId_blobOf, jsonrpcId_blobOf]
  show some (CString.ofString "id", Blob.int32 (BitVec.ofInt 32 k)) =
    some (CString.ofString "id", Blob.int32 (BitVec.ofInt 32 k'))
  rw [hk]

theorem invokedFor_of_invoke
    (hat : JoinedAt (proxySide M accepts) (serverSide cfg w) h.established (Server.init n) es s)
    {m : ℕ} {sid object method : CString} {params blob : List Attr}
    (hinvoke : .invoke m sid object method params ∈ s.right.log)
    (hreceived : .received w m blob ∈ s.right.log) :
    (∃ args, (Proxy.Request.call 1 none object method args).IsLogin ∧
        .sent (.call 1 none object method args) ∈ s.left.log ∧ sid = ubusDefaultSid) ∨
      ∃ ureq k args, InvokedFor M accepts h es w s ureq m k sid object method args params := by
  have ho := Proxy.orderly_run hat.left
  have hinvoke' := hinvoke
  obtain ⟨w', a, A, r, ⟨blob', now, he, hA, -⟩, rfl, rfl, rfl, htagged⟩ :=
    Server.invokesAsked_run hat.right m sid object method params hinvoke
  obtain ⟨now', a', he'⟩ := (Server.replied_run hat.right).received w m blob hreceived
  rw [he] at he'
  cases he'
  obtain ⟨req, hreq, rfl⟩ := message_sent hat he
  obtain ⟨sid, j, hcall, hsid, hparams⟩ := eq_call_of_parseRequest hA
  have hcalled := hreq
  rw [hcall] at hcalled
  rcases ho.calls _ _ _ _ _ hcalled with ⟨hid, rfl, hobject, hmethod⟩ | ⟨ureq, args, hdef, rfl⟩
  · rw [hid] at hcalled
    exact .inl ⟨j, ⟨rfl, rfl, hobject, hmethod⟩, hcalled, hsid⟩
  · -- The call of a deferred request has a session and a table of arguments.
    obtain ⟨sid', object', method', args', heq, hforwarded⟩ :=
      eq_call_of_forwarded hat hreq rfl hdef
    rw [heq] at hcall hreceived
    have hsame := hcall
    rw [Proxy.Request.call.injEq] at hsame
    obtain ⟨-, rfl, rfl, rfl, hargs⟩ := hsame
    have hsid' : A.sid = sid' := hsid
    have hmembers : (Blob.table args').toJson.toBlob.members = A.paramsBuf := by
      rw [← hargs] at hparams
      exact Option.some.inj hparams
    refine .inr ⟨ureq, req.id, args', hinvoke, ?_, ?_, ?_⟩
    · rw [hsid']
      exact hforwarded
    · rw [hsid']
      exact hreceived
    · rw [hmembers, htagged.args, List.append_assoc]
      exact List.prefix_append _ _

end

/-! ### The results -/

section
variable {M : Proxy.Allocator} {accepts : CString → Bool} {cfg : Server.Config} {w : Server.Wsi}
  {h : Proxy.Handshake} {n : ℕ} {es : List (Proxy.Event ⊕ Server.Event)}
  {s : Joined Proxy.RemoteBus Server.State}

/-- In every run of a proxy and a server, a local request is completed at most
once, and as soon as the result for its call was delivered. It is completed
with the status and the data of the server's reply to that call, which is a
refusal, or what the bus behind the server returned and completed the
invocation of the same object and method with. -/
theorem completed_traced
    (hg : Guarded (joinedStep (proxySide M accepts) (serverSide cfg w))
      (Delivers (proxySide M accepts) (serverSide cfg w)) ⟨h.established, Server.init n, 0, 0⟩ es)
    (hrun : run (joinedStep (proxySide M accepts) (serverSide cfg w))
      ⟨h.established, Server.init n, 0, 0⟩ es = .ok s) :
    (Proxy.completions s.left.log).Nodup ∧ Delivered w s ∧
      ∀ ureq ∈ Proxy.completions s.left.log, ∃ k args A m rc data,
        CallTraced M accepts cfg h n es w s ureq k args A m rc data := by
  have hat := joined_run hg hrun
  exact ⟨(tracks_left hat).once, delivered_run hg hrun, fun _ => callTraced_of_completed hat⟩

/-- In every run of a proxy and a server, whatever the server invokes for a
message of the proxy is the login or a local call, with the same object and
method and the arguments of that call at the beginning; for one local request
there is at most one such message, and for a message at most one
invocation. -/
theorem invoked_traced
    (hg : Guarded (joinedStep (proxySide M accepts) (serverSide cfg w))
      (Delivers (proxySide M accepts) (serverSide cfg w)) ⟨h.established, Server.init n, 0, 0⟩ es)
    (hrun : run (joinedStep (proxySide M accepts) (serverSide cfg w))
      ⟨h.established, Server.init n, 0, 0⟩ es = .ok s) :
    (∀ m sid object method params blob, .invoke m sid object method params ∈ s.right.log →
      .received w m blob ∈ s.right.log →
      (∃ args, (Proxy.Request.call 1 none object method args).IsLogin ∧
        .sent (.call 1 none object method args) ∈ s.left.log ∧ sid = ubusDefaultSid) ∨
        ∃ ureq k args, InvokedFor M accepts h es w s ureq m k sid object method args params) ∧
      (∀ ureq m m' k k' sid sid' object object' method method' args args' params params',
        InvokedFor M accepts h es w s ureq m k sid object method args params →
        InvokedFor M accepts h es w s ureq m' k' sid' object' method' args' params' → m = m') ∧
      ∀ m, (s.right.log.filter (Server.invokes m)).length ≤ 1 := by
  have hat := joined_run hg hrun
  refine ⟨?_, ?_, (Server.tracks_of_run hat.right).invokes_length_le⟩
  · intro m sid object method params blob hinvoke hreceived
    exact invokedFor_of_invoke hat hinvoke hreceived
  · intro ureq m m' k k' sid sid' object object' method method' args args' params params' hm hm'
    exact invokedFor_unique hat hm hm'

end

/-! ### One call -/

/-- The next request of the proxy is delivered, with the answers of the
libraries to it. -/
def deliver (objects : List Server.UbusObjectData) :
    Turn Proxy.Event Server.Event Json (List Attr) :=
  .toRight fun blob => .message 0 blob ⟨0, 0⟩ ⟨Server.willing, fun _ => some [], 0, 0, objects⟩

def respond : Turn Proxy.Event Server.Event Json (List Attr) :=
  .toLeft fun msg => .receive (some msg)

/-- The proxy subscribes, lists one object and is asked to call its method,
which rpcd allows and the remote bus answers with data. -/
def oneCall : List (Turn Proxy.Event Server.Event Json (List Attr)) :=
  [.right (.established 0), deliver [], respond,
    deliver [⟨.ofString "system", some [(.ofString "info", .table [])]⟩], respond,
    .left Proxy.systemInfo, deliver [], .right (.checkData 0 3 [(.ofString "access", .int8 1)]),
    .right (.checkComplete 0 3 0 Server.willingInvoke),
    .right (.invokeData 0 3 (some (.table [(.ofString "uptime", .int32 7)]))),
    .right (.invokeComplete 0 3 0), respond]

def oneProxy : Side Proxy.RemoteBus Proxy.Event Proxy.Crash Json (List Attr) :=
  proxySide Proxy.bumpAllocator Proxy.acceptAll

def oneServer : Side Server.State Server.Event Server.Fault (List Attr) Json :=
  serverSide Server.plainConfig 0

def oneConnection : Joined Proxy.RemoteBus Server.State :=
  ⟨Proxy.Handshake.established ⟨false, none⟩, Server.init 512, 0, 0⟩

theorem oneCall_fair : ∀ turn ∈ oneCall, turn.Fair oneProxy oneServer := by
  simp only [oneCall, List.forall_mem_cons]
  exact ⟨rfl, fun _ => rfl, fun _ => rfl, fun _ => rfl, fun _ => rfl, rfl, fun _ => rfl, rfl, rfl,
    rfl, rfl, fun _ => rfl, by simp⟩

def dataSeen (log : List Proxy.Action) : List (CString × Int) :=
  log.flatMap fun
    | .reply _ data => data.map fun member => (member.1, member.2.getInt)
    | _ => []

theorem oneCall_run : ∃ es s, drive oneProxy oneServer oneConnection oneCall = some (es, s) ∧
    dataSeen s.left.log = [(.ofString "uptime", 7)] ∧
    Proxy.completions s.left.log = [0] ∧ (s.right.log.filter (Server.invokes 3)).length = 1 := by
  have hrun : ((drive oneProxy oneServer oneConnection oneCall).map fun p =>
      (dataSeen p.2.left.log, Proxy.completions p.2.left.log,
        (p.2.right.log.filter (Server.invokes 3)).length)) =
      some ([(.ofString "uptime", 7)], [0], 1) := by
    decide +kernel
  obtain ⟨⟨es, s⟩, hdrive, heq⟩ := Option.map_eq_some_iff.mp hrun
  rw [Prod.mk.injEq, Prod.mk.injEq] at heq
  exact ⟨es, s, hdrive, heq.1, heq.2.1, heq.2.2⟩

theorem completed_traced_oneCall :
    ∃ es s, Proxy.completions s.left.log = [0] ∧
      dataSeen s.left.log = [(.ofString "uptime", 7)] ∧
      Delivered 0 s ∧ ∀ ureq ∈ Proxy.completions s.left.log, ∃ k args A m rc data,
        CallTraced Proxy.bumpAllocator Proxy.acceptAll Server.plainConfig ⟨false, none⟩ 512 es 0 s
          ureq k args A m rc data := by
  obtain ⟨es, s, hdrive, hseen, hcompleted, -⟩ := oneCall_run
  obtain ⟨hg, hrun⟩ := drive_run oneCall_fair hdrive
  exact ⟨es, s, hcompleted, hseen, (completed_traced hg hrun).2⟩

theorem invoked_traced_oneCall :
    ∃ es s, (s.right.log.filter (Server.invokes 3)).length = 1 ∧
      (∀ m sid object method params blob, .invoke m sid object method params ∈ s.right.log →
        .received 0 m blob ∈ s.right.log →
        (∃ args, (Proxy.Request.call 1 none object method args).IsLogin ∧
          .sent (.call 1 none object method args) ∈ s.left.log ∧ sid = ubusDefaultSid) ∨
          ∃ ureq k args, InvokedFor Proxy.bumpAllocator Proxy.acceptAll ⟨false, none⟩ es 0 s ureq m
            k sid object method args params) ∧
      (∀ ureq m m' k k' sid sid' object object' method method' args args' params params',
        InvokedFor Proxy.bumpAllocator Proxy.acceptAll ⟨false, none⟩ es 0 s ureq m k sid object
          method args params →
        InvokedFor Proxy.bumpAllocator Proxy.acceptAll ⟨false, none⟩ es 0 s ureq m' k' sid' object'
          method' args' params' → m = m') ∧
      ∀ m, (s.right.log.filter (Server.invokes m)).length ≤ 1 := by
  obtain ⟨es, s, hdrive, -, -, honce⟩ := oneCall_run
  obtain ⟨hg, hrun⟩ := drive_run oneCall_fair hdrive
  exact ⟨es, s, honce, invoked_traced hg hrun⟩

end Owsd.System
