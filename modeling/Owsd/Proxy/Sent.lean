import Owsd.Proxy.Routing
import Owsd.Rpc.Request

/-!
What the proxy sends.

Each request goes out under an id of its own, and ids only rise. A call is
sent when a local request is deferred, under the same id, and there is no
other call but the login.
-/

namespace Owsd.Proxy

open Rpc

namespace Request

def id : Request → Int
  | .call id _ _ _ _ => id
  | .listen id _ _ => id
  | .list id _ _ => id

/-- The text that is sent, up to the printing. -/
def message : Request → Option Json
  | .call id sid object method args =>
      jsonrpcReqUbuscall (BitVec.ofInt 32 id) sid object method (some args)
  | .listen id sid pattern => jsonrpcReqUbuslisten (BitVec.ofInt 32 id) (some sid) pattern
  | .list id sid pattern => jsonrpcReqUbuslist (BitVec.ofInt 32 id) (some sid) pattern

end Request

def Action.request : Action → Option Request
  | .sent req => some req
  | _ => none

def sentRequests (log : List Action) : List Request := log.reverse.filterMap Action.request

theorem mem_sentRequests {log : List Action} {req : Request} :
    req ∈ sentRequests log ↔ .sent req ∈ log := by
  rw [sentRequests, List.mem_filterMap]
  constructor
  · rintro ⟨a, ha, hreq⟩
    cases a with
    | sent req' =>
        cases hreq
        exact List.mem_reverse.mp ha
    | _ => cases hreq
  · exact fun h => ⟨.sent req, List.mem_reverse.mpr h, rfl⟩

theorem sentRequests_append (acts log : List Action) :
    sentRequests (acts ++ log) = sentRequests log ++ sentRequests acts := by
  rw [sentRequests, List.reverse_append, List.filterMap_append, ← sentRequests, ← sentRequests]

def Action.silent (a : Action) : Prop := a.request = none ∧ a.opens = none

theorem sentRequests_silent {acts : List Action} (h : ∀ a ∈ acts, a.silent) :
    sentRequests acts = [] := by
  rw [sentRequests, List.filterMap_eq_nil_iff]
  exact fun a ha => (h a (List.mem_reverse.mp ha)).1

theorem mem_deferred_silent {acts log : List Action} (h : ∀ a ∈ acts, a.silent) {ureq : ℕ}
    {n : Int} : .deferred ureq n ∈ acts ++ log ↔ .deferred ureq n ∈ log :=
  mem_deferred_append fun a ha => (h a ha).2

/-! ### One step -/

/-- What a callback sends: nothing, a request of the proxy's own, or the call
that a local request waits for. -/
inductive Outgoing (r : RemoteBus) (e : Event) (r' : RemoteBus) : Prop
  | silent (acts : List Action) : r'.log = acts ++ r.log → (∀ a ∈ acts, a.silent) →
      r.callId ≤ r'.callId → Outgoing r e r'
  | asked (acts : List Action) (req : Request) : r'.log = .sent req :: (acts ++ r.log) →
      (∀ a ∈ acts, a.silent) →
      (∀ id sid object method args, req ≠ .call id sid object method args) →
      req.id = r.callId + 1 → r'.callId = r.callId + 1 → Outgoing r e r'
  | called (object method : CString) (args : List Attr) :
      e = .call object method args →
      r'.log = .sent (.call (r.callId + 1) (some r.sid) object method (Blob.table args).toJson) ::
        .deferred r.ureqs (r.callId + 1) :: r.log →
      r'.callId = r.callId + 1 → Outgoing r e r'

section
variable {r r' : RemoteBus}

/-- Work in which nothing is sent, or one request that is no call. -/
def Errand (r r' : RemoteBus) : Prop :=
  (∃ acts, r'.log = acts ++ r.log ∧ (∀ a ∈ acts, a.silent) ∧ r'.callId = r.callId) ∨
    ∃ req, r'.log = .sent req :: r.log ∧
      (∀ id sid object method args, req ≠ .call id sid object method args) ∧
      req.id = r.callId + 1 ∧ r'.callId = r.callId + 1

theorem Errand.refl (r : RemoteBus) : Errand r r := .inl ⟨[], rfl, by simp, rfl⟩

theorem errand_sendList (h : r.sendList = .ok r') : Errand r r' := by
  obtain ⟨r₁, hnext, hr'⟩ := bind_ok h
  obtain ⟨-, rfl⟩ := nextId_ok hnext
  cases hr'
  exact .inr ⟨_, rfl, by simp, rfl, rfl⟩

theorem errand_onLogin {result : Json} (h : r.onLogin result = .ok r') : Errand r r' := by
  rw [RemoteBus.onLogin] at h
  split at h
  · cases h
    exact .refl r
  · split at h
    · obtain ⟨r₁, hnext, hr'⟩ := bind_ok h
      obtain ⟨-, rfl⟩ := nextId_ok hnext
      cases hr'
      exact .inr ⟨_, rfl, by simp, rfl, rfl⟩
    · cases h
      exact .refl r

theorem errand_onListen {result : Json} (h : r.onListen result = .ok r') : Errand r r' := by
  rw [RemoteBus.onListen] at h
  split at h
  · have he := errand_sendList h
    exact he
  · cases h
    exact .refl r

theorem errand_onList {M : Allocator} {accepts : CString → Bool} {result : Json}
    (h : r.onList M accepts result = .ok r') : Errand r r' := by
  rw [RemoteBus.onList] at h
  split at h
  · cases h
    exact .refl r
  · split at h
    · obtain ⟨stubs, -, hr'⟩ := bind_ok h
      cases hr'
      exact .inl ⟨[], rfl, by simp, rfl⟩
    · cases h
      exact .refl r

theorem silent_of_isAnswer {a : Action} (h : a.isAnswer = true) : a.silent := by
  cases a <;> first | exact ⟨rfl, rfl⟩ | cases h

theorem errand_onCallReply (id result : Json) : Errand r (r.onCallReply id result) := by
  rw [RemoteBus.onCallReply]
  split
  · exact .refl r
  · split
    · exact .refl r
    · split
      · exact .refl r
      · next idx hfind =>
        refine .inl ⟨RemoteBus.answer (r.calls idx).ureq result, ?_, fun a ha => ?_, ?_⟩
        · rw [RemoteBus.wsuProxiedCallFree]
          split <;> rfl
        · exact silent_of_isAnswer (isAnswer_of_mem_answer a ha)
        · rw [RemoteBus.wsuProxiedCallFree]
          split <;> rfl

theorem errand_onResult {M : Allocator} {accepts : CString → Bool} {id result : Json}
    (h : r.onResult M accepts id result = .ok r') : Errand r r' := by
  rw [RemoteBus.onResult] at h
  split at h
  · exact errand_onLogin h
  · split at h
    · exact errand_onListen h
    · split at h
      · exact errand_onList h
      · split at h
        · cases h
          exact errand_onCallReply id result
        · cases h
          exact .refl r

theorem errand_replay (type : CString) (data : Json) : Errand r (r.replay type data) := by
  unfold RemoteBus.replay
  split <;> exact .inl ⟨_, rfl, by simp [Action.silent, Action.request, Action.opens], rfl⟩

theorem errand_onEvent {type : CString} {data : Json} (h : r.onEvent type data = .ok r') :
    Errand r r' := by
  rw [RemoteBus.onEvent] at h
  split at h
  · split at h
    · exact errand_sendList h
    · cases h
      exact errand_replay type _
  · split at h
    · split at h
      · split at h
        · cases h
          exact .inl ⟨[], rfl, by simp, rfl⟩
        · cases h
          exact .refl r
      · cases h
        exact errand_replay type _
    · cases h
      exact errand_replay type data

theorem errand_onMethod {msg method : Json} (h : r.onMethod msg method = .ok r') :
    Errand r r' := by
  cases method with
  | null => cases h
  | string method =>
      simp only [RemoteBus.onMethod] at h
      split at h
      · cases h
        exact .refl r
      · split at h
        · split at h
          · exact errand_onEvent h
          · cases h
            exact .refl r
        · cases h
          exact .refl r
  | _ =>
      cases h
      exact .refl r

theorem Errand.outgoing {msg : Json} {e : Event} (h : Errand (r.emit [.received msg]) r') :
    Outgoing r e r' := by
  have hsilent : (Action.received msg).silent := ⟨rfl, rfl⟩
  rcases h with ⟨acts, hlog, hacts, hid⟩ | ⟨req, hlog, hcall, hreq, hid⟩
  · refine .silent (acts ++ [.received msg]) ?_ ?_ hid.ge
    · rw [hlog, List.append_assoc]
      rfl
    · exact List.forall_mem_append.mpr ⟨hacts, List.forall_mem_singleton.mpr hsilent⟩
  · exact .asked [.received msg] req hlog (List.forall_mem_singleton.mpr hsilent) hcall hreq hid

theorem outgoing_step {M : Allocator} {accepts : CString → Bool} {e : Event}
    (h : step M accepts r e = .ok r') : Outgoing r e r' := by
  cases e with
  | call object method args =>
      rw [step] at h
      split at h
      · obtain ⟨r₁, hnext, hr'⟩ := bind_ok h
        obtain ⟨-, rfl⟩ := nextId_ok hnext
        simp only at hr'
        split at hr'
        · cases hr'
          refine .silent [.refused r.ureqs ubusStatusNotSupported] rfl ?_ ?_
          · exact List.forall_mem_singleton.mpr ⟨rfl, rfl⟩
          · exact Int.le_of_lt (Int.lt_succ r.callId)
        · next idx r₂ hsome =>
          obtain ⟨-, mask, rfl, -⟩ := RemoteBus.wsuProxiedCallNew_eq_some hsome
          cases hr'
          exact .called object method args rfl rfl rfl
      · cases h
        exact .silent [] rfl (by simp) le_rfl
  | receive msg =>
      cases msg with
      | none =>
          cases h
          exact .silent [] rfl (by simp) le_rfl
      | some msg =>
          rw [step, RemoteBus.onReceive] at h
          split at h
          · exact (errand_onResult h).outgoing
          · split at h
            · exact (errand_onMethod h).outgoing
            · cases h
              exact (Errand.refl _).outgoing

theorem Outgoing.keeps {e : Event} {a : Action} (h : Outgoing r e r') (hmem : a ∈ r.log) :
    a ∈ r'.log := by
  cases h with
  | silent acts hlog =>
      rw [hlog]
      exact List.mem_append_right _ hmem
  | asked acts req hlog =>
      rw [hlog]
      exact .tail _ (List.mem_append_right _ hmem)
  | called object method args _ hlog =>
      rw [hlog]
      exact .tail _ (.tail _ hmem)

/-! ### Whole runs -/

def Request.IsLogin : Request → Prop
  | .call id sid object method _ =>
      id = 1 ∧ sid = none ∧ object = .ofString "session" ∧ method = .ofString "login"
  | _ => False

/-- The ids of the requests rise, and calls belong to local requests. -/
structure Orderly (r : RemoteBus) : Prop where
  callId : 0 ≤ r.callId
  ids : ∀ req, .sent req ∈ r.log → 0 < req.id ∧ req.id ≤ r.callId
  distinct : ((sentRequests r.log).map Request.id).Nodup
  deferred : ∀ ureq n, .deferred ureq n ∈ r.log → ∃ sid object method args,
    .sent (.call n (some sid) object method (Blob.table args).toJson) ∈ r.log
  calls : ∀ n sid object method j, .sent (.call n sid object method j) ∈ r.log →
    (Request.call n sid object method j).IsLogin ∨ ∃ ureq args, .deferred ureq n ∈ r.log ∧
      j = (Blob.table args).toJson

theorem Orderly.keep {acts : List Action} (h : Orderly r) (hlog : r'.log = acts ++ r.log)
    (hacts : ∀ a ∈ acts, a.silent) (hid : r.callId ≤ r'.callId) : Orderly r' := by
  have hsent : ∀ req, .sent req ∈ r'.log ↔ .sent req ∈ r.log := by
    intro req
    rw [← mem_sentRequests, hlog, sentRequests_append, sentRequests_silent hacts,
      List.append_nil, mem_sentRequests]
  constructor
  case callId => exact h.callId.trans hid
  case ids =>
    intro req hreq
    obtain ⟨hpos, hle⟩ := h.ids req ((hsent req).mp hreq)
    exact ⟨hpos, hle.trans hid⟩
  case distinct =>
    rw [hlog, sentRequests_append, sentRequests_silent hacts, List.append_nil]
    exact h.distinct
  case deferred =>
    intro ureq n hmem
    rw [hlog, mem_deferred_silent hacts] at hmem
    obtain ⟨sid, object, method, args, hmem⟩ := h.deferred ureq n hmem
    exact ⟨sid, object, method, args, (hsent _).mpr hmem⟩
  case calls =>
    intro n sid object method j hmem
    refine (h.calls n sid object method j ((hsent _).mp hmem)).imp_right ?_
    rintro ⟨ureq, args, hmem, hj⟩
    exact ⟨ureq, args, by rw [hlog, mem_deferred_silent hacts]; exact hmem, hj⟩

theorem Orderly.nodup_concat {req : Request} (h : Orderly r) (hreq : req.id = r.callId + 1) :
    ((sentRequests r.log ++ [req]).map Request.id).Nodup := by
  rw [List.map_append, List.nodup_append]
  refine ⟨h.distinct, by simp, ?_⟩
  rintro _ hid _ hid' rfl
  obtain ⟨old, hold, rfl⟩ := List.mem_map.mp hid
  have hle := (h.ids old (mem_sentRequests.mp hold)).2
  have heq : old.id = req.id := by simpa using hid'
  omega

theorem orderly_step {M : Allocator} {accepts : CString → Bool} {e : Event} (h : Orderly r)
    (hstep : step M accepts r e = .ok r') : Orderly r' := by
  have hpos := h.callId
  cases outgoing_step hstep with
  | silent acts hlog hacts hid => exact h.keep hlog hacts hid
  | asked acts req hlog hacts hcall hreq hid =>
      -- The entries before the request are out of the way first.
      have hkeep : Orderly (r.emit acts) := h.keep rfl hacts le_rfl
      have hlog' : r'.log = .sent req :: (r.emit acts).log := hlog
      constructor
      case callId => omega
      case ids =>
        intro req' hmem
        rw [hlog', List.mem_cons, Action.sent.injEq] at hmem
        rcases hmem with rfl | hmem
        · omega
        · obtain ⟨hpos', hle⟩ := hkeep.ids req' hmem
          have hle' : req'.id ≤ r.callId := hle
          omega
      case distinct =>
        have hnew : sentRequests [.sent req] = [req] := rfl
        rw [hlog', ← List.singleton_append, sentRequests_append, hnew]
        exact hkeep.nodup_concat hreq
      case deferred =>
        intro ureq n hmem
        rw [hlog', List.mem_cons] at hmem
        obtain ⟨sid, object, method, args, hmem⟩ :=
          hkeep.deferred ureq n (hmem.resolve_left (by simp))
        exact ⟨sid, object, method, args, by rw [hlog']; exact .tail _ hmem⟩
      case calls =>
        intro n sid object method j hmem
        rw [hlog', List.mem_cons, Action.sent.injEq] at hmem
        have hold := hmem.resolve_left fun heq => hcall n sid object method j heq.symm
        refine (hkeep.calls n sid object method j hold).imp_right ?_
        rintro ⟨ureq, args, hmem, hj⟩
        exact ⟨ureq, args, by rw [hlog']; exact .tail _ hmem, hj⟩
  | called object method args _ hlog hid =>
      constructor
      case callId => omega
      case ids =>
        intro req hmem
        rw [hlog, List.mem_cons, List.mem_cons, Action.sent.injEq] at hmem
        rcases hmem with rfl | hmem | hmem
        · show 0 < r.callId + 1 ∧ r.callId + 1 ≤ r'.callId
          omega
        · cases hmem
        · obtain ⟨hpos', hle⟩ := h.ids req hmem
          omega
      case distinct =>
        have hnew : sentRequests [.sent (.call (r.callId + 1) (some r.sid) object method
            (Blob.table args).toJson), .deferred r.ureqs (r.callId + 1)] =
            [.call (r.callId + 1) (some r.sid) object method (Blob.table args).toJson] := rfl
        have hlog' : r'.log = [.sent (.call (r.callId + 1) (some r.sid) object method
            (Blob.table args).toJson), .deferred r.ureqs (r.callId + 1)] ++ r.log := hlog
        rw [hlog', sentRequests_append, hnew]
        exact h.nodup_concat rfl
      case deferred =>
        intro ureq n hmem
        rw [hlog, List.mem_cons, List.mem_cons, Action.deferred.injEq] at hmem
        rcases hmem with hmem | ⟨-, rfl⟩ | hmem
        · cases hmem
        · exact ⟨r.sid, object, method, args, by rw [hlog]; exact .head _⟩
        · obtain ⟨sid, object, method, args, hmem⟩ := h.deferred ureq n hmem
          exact ⟨sid, object, method, args, by rw [hlog]; exact .tail _ (.tail _ hmem)⟩
      case calls =>
        intro n sid object' method' j hmem
        rw [hlog, List.mem_cons, List.mem_cons, Action.sent.injEq, Request.call.injEq] at hmem
        rcases hmem with ⟨rfl, -, -, -, rfl⟩ | hmem | hmem
        · exact .inr ⟨r.ureqs, args, by rw [hlog]; exact .tail _ (.head _), rfl⟩
        · cases hmem
        · refine (h.calls n sid object' method' j hmem).imp_right ?_
          rintro ⟨ureq, args, hmem, hj⟩
          exact ⟨ureq, args, by rw [hlog]; exact .tail _ (.tail _ hmem), hj⟩

theorem orderly_established (h : Handshake) : Orderly h.established := by
  rw [Handshake.established]
  split
  · split
    · constructor
      case callId => exact le_rfl
      all_goals simp [RemoteBus.connected, sentRequests]
    · constructor
      case callId => exact Int.one_nonneg
      case calls =>
        intro n sid object method j hmem
        left
        cases List.mem_singleton.mp hmem
        exact ⟨rfl, rfl, rfl, rfl⟩
      all_goals simp [RemoteBus.connected, RemoteBus.emit, sentRequests, Action.request, Request.id]
  · constructor
    case callId => exact Int.one_nonneg
    all_goals simp [RemoteBus.connected, RemoteBus.emit, sentRequests, Action.request, Request.id]

theorem orderly_run {M : Allocator} {accepts : CString → Bool} {h : Handshake} {es : List Event}
    (hrun : run (step M accepts) h.established es = .ok r) : Orderly r :=
  run_invariant_of_step Orderly (fun _ _ _ hi hstep => orderly_step hi hstep)
    (orderly_established h) hrun

/-! ### Local calls -/

/-- A request is deferred at its call, which is sent on at once. -/
theorem deferred_step {M : Allocator} {accepts : CString → Bool} {e : Event} {ureq : ℕ} {k : Int}
    (h : step M accepts r e = .ok r') (hmem : .deferred ureq k ∈ r'.log)
    (hold : .deferred ureq k ∉ r.log) :
    ∃ object method args, e = .call object method args ∧ k = r.callId + 1 ∧
      .sent (.call k (some r.sid) object method (Blob.table args).toJson) ∈ r'.log := by
  cases outgoing_step h with
  | silent acts hlog hacts =>
      rw [hlog, mem_deferred_silent hacts] at hmem
      exact absurd hmem hold
  | asked acts req hlog hacts =>
      rw [hlog, List.mem_cons, mem_deferred_silent hacts] at hmem
      exact absurd (hmem.resolve_left (by simp)) hold
  | called object method args he hlog =>
      rw [hlog, List.mem_cons, List.mem_cons, Action.deferred.injEq] at hmem
      obtain ⟨-, rfl⟩ := (hmem.resolve_left (by simp)).resolve_right hold
      refine ⟨object, method, args, he, rfl, ?_⟩
      rw [hlog]
      exact .head _

/-- The local call of the events is deferred as the request `ureq`, and sent
on under the id `k`. -/
def Forwarded (M : Allocator) (accepts : CString → Bool) (h : Handshake) (es : List Event)
    (ureq : ℕ) (k : Int) (sid object method : CString) (args : List Attr) : Prop :=
  ∃ past rest, es = past ++ .call object method args :: rest ∧
    Adds (step M accepts) RemoteBus.log h.established past (.call object method args)
      (.deferred ureq k) ∧
    Adds (step M accepts) RemoteBus.log h.established past (.call object method args)
      (.sent (.call k (some sid) object method (Blob.table args).toJson))

theorem mem_of_adds {M : Allocator} {accepts : CString → Bool} {h : Handshake}
    {past rest : List Event} {e : Event} {a : Action}
    (hadds : Adds (step M accepts) RemoteBus.log h.established past e a)
    (hrun : run (step M accepts) h.established (past ++ e :: rest) = .ok r) : a ∈ r.log := by
  obtain ⟨t, t', hpast, hstep, -, hmem⟩ := hadds
  rw [run_append hpast, run_cons hstep] at hrun
  refine run_invariant_of_step (fun r => a ∈ r.log) (fun r e r' hmem hstep => ?_) hmem hrun
  exact (outgoing_step hstep).keeps hmem

theorem Forwarded.sent_mem {M : Allocator} {accepts : CString → Bool} {h : Handshake}
    {es : List Event} {ureq : ℕ} {k : Int} {sid object method : CString} {args : List Attr}
    (hf : Forwarded M accepts h es ureq k sid object method args)
    (hrun : run (step M accepts) h.established es = .ok r) :
    .sent (.call k (some sid) object method (Blob.table args).toJson) ∈ r.log := by
  obtain ⟨past, rest, rfl, -, hadds⟩ := hf
  exact mem_of_adds hadds hrun

theorem Forwarded.deferred_mem {M : Allocator} {accepts : CString → Bool} {h : Handshake}
    {es : List Event} {ureq : ℕ} {k : Int} {sid object method : CString} {args : List Attr}
    (hf : Forwarded M accepts h es ureq k sid object method args)
    (hrun : run (step M accepts) h.established es = .ok r) : .deferred ureq k ∈ r.log := by
  obtain ⟨past, rest, rfl, hadds, -⟩ := hf
  exact mem_of_adds hadds hrun

theorem forwarded_of_deferred {M : Allocator} {accepts : CString → Bool} {h : Handshake}
    {es : List Event} {ureq : ℕ} {k : Int} (hrun : run (step M accepts) h.established es = .ok r)
    (hmem : .deferred ureq k ∈ r.log) :
    ∃ sid object method args, Forwarded M accepts h es ureq k sid object method args := by
  have hfresh : .deferred ureq k ∉ h.established.log := by
    intro hback
    have hback := (established_fresh h).2.2.2.2 _ hback
    cases hback
  obtain ⟨past, e, rest, hes, t, t', hpast, hstep, hold, hnew⟩ := adds_of_mem hfresh hrun hmem
  obtain ⟨object, method, args, rfl, hk, hsent⟩ := deferred_step hstep hnew hold
  refine ⟨t.sid, object, method, args, past, rest, hes, ⟨t, t', hpast, hstep, hold, hnew⟩,
    t, t', hpast, hstep, ?_, hsent⟩
  -- The id is new, and so is the request.
  intro hback
  have hle : k ≤ t.callId := ((orderly_run hpast).ids _ hback).2
  omega

end

end Owsd.Proxy
