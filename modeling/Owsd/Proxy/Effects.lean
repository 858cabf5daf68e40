import Owsd.Proxy.Slots

/-!
What a step of a remote connection can do.

A callback refuses or defers a local request, or answers the one whose reply
came in, or does something in the background: the handshake, the list of
objects and the events, none of which touches the slots.
-/

namespace Owsd.Proxy

open BitMask Rpc

namespace RemoteBus

def inHandshake (r : RemoteBus) : Prop := r.waitingFor.login = true ∨ r.waitingFor.listen = true

end RemoteBus

/-- A local request is deferred in the slot, under the next id. -/
def RemoteBus.defer (r : RemoteBus) (idx : ℕ) (mask : BitVec maxProxiedCalls) : RemoteBus :=
  { r.setMask mask with
    callId := r.callId + 1
    ureqs := r.ureqs + 1
    calls := Function.update r.calls idx ⟨r.callId + 1, r.ureqs⟩ }

/-! ### Entries of the log -/

/-- An entry of the log that is about no local request and no message of the
remote. -/
def Action.background : Action → Bool
  | .sent _ => true
  | .event _ _ => true
  | _ => false

def Action.isAnswer : Action → Bool
  | .reply _ _ => true
  | .completed _ _ => true
  | _ => false

/-- A call was sent, with its id and the local request that waits. -/
def Action.opens : Action → Option (Int × ℕ)
  | .deferred ureq n => some (n, ureq)
  | _ => none

def Action.closes (reply : Json → Option Int) : Action → Option Int
  | .received msg => reply msg
  | _ => none

theorem isAnswer_of_mem_answer {ureq : ℕ} {result : Json} :
    ∀ a ∈ RemoteBus.answer ureq result, a.isAnswer = true := by
  have hdata : ∀ a ∈ RemoteBus.answerData ureq result, a.isAnswer = true := by
    rw [RemoteBus.answerData]
    split <;> simp [Action.isAnswer]
  cases result with
  | array elems =>
      rw [RemoteBus.answer]
      split
      · intro a ha
        rcases List.mem_cons.mp ha with rfl | ha
        · rfl
        · exact hdata a ha
      · exact hdata
  | _ => simp [RemoteBus.answer, Action.isAnswer]

theorem isAnswer_quiet {a : Action} (h : a.isAnswer = true) (reply : Json → Option Int) :
    a.opens = none ∧ a.closes reply = none := by
  cases a <;> first | exact ⟨rfl, rfl⟩ | cases h

theorem background_quiet {a : Action} (h : a.background = true) (reply : Json → Option Int) :
    a.opens = none ∧ a.closes reply = none := by
  cases a <;> first | exact ⟨rfl, rfl⟩ | cases h

theorem isAnswer_background {a : Action} (h : a.background = true) : a.isAnswer = false := by
  cases a <;> first | rfl | cases h

/-! ### Background work -/

/-- Nothing but background work happened: at most one request was sent, the
slots are as they were, and no stub appeared during the handshake. -/
structure Background (r r' : RemoteBus) : Prop where
  calls : r'.calls = r.calls
  mask : r'.waitingFor.call = r.waitingFor.call
  ureqs : r'.ureqs = r.ureqs
  log : ∃ acts, r'.log = acts ++ r.log ∧ ∀ a ∈ acts, a.background = true
  callId : r'.callId = r.callId ∨ r'.callId = r.callId + 1 ∧ r'.callId ≤ 2147483647
  listId : r'.waitingFor.listId = 0 ∨ r'.waitingFor.listId = r.waitingFor.listId ∨
    r'.waitingFor.listId = r'.callId ∧ r'.callId = r.callId + 1
  handshake : r'.inHandshake → r.inHandshake ∧
    ∀ stub ∈ r'.stubs.registered, stub ∈ r.stubs.registered

section
variable {r r' : RemoteBus}

theorem Background.entries {msg : Json} (hb : Background (r.emit [.received msg]) r') :
    ∃ acts, r'.log = acts ++ [.received msg] ++ r.log ∧ ∀ a ∈ acts, a.background = true := by
  obtain ⟨acts, hlog, hacts⟩ := hb.log
  refine ⟨acts, ?_, hacts⟩
  rw [hlog, List.append_assoc]
  rfl

theorem nextId_ok (h : r.nextId = .ok r') :
    r.callId < 2147483647 ∧ r' = { r with callId := r.callId + 1 } := by
  rw [RemoteBus.nextId] at h
  split at h
  · next hlt =>
    cases h
    exact ⟨hlt, rfl⟩
  · cases h

theorem Background.refl (r : RemoteBus) : Background r r where
  calls := rfl
  mask := rfl
  ureqs := rfl
  log := ⟨[], rfl, by simp⟩
  callId := .inl rfl
  listId := .inr (.inl rfl)
  handshake := fun h => ⟨h, fun _ hs => hs⟩

theorem background_sendList (h : r.sendList = .ok r') : Background r r' := by
  obtain ⟨r₁, hnext, hr'⟩ := bind_ok h
  obtain ⟨hlt, rfl⟩ := nextId_ok hnext
  cases hr'
  refine ⟨rfl, rfl, rfl, ⟨_, rfl, by simp [Action.background]⟩, .inr ⟨rfl, ?_⟩,
    .inr (.inr ⟨rfl, rfl⟩), fun hh => ⟨hh, fun _ hs => hs⟩⟩
  exact Int.add_one_le_of_lt hlt

theorem background_onLogin {result : Json} (hlogin : r.waitingFor.login = true)
    (h : r.onLogin result = .ok r') : Background r r' := by
  rw [RemoteBus.onLogin] at h
  split at h
  · cases h
    exact .refl r
  · split at h
    · obtain ⟨r₁, hnext, hr'⟩ := bind_ok h
      obtain ⟨hlt, rfl⟩ := nextId_ok hnext
      cases hr'
      refine ⟨rfl, rfl, rfl, ⟨_, rfl, by simp [Action.background]⟩, .inr ⟨rfl, ?_⟩,
        .inr (.inl rfl), fun _ => ⟨.inl hlogin, fun _ hs => hs⟩⟩
      exact Int.add_one_le_of_lt hlt
    · cases h
      exact .refl r

theorem background_onListen {result : Json} (hlisten : r.waitingFor.listen = true)
    (h : r.onListen result = .ok r') : Background r r' := by
  rw [RemoteBus.onListen] at h
  split at h
  · have hb := background_sendList h
    exact { hb with handshake := fun hh => ⟨.inr hlisten, (hb.handshake hh).2⟩ }
  · cases h
    exact .refl r

theorem background_onList {M : Allocator} {accepts : CString → Bool} {result : Json}
    (hdone : ¬ r.inHandshake) (h : r.onList M accepts result = .ok r') : Background r r' := by
  rw [RemoteBus.onList] at h
  split at h
  · cases h
    exact .refl r
  · split at h
    · obtain ⟨stubs, -, hr'⟩ := bind_ok h
      cases hr'
      exact ⟨rfl, rfl, rfl, ⟨[], rfl, by simp⟩, .inl rfl, .inl rfl, fun hh => absurd hh hdone⟩
    · cases h
      exact .refl r

theorem background_replay (type : CString) (data : Json) : Background r (r.replay type data) := by
  unfold RemoteBus.replay
  split <;> exact ⟨rfl, rfl, rfl, ⟨_, rfl, by simp [Action.background]⟩, .inl rfl, .inr (.inl rfl),
    fun h => ⟨h, fun _ hs => hs⟩⟩

theorem background_destroy (stub : LocalStub) :
    Background r { r with stubs := r.stubs.wsuLocalStubDestroy stub } where
  calls := rfl
  mask := rfl
  ureqs := rfl
  log := ⟨[], rfl, by simp⟩
  callId := .inl rfl
  listId := .inr (.inl rfl)
  handshake := by
    refine fun h => ⟨h, fun s hs => ?_⟩
    rcases List.mem_append.mp hs with hs | hs
    · exact List.mem_append_left _ (List.mem_of_mem_filter hs)
    · exact List.mem_append_right _ hs

theorem background_onEvent {type : CString} {data : Json} (h : r.onEvent type data = .ok r') :
    Background r r' := by
  rw [RemoteBus.onEvent] at h
  split at h
  · split at h
    · exact background_sendList h
    · cases h
      exact background_replay type _
  · split at h
    · split at h
      · split at h
        · cases h
          exact background_destroy _
        · cases h
          exact .refl r
      · cases h
        exact background_replay type _
    · cases h
      exact background_replay type data

theorem background_onMethod {msg method : Json} (h : r.onMethod msg method = .ok r') :
    Background r r' := by
  cases method with
  | null => cases h
  | string method =>
      simp only [RemoteBus.onMethod] at h
      split at h
      · cases h
        exact .refl r
      · split at h
        · split at h
          · exact background_onEvent h
          · cases h
            exact .refl r
        · cases h
          exact .refl r
  | _ =>
      cases h
      exact .refl r

/-! ### Replies to calls -/

/-- The integer id of a message with a result. -/
def resultId (msg : Json) : Option Int :=
  match msg.getEx (.ofString "result"), RemoteBus.msgId msg with
  | some _, .int n => some n
  | _, _ => none

theorem resultId_eq_some {msg : Json} {n : Int} :
    resultId msg = some n ↔
      (∃ result, msg.getEx (.ofString "result") = some result) ∧ RemoteBus.msgId msg = .int n := by
  rw [resultId]
  split
  · next result m hresult hid => simp [hresult, hid]
  · next hnot =>
    constructor
    · intro h
      cases h
    · rintro ⟨⟨result, hresult⟩, hid⟩
      exact absurd hid (hnot result n hresult)

def NotAnswering (r : RemoteBus) (msg : Json) : Prop :=
  ∀ n, resultId msg = some n → r.inHandshake ∨ r.isListReply (.int n) = true ∨
    (Json.int n).getInt = 0 ∨ r.findCall (Json.int n).getInt = none

inductive Effect (r : RemoteBus) : Event → RemoteBus → Prop
  | ignored (e : Event) (he : ∀ msg, e ≠ .receive (some msg)) : Effect r e r
  | refused (object method : CString) (args : List Attr) (hid : r.callId < 2147483647)
      (hfull : ∀ i < maxProxiedCalls, r.used i = true) :
      Effect r (.call object method args)
        ({ r with callId := r.callId + 1, ureqs := r.ureqs + 1 }.emit
          [.refused r.ureqs ubusStatusNotSupported])
  | deferred (object method : CString) (args : List Attr) (idx : ℕ)
      (mask : BitVec maxProxiedCalls) (req : Request) (hid : r.callId < 2147483647)
      (hstub : r.stubs.registered ≠ []) (hfree : r.used idx = false)
      (hmask : ∀ i, (r.setMask mask).used i = true ↔ i = idx ∨ r.used i = true) :
      Effect r (.call object method args)
        ((r.defer idx mask).emit [.sent req, .deferred r.ureqs (r.callId + 1)])
  | message (msg : Json) (r' : RemoteBus) (hb : Background (r.emit [.received msg]) r')
      (hnot : NotAnswering r msg) : Effect r (.receive (some msg)) r'
  | answered (msg result : Json) (n : Int) (idx : ℕ) (mask : BitVec maxProxiedCalls)
      (hresult : msg.getEx (.ofString "result") = some result)
      (hid : RemoteBus.msgId msg = .int n) (hfind : r.findCall (Json.int n).getInt = some idx)
      (hmask : ∀ i, (r.setMask mask).used i = true ↔ i ≠ idx ∧ r.used i = true) :
      Effect r (.receive (some msg))
        ((r.setMask mask).emit
          (RemoteBus.answer (r.calls idx).ureq result ++ [.received msg]))

theorem handleCall_effect {object method : CString} {args : List Attr}
    (hstub : r.stubs.registered ≠ []) (h : r.wsuLocalStubHandleCall object method args = .ok r') :
    Effect r (.call object method args) r' := by
  obtain ⟨r₁, hnext, hr'⟩ := bind_ok h
  obtain ⟨hid, rfl⟩ := nextId_ok hnext
  simp only at hr'
  split at hr'
  · next hnone =>
    cases hr'
    refine .refused object method args hid fun i hi => ?_
    have hused := RemoteBus.wsuProxiedCallNew_eq_none hnone hi
    exact hused
  · next idx r₂ hsome =>
    obtain ⟨hfree, mask, rfl, hmask⟩ := RemoteBus.wsuProxiedCallNew_eq_some hsome
    cases hr'
    exact .deferred object method args idx mask _ hid hstub hfree hmask

theorem onCallReply_effect {msg result : Json}
    (hresult : msg.getEx (.ofString "result") = some result) :
    Effect r (.receive (some msg))
      ((r.emit [.received msg]).onCallReply (RemoteBus.msgId msg) result) := by
  have hquiet : NotAnswering r msg → Effect r (.receive (some msg)) (r.emit [.received msg]) :=
    fun hnot => .message msg _ (.refl _) hnot
  rw [RemoteBus.onCallReply]
  split
  · next hint =>
    refine hquiet fun n hn => ?_
    rw [(resultId_eq_some.mp hn).2] at hint
    cases hint
  · next hint =>
    obtain ⟨n, hid⟩ : ∃ n, RemoteBus.msgId msg = .int n := by
      cases hid : RemoteBus.msgId msg <;> simp_all [Json.isInt]
    have hn : ∀ m, resultId msg = some m → m = n := by
      intro m hm
      simpa [hid, eq_comm] using (resultId_eq_some.mp hm).2
    rw [hid]
    split
    · next hzero =>
      refine hquiet fun m hm => ?_
      rw [hn m hm]
      exact .inr (.inr (.inl hzero))
    · split
      · next hnone =>
        refine hquiet fun m hm => ?_
        rw [hn m hm]
        exact .inr (.inr (.inr hnone))
      · next idx hsome =>
        -- Answering the request and releasing the slot commute.
        let r₁ := (r.emit [.received msg]).emit (RemoteBus.answer (r.calls idx).ureq result)
        obtain ⟨mask, hfree, hmask⟩ := RemoteBus.wsuProxiedCallFree_eq
          (show r₁.used idx = true from (RemoteBus.findCall_eq_some hsome).1)
        have hr₁ : r₁.setMask mask = (r.setMask mask).emit
            (RemoteBus.answer (r.calls idx).ureq result ++ [.received msg]) := by
          simp [r₁, RemoteBus.emit, RemoteBus.setMask]
        show Effect r (.receive (some msg)) (r₁.wsuProxiedCallFree idx)
        rw [hfree, hr₁]
        exact .answered msg result n idx mask hresult hid hsome hmask

theorem onResult_effect {M : Allocator} {accepts : CString → Bool} {msg result : Json}
    (hresult : msg.getEx (.ofString "result") = some result)
    (h : (r.emit [.received msg]).onResult M accepts (RemoteBus.msgId msg) result = .ok r') :
    Effect r (.receive (some msg)) r' := by
  rw [RemoteBus.onResult] at h
  split at h
  · next hlogin =>
    exact .message msg r' (background_onLogin hlogin h) fun _ _ => .inl (.inl hlogin)
  · next hlogin =>
    split at h
    · next hlisten =>
      exact .message msg r' (background_onListen hlisten h) fun _ _ => .inl (.inr hlisten)
    · next hlisten =>
      split at h
      · next hlist =>
        refine .message msg r' (background_onList (not_or.mpr ⟨hlogin, hlisten⟩) h) fun n hn => ?_
        rw [(resultId_eq_some.mp hn).2] at hlist
        exact .inr (.inl hlist)
      · split at h
        · cases h
          exact onCallReply_effect hresult
        · next hmask =>
          cases h
          refine .message msg _ (.refl _) fun n _ => .inr (.inr (.inr ?_))
          cases hfind : r.findCall (Json.int n).getInt with
          | none => rfl
          | some idx =>
              have hused := (RemoteBus.findCall_eq_some hfind).1
              have hempty : r.waitingFor.call = BitVec.zero maxProxiedCalls := not_not.mp hmask
              rw [RemoteBus.used_eq_false_of_mask hempty] at hused
              cases hused

theorem step_effect {M : Allocator} {accepts : CString → Bool} {e : Event}
    (h : step M accepts r e = .ok r') : Effect r e r' := by
  cases e with
  | call object method args =>
      rw [step] at h
      split at h
      · next hstub =>
        refine handleCall_effect (fun hnil => ?_) h
        simp [hnil] at hstub
      · cases h
        exact .ignored _ (by simp)
  | receive msg =>
      cases msg with
      | none =>
          cases h
          exact .ignored _ (by simp)
      | some msg =>
          rw [step, RemoteBus.onReceive] at h
          cases hresult : msg.getEx (.ofString "result") with
          | some result =>
              rw [hresult] at h
              exact onResult_effect hresult h
          | none =>
              have hnot : NotAnswering r msg := by
                intro n hn
                obtain ⟨⟨result, hsome⟩, -⟩ := resultId_eq_some.mp hn
                rw [hresult] at hsome
                cases hsome
              rw [hresult] at h
              simp only at h
              split at h
              · exact .message msg r' (background_onMethod h) hnot
              · cases h
                exact .message msg _ (.refl _) hnot

end

end Owsd.Proxy
