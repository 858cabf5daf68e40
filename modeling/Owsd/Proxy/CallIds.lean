import Owsd.Proxy.Effects

/-!
The ids of proxied calls.

The slots hold requests that were deferred, each under an id of its own that
no other request of the proxy has, and none is in use before the handshake is
over. This needs nothing of the remote.
-/

namespace Owsd.Proxy

open Rpc

/-- What holds whatever the remote sends. -/
structure WellFormed (r : RemoteBus) : Prop where
  callId : 0 ≤ r.callId ∧ r.callId ≤ 2147483647
  listId : r.waitingFor.listId ≤ r.callId
  handshake : r.inHandshake → r.stubs.registered = [] ∧ ∀ i, r.used i = false
  /-- Ids of calls are ids given out, and none of a `list` awaited. -/
  sent : ∀ ureq n, .deferred ureq n ∈ r.log → 0 < n ∧ n ≤ r.callId ∧ ureq < r.ureqs ∧
    (r.waitingFor.listId = 0 ∨ n ≠ r.waitingFor.listId)
  /-- A request and its id determine each other. -/
  paired : ∀ ureq n ureq' n', .deferred ureq n ∈ r.log → .deferred ureq' n' ∈ r.log →
    (n = n' ↔ ureq = ureq')
  slots : ∀ i, r.used i = true → .deferred (r.calls i).ureq (r.calls i).jsonrpcId ∈ r.log
  distinct : ∀ i j, r.used i = true → r.used j = true →
    (r.calls i).jsonrpcId = (r.calls j).jsonrpcId → i = j

theorem established_fresh (h : Handshake) :
    h.established.waitingFor.call = BitVec.zero maxProxiedCalls ∧ h.established.stubs = .empty ∧
      h.established.waitingFor.listId = 0 ∧
      (h.established.callId = 0 ∨ h.established.callId = 1) ∧
      ∀ a ∈ h.established.log, a.background = true := by
  rw [Handshake.established]
  split
  · split
    · exact ⟨rfl, rfl, rfl, .inl rfl, by simp [RemoteBus.connected]⟩
    · exact ⟨rfl, rfl, rfl, .inr rfl,
        by simp [RemoteBus.connected, RemoteBus.emit, Action.background]⟩
  · exact ⟨rfl, rfl, rfl, .inr rfl,
      by simp [RemoteBus.connected, RemoteBus.emit, Action.background]⟩

theorem wellFormed_established (h : Handshake) : WellFormed h.established := by
  obtain ⟨hmask, hstubs, hlist, hid, hlog⟩ := established_fresh h
  have hused : ∀ i, h.established.used i = false := fun i => RemoteBus.used_eq_false_of_mask hmask
  have hnone : ∀ ureq n, .deferred ureq n ∉ h.established.log := fun _ _ hmem => by
    simpa [Action.background] using hlog _ hmem
  refine ⟨by omega, by omega, fun _ => ⟨by rw [hstubs]; rfl, hused⟩,
    fun _ _ hmem => absurd hmem (hnone _ _), fun _ _ _ _ hmem => absurd hmem (hnone _ _),
    fun i hi => ?_, fun i _ hi => ?_⟩
  · simp [hused i] at hi
  · simp [hused i] at hi

section
variable {r r' : RemoteBus}

theorem mem_deferred_append {acts log : List Action} (h : ∀ a ∈ acts, a.opens = none)
    {ureq : ℕ} {n : Int} : .deferred ureq n ∈ acts ++ log ↔ .deferred ureq n ∈ log := by
  rw [List.mem_append]
  refine or_iff_right fun hmem => ?_
  cases h _ hmem

theorem opens_message {acts : List Action} {msg : Json} (h : ∀ a ∈ acts, a.background = true) :
    ∀ a ∈ acts ++ [.received msg], a.opens = none := by
  refine List.forall_mem_append.mpr ⟨fun a ha => ?_, List.forall_mem_singleton.mpr rfl⟩
  exact (background_quiet (h a ha) resultId).1

theorem opens_answer {ureq : ℕ} {result msg : Json} :
    ∀ a ∈ RemoteBus.answer ureq result ++ [.received msg], a.opens = none := by
  refine List.forall_mem_append.mpr ⟨fun a ha => ?_, List.forall_mem_singleton.mpr rfl⟩
  exact (isAnswer_quiet (isAnswer_of_mem_answer a ha) resultId).1

theorem WellFormed.keep {acts : List Action} (h : WellFormed r)
    (hlog : r'.log = acts ++ r.log) (hopens : ∀ a ∈ acts, a.opens = none)
    (hid : r.callId ≤ r'.callId ∧ r'.callId ≤ 2147483647)
    (hlist : r'.waitingFor.listId = 0 ∨ r'.waitingFor.listId = r.waitingFor.listId ∨
      r'.waitingFor.listId = r'.callId ∧ r.callId < r'.callId)
    (hhand : r'.inHandshake → r.inHandshake ∧
      ∀ stub ∈ r'.stubs.registered, stub ∈ r.stubs.registered)
    (hureqs : r.ureqs ≤ r'.ureqs) (hcalls : r'.calls = r.calls)
    (hused : ∀ i, r'.used i = true → r.used i = true) : WellFormed r' where
  callId := ⟨h.callId.1.trans hid.1, hid.2⟩
  listId := by
    have := h.listId
    have := h.callId
    omega
  handshake := by
    intro hh
    obtain ⟨hbefore, hstubs⟩ := hhand hh
    obtain ⟨hempty, hnone⟩ := h.handshake hbefore
    refine ⟨List.eq_nil_iff_forall_not_mem.mpr fun stub hs => ?_, fun i => ?_⟩
    · have hmem := hstubs stub hs
      simp [hempty] at hmem
    · rw [← Bool.not_eq_true]
      intro hi
      simpa [hnone i] using hused i hi
  sent := by
    intro ureq n hmem
    rw [hlog, mem_deferred_append hopens] at hmem
    obtain ⟨hpos, hle, hlt, hne⟩ := h.sent ureq n hmem
    refine ⟨hpos, hle.trans hid.1, hlt.trans_le hureqs, ?_⟩
    rcases hlist with hzero | hsame | ⟨hnew, hgt⟩
    · exact .inl hzero
    · rw [hsame]
      exact hne
    · exact .inr (by omega)
  paired := by
    intro ureq n ureq' n' hmem hmem'
    rw [hlog, mem_deferred_append hopens] at hmem hmem'
    exact h.paired ureq n ureq' n' hmem hmem'
  slots := by
    intro i hi
    rw [hcalls, hlog, mem_deferred_append hopens]
    exact h.slots i (hused i hi)
  distinct := by
    intro i j hi hj
    rw [hcalls]
    exact h.distinct i j (hused i hi) (hused j hj)

/-- The slots after a request was deferred: the one it got, and the old ones
as they were. -/
theorem defer_slot {i idx : ℕ} {mask : BitVec maxProxiedCalls} (hfree : r.used idx = false)
    (hmask : ∀ i, (r.setMask mask).used i = true ↔ i = idx ∨ r.used i = true)
    (hi : (r.setMask mask).used i = true) :
    i = idx ∧ (r.defer idx mask).calls i = ⟨r.callId + 1, r.ureqs⟩ ∨
      r.used i = true ∧ (r.defer idx mask).calls i = r.calls i := by
  rcases (hmask i).mp hi with rfl | hi
  · exact .inl ⟨rfl, Function.update_self ..⟩
  · have hne : i ≠ idx := by
      rintro rfl
      simp [hfree] at hi
    exact .inr ⟨hi, Function.update_of_ne hne ..⟩

/-- All requests deferred before have smaller numbers and smaller ids. -/
theorem WellFormed.older (h : WellFormed r) {req : Request} {ureq : ℕ} {n : Int}
    (hmem : .deferred ureq n ∈ [.sent req, .deferred r.ureqs (r.callId + 1)] ++ r.log) :
    ureq = r.ureqs ∧ n = r.callId + 1 ∨
      .deferred ureq n ∈ r.log ∧ ureq < r.ureqs ∧ n < r.callId + 1 := by
  rcases List.mem_append.mp hmem with hmem | hmem
  · exact .inl (by simpa using hmem)
  · obtain ⟨-, hle, hlt, -⟩ := h.sent ureq n hmem
    exact .inr ⟨hmem, hlt, by omega⟩

theorem WellFormed.defer {idx : ℕ} {mask : BitVec maxProxiedCalls} {req : Request}
    (h : WellFormed r) (hid : r.callId < 2147483647) (hstub : r.stubs.registered ≠ [])
    (hfree : r.used idx = false)
    (hmask : ∀ i, (r.setMask mask).used i = true ↔ i = idx ∨ r.used i = true) :
    WellFormed ((r.defer idx mask).emit [.sent req, .deferred r.ureqs (r.callId + 1)]) := by
  have holder : ∀ i, r.used i = true → (r.calls i).jsonrpcId < r.callId + 1 := by
    intro i hi
    have := (h.sent _ _ (h.slots i hi)).2.1
    omega
  constructor
  case callId => exact ⟨Int.add_nonneg h.callId.1 Int.one_nonneg, Int.add_one_le_of_lt hid⟩
  case listId => exact h.listId.trans (Int.le_of_lt (Int.lt_succ r.callId))
  case handshake => exact fun hh => absurd (h.handshake hh).1 hstub
  case sent =>
    intro ureq n hm
    show 0 < n ∧ n ≤ r.callId + 1 ∧ ureq < r.ureqs + 1 ∧
      (r.waitingFor.listId = 0 ∨ n ≠ r.waitingFor.listId)
    have hlist := h.listId
    have hpos := h.callId.1
    rcases h.older hm with ⟨rfl, rfl⟩ | ⟨hm, hlt, hlt'⟩
    · exact ⟨by omega, le_rfl, Nat.lt_succ_self _, .inr (by omega)⟩
    · obtain ⟨hpos', -, -, hne⟩ := h.sent ureq n hm
      exact ⟨hpos', by omega, by omega, hne⟩
  case paired =>
    intro ureq n ureq' n' hm hm'
    rcases h.older hm with ⟨rfl, rfl⟩ | ⟨hm, hlt, hlt'⟩
    · rcases h.older hm' with ⟨rfl, rfl⟩ | ⟨hm', hlt, hlt'⟩
      · simp
      · constructor <;> omega
    · rcases h.older hm' with ⟨rfl, rfl⟩ | ⟨hm', -, -⟩
      · constructor <;> omega
      · exact h.paired ureq n ureq' n' hm hm'
  case slots =>
    intro i hi
    show Action.deferred ((r.defer idx mask).calls i).ureq
      ((r.defer idx mask).calls i).jsonrpcId ∈ _ ++ r.log
    rcases defer_slot hfree hmask hi with ⟨-, heq⟩ | ⟨hold, heq⟩
    · rw [heq]
      simp
    · rw [heq]
      exact List.mem_append_right _ (h.slots i hold)
  case distinct =>
    intro i j hi hj hsame
    change ((r.defer idx mask).calls i).jsonrpcId = ((r.defer idx mask).calls j).jsonrpcId at hsame
    rcases defer_slot hfree hmask hi with ⟨hidx, heq⟩ | ⟨hold, heq⟩
    · rcases defer_slot hfree hmask hj with ⟨hidx', heq'⟩ | ⟨hold', heq'⟩
      · rw [hidx, hidx']
      · rw [heq, heq'] at hsame
        exact absurd hsame (holder j hold').ne'
    · rcases defer_slot hfree hmask hj with ⟨hidx', heq'⟩ | ⟨hold', heq'⟩
      · rw [heq, heq'] at hsame
        exact absurd hsame (holder i hold).ne
      · rw [heq, heq'] at hsame
        exact h.distinct i j hold hold' hsame

/-- Whatever the remote sends, the state stays well-formed. -/
theorem wellFormed_step {M : Allocator} {accepts : CString → Bool} {e : Event}
    (h : WellFormed r) (hstep : step M accepts r e = .ok r') : WellFormed r' := by
  cases step_effect hstep with
  | ignored e he => exact h
  | refused object method args hid hfull =>
      exact h.keep rfl (List.forall_mem_singleton.mpr rfl)
        ⟨Int.le_of_lt (Int.lt_succ r.callId), Int.add_one_le_of_lt hid⟩ (.inr (.inl rfl))
        (fun hh => ⟨hh, fun _ hs => hs⟩) (Nat.le_succ _) rfl fun _ hi => hi
  | deferred object method args idx mask req hid hstub hfree hmask =>
      exact h.defer hid hstub hfree hmask
  | message msg r' hb hnot =>
      obtain ⟨acts, hlog, hacts⟩ := hb.entries
      refine h.keep hlog (opens_message hacts) ?_ ?_ hb.handshake hb.ureqs.ge hb.calls
        fun i hi => ?_
      · have hid := hb.callId
        have hle := h.callId.2
        simp only [RemoteBus.emit] at hid
        omega
      · rcases hb.listId with hzero | hsame | ⟨hnew, hid⟩
        · exact .inl hzero
        · exact .inr (.inl hsame)
        · exact .inr (.inr ⟨hnew, by rw [hid]; exact Int.lt_succ r.callId⟩)
      · rw [RemoteBus.used, hb.mask] at hi
        exact hi
  | answered msg result n idx mask hresult hid hfind hmask =>
      exact h.keep rfl opens_answer ⟨le_rfl, h.callId.2⟩ (.inr (.inl rfl))
        (fun hh => ⟨hh, fun _ hs => hs⟩) le_rfl rfl fun i hi => ((hmask i).mp hi).2

end

end Owsd.Proxy
