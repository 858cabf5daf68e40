import Mathlib.Data.List.Nodup
import Mathlib.Data.List.Perm.Subperm
import Owsd.Proxy.Routing

/-!
When replies release the slots of their calls.

A reply carries a result or an error. The proxy does not look at errors, so a
call that is answered with one keeps its slot. In runs without such replies
the used slots are the calls not replied to, and a call is refused only when
twenty of them are.
-/

namespace Owsd.Proxy

open Rpc

/-- The integer id of a reply, be it a result or an error. -/
def replyId (msg : Json) : Option Int :=
  match RemoteBus.msgId msg with
  | .int n =>
      if (msg.getEx (.ofString "result")).isSome ∨ (msg.getEx (.ofString "error")).isSome then
        some n
      else none
  | _ => none

theorem replyId_of_resultId {msg : Json} {n : Int} (h : resultId msg = some n) :
    replyId msg = some n := by
  obtain ⟨⟨result, hresult⟩, hid⟩ := resultId_eq_some.mp h
  simp [replyId, hid, hresult]

/-- When a call was refused, all slots were taken by calls not replied to. -/
def RefusedFull (past : List Action) (a : Action) : Prop :=
  ∀ ureq status, a = .refused ureq status → maxProxiedCalls ≤ (awaiting replyId past).length

/-- Replies release their calls. -/
structure Released (r : RemoteBus) : Prop where
  /-- The used slots are the calls for which no reply has arrived. -/
  slots : ∀ n ureq, (n, ureq) ∈ awaiting replyId r.log ↔
    ∃ i, r.used i = true ∧ r.calls i = ⟨n, ureq⟩
  /-- The requests of the others were completed with a status. -/
  completed : ∀ n ureq, .deferred ureq n ∈ r.log → (n, ureq) ∉ awaiting replyId r.log →
    ∃ status, .completed ureq status ∈ r.log
  refused : Each RefusedFull r.log

/-- A reply to an outstanding call is a result that can be given to it. -/
def Releasable (r : RemoteBus) (e : Event) : Prop :=
  Answerable r e ∧ ∀ msg n, e = .receive (some msg) → replyId msg = some n →
    resultId msg = none → r.findCall n = none

section
variable {r r' : RemoteBus}

/-- With all slots in use, that many calls await their replies. -/
theorem full_awaiting (hw : WellFormed r) (h : Tracks r)
    (hfull : ∀ i < maxProxiedCalls, r.used i = true) :
    maxProxiedCalls ≤ (awaiting resultId r.log).length := by
  let held := (List.range maxProxiedCalls).map fun i => ((r.calls i).jsonrpcId, (r.calls i).ureq)
  have hnodup : held.Nodup := by
    refine List.Nodup.map_on (fun i hi j hj heq => ?_) List.nodup_range
    rw [List.mem_range] at hi hj
    exact hw.distinct i j (hfull i hi) (hfull j hj) (Prod.mk.inj heq).1
  have hsub : held ⊆ awaiting resultId r.log := by
    intro p hp
    obtain ⟨i, hi, rfl⟩ := List.mem_map.mp hp
    exact (h.slots _ _).mpr ⟨i, hfull i (List.mem_range.mp hi), rfl⟩
  have hlen : held.length = maxProxiedCalls := by simp [held]
  rw [← hlen]
  exact (List.subperm_of_subset hnodup hsub).length_le

theorem mem_completions {log : List Action} {ureq : ℕ} :
    ureq ∈ completions log ↔ ∃ status, .completed ureq status ∈ log := by
  rw [completions, List.mem_filterMap]
  constructor
  · rintro ⟨a, ha, heq⟩
    cases a with
    | completed u status =>
        cases heq
        exact ⟨status, ha⟩
    | _ => cases heq
  · rintro ⟨status, hmem⟩
    exact ⟨_, hmem, rfl⟩

/-- Errors close nothing that is outstanding. -/
def ErrorsIdle (r : RemoteBus) : Prop := awaiting replyId r.log = awaiting resultId r.log

theorem errorsIdle_step {M : Allocator} {accepts : CString → Bool} {e : Event}
    (hw : WellFormed r) (ht : Tracks r) (h : ErrorsIdle r) (hg : Releasable r e)
    (hstep : step M accepts r e = .ok r') : ErrorsIdle r' := by
  rw [ErrorsIdle] at h ⊢
  cases step_effect hstep with
  | ignored e he => exact h
  | refused object method args hid hfull => exact h
  | deferred object method args idx mask req hid hstub hfree hmask =>
      show (r.callId + 1, r.ureqs) :: awaiting replyId r.log =
        (r.callId + 1, r.ureqs) :: awaiting resultId r.log
      rw [h]
  | message msg r' hb hnot =>
      obtain ⟨acts, hlog, hacts⟩ := hb.log
      have hresult : ∀ n, resultId msg = some n → ∀ p ∈ awaiting resultId r.log, p.1 ≠ n :=
        fun n => not_awaiting hw ht hnot
      have hreply : ∀ n, replyId msg = some n → ∀ p ∈ awaiting replyId r.log, p.1 ≠ n := by
        rw [h]
        intro n hn
        cases hid : resultId msg with
        | some m =>
            have hm : m = n := Option.some.inj ((replyId_of_resultId hid).symm.trans hn)
            exact hresult n (hm ▸ hid)
        | none =>
            -- An error: its id is in no slot.
            rintro ⟨m, ureq⟩ hp rfl
            obtain ⟨i, hi, hcall⟩ := (ht.slots m ureq).mp hp
            have hne := RemoteBus.findCall_eq_none (hg.2 msg m rfl hn hid) hi
            rw [hcall] at hne
            exact hne rfl
      rw [hlog, awaiting_append fun a ha => background_quiet (hacts a ha) replyId,
        awaiting_append fun a ha => background_quiet (hacts a ha) resultId]
      exact (outstanding_closes_none rfl hreply).trans
        (h.trans (outstanding_closes_none rfl hresult).symm)
  | answered msg result n idx mask hresult hid hfind hmask =>
      have hn : resultId msg = some n := resultId_eq_some.mpr ⟨⟨result, hresult⟩, hid⟩
      have hlog : ((r.setMask mask).emit (RemoteBus.answer (r.calls idx).ureq result ++
          [.received msg])).log =
            RemoteBus.answer (r.calls idx).ureq result ++ (.received msg :: r.log) := by
        simp [RemoteBus.emit, RemoteBus.setMask]
      rw [hlog, awaiting_answered (replyId_of_resultId hn), awaiting_answered hn, h]

theorem refusedFull_step {M : Allocator} {accepts : CString → Bool} {e : Event}
    (hw : WellFormed r) (ht : Tracks r) (hi : ErrorsIdle r) (h : Each RefusedFull r.log)
    (hstep : step M accepts r e = .ok r') : Each RefusedFull r'.log := by
  have hother : ∀ {acts : List Action}, (∀ a ∈ acts, ∀ u s, a ≠ .refused u s) →
      Each RefusedFull (acts ++ r.log) :=
    fun hacts => h.append _ fun a ha _ u s heq => absurd heq (hacts a ha u s)
  cases step_effect hstep with
  | ignored e he => exact h
  | refused object method args hid hfull =>
      refine ⟨fun _ _ _ => ?_, h⟩
      show maxProxiedCalls ≤ (awaiting replyId r.log).length
      rw [hi]
      exact full_awaiting hw ht hfull
  | deferred object method args idx mask req hid hstub hfree hmask => exact hother (by simp)
  | message msg r' hb hnot =>
      obtain ⟨acts, hlog, hacts⟩ := hb.entries
      rw [hlog]
      refine hother fun a ha u s heq => ?_
      rcases List.mem_append.mp ha with ha | ha
      · simpa [heq, Action.background] using hacts a ha
      · simp [heq] at ha
  | answered msg result n idx mask hresult hid hfind hmask =>
      refine hother fun a ha u s heq => ?_
      rcases List.mem_append.mp ha with ha | ha
      · simpa [heq, Action.isAnswer] using isAnswer_of_mem_answer a ha
      · simp [heq] at ha

theorem refusedFull_established (h : Handshake) : Each RefusedFull h.established.log := by
  obtain ⟨-, -, -, -, hlog⟩ := established_fresh h
  rw [← List.append_nil h.established.log]
  refine Each.append (show Each RefusedFull [] from trivial) _ fun a ha _ u s heq => ?_
  simpa [heq, Action.background] using hlog a ha

/-- In every run in which each reply to an outstanding call is a result that
can be given to it, replies release their calls. -/
theorem released_run {M : Allocator} {accepts : CString → Bool} {h : Handshake} {es : List Event}
    (hg : Guarded (step M accepts) Releasable h.established es)
    (hrun : run (step M accepts) h.established es = .ok r) : Released r := by
  have hinv := run_invariant
    (fun r => WellFormed r ∧ Tracks r ∧ ErrorsIdle r ∧ Each RefusedFull r.log)
    (fun r e r' hi hg hstep => ⟨wellFormed_step hi.1 hstep, tracks_step hi.1 hi.2.1 hg.1 hstep,
      errorsIdle_step hi.1 hi.2.1 hi.2.2.1 hg hstep,
      refusedFull_step hi.1 hi.2.1 hi.2.2.1 hi.2.2.2 hstep⟩)
    ⟨wellFormed_established h, tracks_established h,
      (awaiting_established h replyId).trans (awaiting_established h resultId).symm,
      refusedFull_established h⟩ hg hrun
  obtain ⟨hw, ht, hidle, hrefused⟩ := hinv
  refine ⟨fun n ureq => ?_, fun n ureq hsent hnot => ?_, hrefused⟩
  · rw [hidle]
    exact ht.slots n ureq
  · rw [hidle, ht.completed n ureq hsent, not_not] at hnot
    exact mem_completions.mp hnot

end

theorem releasable_resultMsg {n : Int} {result : Json} (hn : (Json.int n).getInt = n)
    (hstatus : hasStatus result = true) (r : RemoteBus) :
    Releasable r (.receive (some (resultMsg n result))) := by
  refine ⟨answerable_resultMsg hn hstatus r, fun msg m heq _ hnone => ?_⟩
  cases heq
  cases hnone

theorem releasable_call (object method : CString) (args : List Attr) (r : RemoteBus) :
    Releasable r (.call object method args) :=
  ⟨trivial, fun _ _ heq => by cases heq⟩

theorem released_run_out_of_order :
    ∃ r, run (step bumpAllocator acceptAll) (Handshake.established ⟨false, none⟩) outOfOrder =
      .ok r ∧ awaiting replyId r.log = [] ∧ Released r := by
  have hg : ∀ e ∈ outOfOrder, ∀ r, Releasable r e := by
    simp only [outOfOrder, oneObject, List.cons_append, List.nil_append, List.forall_mem_cons]
    exact ⟨releasable_resultMsg rfl rfl, releasable_resultMsg rfl rfl, releasable_call _ _ _,
      releasable_call _ _ _, releasable_resultMsg rfl rfl, releasable_resultMsg rfl rfl,
      releasable_resultMsg rfl rfl, by simp⟩
  obtain ⟨r, hrun, hawaiting⟩ : ∃ r, run (step bumpAllocator acceptAll)
      (Handshake.established ⟨false, none⟩) outOfOrder = .ok r ∧ awaiting replyId r.log = [] :=
    ⟨_, rfl, rfl⟩
  exact ⟨r, hrun, hawaiting, released_run (guarded_of_forall hg _) hrun⟩

def errorMsg (n : Int) (code : JsonrpcErrorCode) : Json :=
  .object [(.ofString "jsonrpc", .string (.ofString "2.0")), (.ofString "id", .int n),
    (.ofString "error", .object [(.ofString "code", .int code.code),
      (.ofString "message", .string code.message)])]

/-- A call is answered with an error: it is not completed and keeps its
slot. -/
theorem error_keeps_slot :
    ∃ r, run (step bumpAllocator acceptAll) (Handshake.established ⟨false, none⟩)
        (oneObject ++ [systemInfo, .receive (some (errorMsg 3 .other))]) = .ok r ∧
      r.used 0 = true ∧ r.calls 0 = ⟨3, 0⟩ ∧ awaiting replyId r.log = [] ∧
      completions r.log = [] ∧ ¬ Released r := by
  refine ⟨_, rfl, rfl, rfl, rfl, rfl, fun h => ?_⟩
  exact absurd ((h.slots 3 0).mpr ⟨0, rfl, rfl⟩) (List.not_mem_nil)

end Owsd.Proxy
