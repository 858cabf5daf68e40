import Owsd.Proxy.Remote

/-!
The slots of proxied calls.

The mask `waiting_for.call` says which slots are in use. A new call gets a
slot that was free, releasing a slot releases no other, and the search over
the mask finds an id in a used slot if there is one.
-/

namespace Owsd.Proxy

open BitMask

namespace RemoteBus

def used (r : RemoteBus) (i : ℕ) : Bool := r.waitingFor.call.getLsbD i

def setMask (r : RemoteBus) (mask : BitVec maxProxiedCalls) : RemoteBus :=
  { r with waitingFor := { r.waitingFor with call := mask } }

variable {r r' : RemoteBus} {i idx : ℕ}

theorem used_lt (h : r.used i = true) : i < maxProxiedCalls := BitVec.lt_of_getLsbD h

theorem used_eq_false_of_mask (h : r.waitingFor.call = BitVec.zero maxProxiedCalls) :
    r.used i = false := by
  simp [used, h]

theorem callMask_getLsbD : r.callMask.getLsbD i = r.used i := by
  rw [callMask, BitVec.getLsbD_setWidth, used]
  cases h : r.waitingFor.call.getLsbD i with
  | false => simp
  | true =>
      have hlt : i < 20 := BitVec.lt_of_getLsbD h
      have hlt' : i < 32 := by omega
      simp [hlt']

theorem maxProxiedCalls_lt : maxProxiedCalls < 32 := by decide

theorem slotBit_getLsbD (h : idx < maxProxiedCalls) :
    (1#32 <<< idx).getLsbD i = true ↔ i = idx := by
  have hmax := maxProxiedCalls_lt
  rw [BitVec.getLsbD_shiftLeft]
  rcases Nat.lt_trichotomy i idx with hlt | rfl | hlt
  · simp [hlt, hlt.ne]
  · have hi : i < 32 := by omega
    simp [hi]
  · have hsub : i - idx ≠ 0 := by omega
    simp [hsub, hlt.ne']

theorem setMask_used {mask : BitVec 32} :
    (r.setMask (mask.setWidth maxProxiedCalls)).used i = true ↔
      i < maxProxiedCalls ∧ mask.getLsbD i = true := by
  rw [used, setMask, BitVec.getLsbD_setWidth, Bool.and_eq_true, decide_eq_true_iff]

theorem wsuProxiedCallNew_eq_some (h : r.wsuProxiedCallNew = some (idx, r')) :
    r.used idx = false ∧ ∃ mask, r' = r.setMask mask ∧
      ∀ i, (r.setMask mask).used i = true ↔ i = idx ∨ r.used i = true := by
  rw [wsuProxiedCallNew] at h
  split at h
  · cases h
  · next hfree =>
    rw [not_or, not_lt] at hfree
    obtain ⟨k, hk⟩ := Nat.exists_eq_succ_of_ne_zero hfree.1
    rw [Option.some.injEq, Prod.mk.injEq, hk, Nat.succ_sub_one] at h
    obtain ⟨rfl, rfl⟩ := h
    have hlt : k < maxProxiedCalls := by omega
    have hbit := (ffs_eq_succ_iff.mp hk).1
    rw [BitVec.getLsbD_not, callMask_getLsbD] at hbit
    refine ⟨by simpa using (Bool.and_eq_true_iff.mp hbit).2, _, rfl, fun i => ?_⟩
    rw [setMask_used, BitVec.getLsbD_or, callMask_getLsbD, Bool.or_eq_true, slotBit_getLsbD hlt]
    constructor
    · exact fun hi => hi.2.symm
    · rintro (rfl | hi)
      · exact ⟨hlt, .inr rfl⟩
      · exact ⟨used_lt hi, .inl hi⟩

theorem wsuProxiedCallNew_eq_none (h : r.wsuProxiedCallNew = none) (hi : i < maxProxiedCalls) :
    r.used i = true := by
  have hmax := maxProxiedCalls_lt
  rw [wsuProxiedCallNew] at h
  split at h
  · next hfull =>
    by_contra hnot
    have hbit : (~~~r.callMask).getLsbD i = true := by
      have hi' : i < 32 := by omega
      rw [BitVec.getLsbD_not, callMask_getLsbD]
      simpa [hi'] using hnot
    rcases hfull with hzero | hgt
    · rw [ffs_eq_zero_iff.mp hzero i (by omega)] at hbit
      cases hbit
    · obtain ⟨k, hk⟩ := Nat.exists_eq_succ_of_ne_zero (Nat.ne_of_gt (Nat.zero_lt_of_lt hgt))
      rw [(ffs_eq_succ_iff.mp hk).2 i (by omega)] at hbit
      cases hbit
  · cases h

theorem wsuProxiedCallFree_eq (h : r.used idx = true) :
    ∃ mask, r.wsuProxiedCallFree idx = r.setMask mask ∧
      ∀ i, (r.setMask mask).used i = true ↔ i ≠ idx ∧ r.used i = true := by
  have hlt := used_lt h
  refine ⟨_, by rw [wsuProxiedCallFree, if_pos hlt]; rfl, fun i => ?_⟩
  rw [setMask_used, BitVec.getLsbD_and, BitVec.getLsbD_not, callMask_getLsbD, Bool.and_eq_true,
    Bool.and_eq_true, Bool.not_eq_true', ← Bool.not_eq_true, slotBit_getLsbD hlt]
  constructor
  · exact fun hi => ⟨hi.2.2.2, hi.2.1⟩
  · intro hi
    have hmax := maxProxiedCalls_lt
    have hlti := used_lt hi.2
    exact ⟨hlti, hi.2, by simp; omega, hi.1⟩

theorem mem_foreach_callMask : i ∈ foreach 32 r.callMask ↔ r.used i = true := by
  rw [mem_foreach, callMask_getLsbD]

theorem findCall_eq_some {id : Int} (h : r.findCall id = some idx) :
    r.used idx = true ∧ (r.calls idx).jsonrpcId = id := by
  refine ⟨mem_foreach_callMask.mp (List.mem_of_find?_eq_some h), ?_⟩
  simpa using List.find?_some h

theorem findCall_eq_none {id : Int} (h : r.findCall id = none) (hi : r.used i = true) :
    (r.calls i).jsonrpcId ≠ id := by
  simpa using List.find?_eq_none.mp h i (mem_foreach_callMask.mpr hi)

end RemoteBus

end Owsd.Proxy
