import Mathlib.Data.Fintype.Card
import Mathlib.Data.Finset.Card
import Mathlib.Tactic.Common

/-!
Tables of slots.

A table has `n` slots, each free or owned by an object; beside it every
object remembers the slot it was given. `SlotsOwned` says that the two agree on a
set of objects that are live. It is kept when a live object is given a slot
that was free and when a slot is freed together with the end of its owner;
as long as fewer than `n` objects are live, a free slot is found.
-/

namespace Owsd

variable {n : ℕ} {α : Type*}

def firstFree (owner : Fin n → Option α) : Option (Fin n) :=
  (List.finRange n).find? fun i => (owner i).isNone

/-- Each live object owns the slot it remembers, and a slot with an owner is
remembered by it and its owner is live. -/
structure SlotsOwned (owner : Fin n → Option α) (data : α → Option (Fin n)) (live : Finset α) :
    Prop where
  place : ∀ x ∈ live, ∃ i, data x = some i ∧ owner i = some x
  only : ∀ i x, owner i = some x → x ∈ live ∧ data x = some i

theorem firstFree_eq_none {owner : Fin n → Option α} {i : Fin n} (h : firstFree owner = some i) :
    owner i = none := by
  have hfound := List.find?_some h
  simpa using hfound

theorem firstFree_isSome {owner : Fin n → Option α} {i : Fin n} (h : owner i = none) :
    ∃ j, firstFree owner = some j := by
  cases hfind : firstFree owner with
  | some j => exact ⟨j, rfl⟩
  | none =>
      have hall := List.find?_eq_none.mp hfind i (List.mem_finRange i)
      simp [h] at hall

namespace SlotsOwned

variable {owner : Fin n → Option α} {data : α → Option (Fin n)} {live : Finset α} {x : α}
  {i : Fin n}

theorem empty (data : α → Option (Fin n)) : SlotsOwned (fun _ => none) data ∅ where
  place x hx := absurd hx (Finset.notMem_empty x)
  only i x h := by cases h

theorem existsUnique (h : SlotsOwned owner data live) (hx : x ∈ live) : ∃! i, owner i = some x := by
  obtain ⟨i, hdata, howner⟩ := h.place x hx
  refine ⟨i, howner, ?_⟩
  intro j hj
  have hdata' := (h.only j x hj).2
  rw [hdata] at hdata'
  exact (Option.some.inj hdata').symm

theorem ne_of_not_mem (h : SlotsOwned owner data live) (hx : x ∉ live) (i : Fin n) :
    owner i ≠ some x := by
  intro howner
  exact hx (h.only i x howner).1

section
variable [DecidableEq α]

theorem assign (h : SlotsOwned owner data live) (hx : x ∉ live) (hi : owner i = none) :
    SlotsOwned (Function.update owner i (some x)) (Function.update data x (some i))
      (insert x live) where
  place y hy := by
    by_cases hyx : y = x
    · subst hyx
      exact ⟨i, Function.update_self .., Function.update_self ..⟩
    · obtain ⟨j, hdata, howner⟩ := h.place y (Finset.mem_of_mem_insert_of_ne hy hyx)
      have hji : j ≠ i := by
        rintro rfl
        rw [hi] at howner
        cases howner
      refine ⟨j, ?_, ?_⟩
      · rw [Function.update_of_ne hyx, hdata]
      · rw [Function.update_of_ne hji, howner]
  only j y hj := by
    by_cases hji : j = i
    · subst hji
      rw [Function.update_self] at hj
      obtain rfl := Option.some.inj hj
      exact ⟨Finset.mem_insert_self .., Function.update_self ..⟩
    · rw [Function.update_of_ne hji] at hj
      obtain ⟨hlive, hdata⟩ := h.only j y hj
      have hyx : y ≠ x := by
        rintro rfl
        exact hx hlive
      refine ⟨Finset.mem_insert_of_mem hlive, ?_⟩
      rw [Function.update_of_ne hyx, hdata]

theorem release (h : SlotsOwned owner data live) (hi : owner i = some x) :
    SlotsOwned (Function.update owner i none) data (live.erase x) where
  place y hy := by
    obtain ⟨hyx, hlive⟩ := Finset.mem_erase.mp hy
    obtain ⟨j, hdata, howner⟩ := h.place y hlive
    have hji : j ≠ i := by
      rintro rfl
      rw [hi] at howner
      exact hyx (Option.some.inj howner).symm
    refine ⟨j, hdata, ?_⟩
    rw [Function.update_of_ne hji, howner]
  only j y hj := by
    have hji : j ≠ i := by
      rintro rfl
      rw [Function.update_self] at hj
      cases hj
    rw [Function.update_of_ne hji] at hj
    obtain ⟨hlive, hdata⟩ := h.only j y hj
    refine ⟨Finset.mem_erase.mpr ⟨?_, hlive⟩, hdata⟩
    -- The object `x` remembers the slot `i` only.
    rintro rfl
    have hdata' := (h.only i y hi).2
    rw [hdata] at hdata'
    exact hji (Option.some.inj hdata')

end

/-- The slots are enough as long as fewer objects are live. -/
theorem exists_firstFree (h : SlotsOwned owner data live) (hcard : live.card < n) :
    ∃ i, firstFree owner = some i := by
  by_contra hnone
  have howned : ∀ i, ∃ x, owner i = some x := by
    intro i
    cases hi : owner i with
    | some x => exact ⟨x, rfl⟩
    | none => exact absurd (firstFree_isSome hi) hnone
  choose f hf using howned
  have hinj : Function.Injective f := by
    intro i j hij
    have hdata := (h.only i _ (hf i)).2
    rw [hij, (h.only j _ (hf j)).2] at hdata
    exact (Option.some.inj hdata).symm
  have hle : Finset.card (Finset.univ : Finset (Fin n)) ≤ live.card := by
    apply Finset.card_le_card_of_injOn f
    · intro i _
      exact (h.only i _ (hf i)).1
    · exact hinj.injOn
  rw [Finset.card_univ, Fintype.card_fin] at hle
  omega

end SlotsOwned

end Owsd
