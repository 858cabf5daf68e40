import Mathlib.Data.List.Nodup
import Mathlib.Data.List.Perm.Basic
import Mathlib.Tactic.Common

/-!
Things that belong to owners until they are destroyed.

Each owner has a list of the things that live with it, and there is a record
of everything destroyed so far. In good custody nothing lives twice, nothing
that was destroyed lives, and nothing was destroyed twice. A turn of one
owner makes new things and destroys some: what it has afterwards, together
with what it destroyed, is what it had and what is new. Custody is kept by
such turns (`Custody.turn`), whatever an owner destroys and in whatever
order.
-/

namespace Owsd

variable {ω ι : Type*}

/-- Every thing lives in one place or was destroyed, and was destroyed once
at most. -/
structure Custody (live : ω → List ι) (gone : List ι) : Prop where
  nodup : ∀ w, (live w).Nodup
  apart : ∀ w w' i, i ∈ live w → i ∈ live w' → w = w'
  once : gone.Nodup
  dead : ∀ w, ∀ i ∈ live w, i ∉ gone

/-- The thing is neither alive nor was it destroyed. -/
def Fresh (live : ω → List ι) (gone : List ι) (i : ι) : Prop :=
  (∀ w, i ∉ live w) ∧ i ∉ gone

variable {live live' : ω → List ι} {gone : List ι} {w : ω} {new d : List ι}

/-- An owner makes the things `new` and destroys the things `d`. -/
theorem Custody.turn (h : Custody live gone) (hother : ∀ w', w' ≠ w → live' w' = live w')
    (hperm : (live' w ++ d).Perm (new ++ live w)) (hnew : new.Nodup)
    (hfresh : ∀ i ∈ new, Fresh live gone i) : Custody live' (d ++ gone) := by
  have hall : (live' w ++ d).Nodup := by
    rw [hperm.nodup_iff]
    refine List.nodup_append.mpr ⟨hnew, h.nodup w, ?_⟩
    rintro i hi j hj rfl
    exact (hfresh i hi).1 w hj
  obtain ⟨hlive, hd, hdisj⟩ := List.nodup_append.mp hall
  have horigin : ∀ i, i ∈ live' w ∨ i ∈ d → i ∈ new ∨ i ∈ live w := fun i hi =>
    List.mem_append.mp (hperm.mem_iff.mp (List.mem_append.mpr hi))
  have hforeign : ∀ w', w' ≠ w → ∀ i ∈ live w', i ∉ live' w ∧ i ∉ d := by
    intro w' hw i hi
    have hnone : ¬(i ∈ live' w ∨ i ∈ d) := by
      intro hmem
      rcases horigin i hmem with hmem | hmem
      · exact (hfresh i hmem).1 w' hi
      · exact hw (h.apart w' w i hi hmem)
    exact not_or.mp hnone
  have hpast : ∀ i, i ∈ live' w ∨ i ∈ d → i ∉ gone := by
    intro i hi
    rcases horigin i hi with hi | hi
    · exact (hfresh i hi).2
    · exact h.dead w i hi
  constructor
  · intro w'
    by_cases hw : w' = w
    · exact hw ▸ hlive
    · rw [hother w' hw]
      exact h.nodup w'
  · intro w₁ w₂ i h₁ h₂
    by_cases hw₁ : w₁ = w
    · by_cases hw₂ : w₂ = w
      · exact hw₁.trans hw₂.symm
      · rw [hother w₂ hw₂] at h₂
        exact absurd (hw₁ ▸ h₁) (hforeign w₂ hw₂ i h₂).1
    · rw [hother w₁ hw₁] at h₁
      by_cases hw₂ : w₂ = w
      · exact absurd (hw₂ ▸ h₂) (hforeign w₁ hw₁ i h₁).1
      · rw [hother w₂ hw₂] at h₂
        exact h.apart w₁ w₂ i h₁ h₂
  · refine List.nodup_append.mpr ⟨hd, h.once, ?_⟩
    rintro i hi j hj rfl
    exact hpast i (.inr hi) hj
  · intro w' i hi hmem
    by_cases hw : w' = w
    · rw [hw] at hi
      rcases List.mem_append.mp hmem with hmem | hmem
      · exact hdisj i hi i hmem rfl
      · exact hpast i (.inl hi) hmem
    · rw [hother w' hw] at hi
      rcases List.mem_append.mp hmem with hmem | hmem
      · exact (hforeign w' hw i hi).2 hmem
      · exact h.dead w' i hi hmem

theorem perm_filter_append [DecidableEq ι] {l d : List ι} (hl : l.Nodup) (hd : d.Nodup)
    (hsub : ∀ i ∈ d, i ∈ l) : (l.filter (· ∉ d) ++ d).Perm l := by
  have hall : (l.filter (· ∉ d) ++ d).Nodup := by
    refine List.nodup_append.mpr ⟨hl.filter _, hd, ?_⟩
    rintro i hi j hj rfl
    simp [hj] at hi
  rw [List.perm_ext_iff_of_nodup hall hl]
  intro i
  by_cases hi : i ∈ d
  · simp [hi, hsub i hi]
  · simp [hi]

end Owsd
