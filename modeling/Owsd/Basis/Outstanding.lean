import Mathlib.Data.List.Basic
import Mathlib.Tactic.Common

/-!
Requests and replies in a history.

A history is a list of past happenings, newest first. Some of them open a
request under an id, some close the request with an id. What is outstanding
are the requests opened and not closed since; a closing that comes before its
opening does nothing.
-/

namespace Owsd

section
variable {α ι κ : Type} [DecidableEq ι] (opens : α → Option (ι × κ)) (closes : α → Option ι)

def outstanding : List α → List (ι × κ)
  | [] => []
  | a :: past =>
      match opens a with
      | some p => p :: outstanding past
      | none =>
          match closes a with
          | some n => (outstanding past).filter fun p => p.1 ≠ n
          | none => outstanding past

end

section
variable {α ι κ : Type} [DecidableEq ι] {opens : α → Option (ι × κ)} {closes : α → Option ι}
  {a : α} {past : List α} {p : ι × κ} {n : ι}

theorem outstanding_closes (h : opens a = none) (hn : closes a = some n) :
    outstanding opens closes (a :: past) =
      (outstanding opens closes past).filter fun p => p.1 ≠ n := by
  simp only [outstanding, h, hn]

/-- Closing an id under which nothing is outstanding changes nothing. -/
theorem outstanding_closes_none (h : opens a = none)
    (hn : ∀ n, closes a = some n → ∀ p ∈ outstanding opens closes past, p.1 ≠ n) :
    outstanding opens closes (a :: past) = outstanding opens closes past := by
  cases hclose : closes a with
  | none => simp only [outstanding, h, hclose]
  | some n =>
      rw [outstanding_closes h hclose, List.filter_eq_self]
      intro p hp
      simpa using hn n hclose p hp

/-- Happenings that neither open nor close change nothing. -/
theorem outstanding_append {new : List α}
    (h : ∀ a ∈ new, opens a = none ∧ closes a = none) :
    outstanding opens closes (new ++ past) = outstanding opens closes past := by
  induction new with
  | nil => rfl
  | cons a new ih =>
      obtain ⟨hopen, hclose⟩ := h a List.mem_cons_self
      rw [List.cons_append, outstanding_closes_none hopen (by simp [hclose]),
        ih fun b hb => h b (List.mem_cons_of_mem a hb)]

end

end Owsd
