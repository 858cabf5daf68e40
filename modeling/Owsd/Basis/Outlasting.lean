import Mathlib.Data.List.Basic
import Mathlib.Tactic.Common

/-!
What outlasts a history.

Events add entries to a list, and end entries that are there. Whether an
event adds an entry may depend on a state that the events move along. The
list kept event by event (`book`) is the list of those entries that some
event added and no later one ended, in the order in which they were added
(`bookAll_eq`).
-/

namespace Owsd

section
variable {σ ε α : Type*} (next : σ → ε → σ) (adds : σ → ε → Option α) (ends : ε → α → Bool)

def outlasting : σ → List ε → List α
  | _, [] => []
  | s, e :: es =>
      ((adds s e).toList.filter fun a => !es.any fun e' => ends e' a) ++ outlasting (next s e) es

/-- One event: the entries it ends go, the one it adds comes last. -/
def book (s : σ) (l : List α) (e : ε) : List α :=
  (l.filter fun a => !ends e a) ++ (adds s e).toList

def bookAll : σ → List α → List ε → List α
  | _, l, [] => l
  | s, l, e :: es => bookAll (next s e) (book adds ends s l e) es

/-- The entries there were and nothing ended, and those added. -/
theorem bookAll_eq (s : σ) (l : List α) (es : List ε) :
    bookAll next adds ends s l es =
      (l.filter fun a => !es.any fun e => ends e a) ++ outlasting next adds ends s es := by
  induction es generalizing s l with
  | nil => simp [bookAll, outlasting]
  | cons e es ih =>
      rw [bookAll, ih, book, List.filter_append, List.filter_filter, outlasting, List.append_assoc]
      congr 1
      refine List.filter_congr fun a _ => ?_
      simp only [List.any_cons, Bool.not_or, Bool.and_comm]

end

end Owsd
