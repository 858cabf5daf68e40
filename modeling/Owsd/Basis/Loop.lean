import Mathlib.Logic.Relation
import Mathlib.Tactic.Common

/-!
Loops that may not end.

A round of a loop ends it, goes wrong, or leads to another state with some
output. With fuel the loop can be run; it ends when some amount of fuel is
enough. A loop that comes back to a state does not end.
-/

namespace Owsd

inductive Round (σ α : Type*) where
  | done
  | fault
  | next (s : σ) (out : List α)

variable {σ α : Type*} (round : σ → Round σ α)

/-- The output of a loop from `s` on that ends within `fuel` rounds. -/
def runLoop : ℕ → σ → Option (List α)
  | 0, _ => none
  | fuel + 1, s =>
      match round s with
      | .done => some []
      | .fault => none
      | .next t out => (runLoop fuel t).map fun rest => out ++ rest

def Goes (s t : σ) : Prop := ∃ out, round s = .next t out

variable {round} {s t : σ} {out l l' : List α} {fuel fuel' : ℕ}

theorem runLoop_done (h : round s = .done) (fuel : ℕ) :
    runLoop round (fuel + 1) s = some [] := by
  simp only [runLoop, h]

theorem runLoop_next (h : round s = .next t out) (hl : runLoop round fuel t = some l) :
    runLoop round (fuel + 1) s = some (out ++ l) := by
  simp only [runLoop, h, hl, Option.map_some]

theorem runLoop_cases (h : runLoop round fuel s = some l) :
    (round s = .done ∧ l = []) ∨
      ∃ fuel' t out rest, fuel = fuel' + 1 ∧ round s = .next t out ∧
        runLoop round fuel' t = some rest ∧ l = out ++ rest := by
  cases fuel with
  | zero => cases h
  | succ fuel =>
      rw [runLoop] at h
      cases hround : round s with
      | done =>
          simp only [hround, Option.some.injEq] at h
          exact Or.inl ⟨rfl, h.symm⟩
      | fault => simp [hround] at h
      | next t out =>
          simp only [hround, Option.map_eq_some_iff] at h
          obtain ⟨rest, hrest, rfl⟩ := h
          exact Or.inr ⟨fuel, t, out, rest, rfl, rfl, hrest, rfl⟩

theorem runLoop_eq_nil (hdone : round s = .done) (h : runLoop round fuel s = some l) :
    l = [] := by
  rcases runLoop_cases h with ⟨-, rfl⟩ | ⟨_, t, out, rest, _, hnext, _⟩
  · rfl
  · rw [hdone] at hnext
    cases hnext

theorem runLoop_after (hnext : round s = .next t out) (h : runLoop round fuel s = some l) :
    ∃ fuel' rest, fuel = fuel' + 1 ∧ runLoop round fuel' t = some rest ∧ l = out ++ rest := by
  rcases runLoop_cases h with ⟨hdone, -⟩ | ⟨fuel', t', out', rest, hfuel, hnext', hrest, hl⟩
  · rw [hnext] at hdone
    cases hdone
  · rw [hnext] at hnext'
    cases hnext'
    exact ⟨fuel', rest, hfuel, hrest, hl⟩

theorem runLoop_unique (h : runLoop round fuel s = some l) (h' : runLoop round fuel' s = some l') :
    l = l' := by
  induction fuel generalizing fuel' s l l' with
  | zero => cases h
  | succ fuel ih =>
      rcases runLoop_cases h with ⟨hdone, rfl⟩ | ⟨_, t, out, rest, hf, hnext, hrest, rfl⟩
      · exact (runLoop_eq_nil hdone h').symm
      · cases hf
        obtain ⟨_, rest', -, hrest', rfl⟩ := runLoop_after hnext h'
        rw [ih hrest hrest']

theorem runLoop_of_transGen (hgoes : Relation.TransGen (Goes round) s t)
    (h : runLoop round fuel s = some l) :
    ∃ fuel' < fuel, ∃ l', runLoop round fuel' t = some l' := by
  induction hgoes using Relation.TransGen.head_induction_on generalizing fuel l with
  | single hst =>
      obtain ⟨out, hst⟩ := hst
      obtain ⟨fuel', rest, rfl, hrest, -⟩ := runLoop_after hst h
      exact ⟨fuel', Nat.lt_succ_self _, rest, hrest⟩
  | head hst _ ih =>
      obtain ⟨out, hst⟩ := hst
      obtain ⟨fuel', rest, rfl, hrest, -⟩ := runLoop_after hst h
      obtain ⟨fuel'', hlt, l', hl'⟩ := ih hrest
      exact ⟨fuel'', by omega, l', hl'⟩

theorem runLoop_of_cycle (hcycle : Relation.TransGen (Goes round) s s) (fuel : ℕ) :
    runLoop round fuel s = none := by
  induction fuel using Nat.strongRecOn with
  | ind fuel ih =>
      cases hl : runLoop round fuel s with
      | none => rfl
      | some l =>
          obtain ⟨fuel', hlt, l', hl'⟩ := runLoop_of_transGen hcycle hl
          rw [ih fuel' hlt] at hl'
          cases hl'

end Owsd
