import Mathlib.Data.List.Basic
import Mathlib.Logic.Relation
import Mathlib.Tactic.Common

/-!
Walking through everything below some roots with a queue.

In each round the first of the queue is visited, and its children join the
queue at the end; nothing is marked, so what can be reached in two ways is
visited twice. The queue runs empty exactly when there is no infinite path
from it (`emptied_iff`), and by then everything was visited level by level
(`visits_eq_levels`).
-/

namespace Owsd.Worklist

variable {α : Type*} (children : α → List α)

def oneRound : List α → List α
  | [] => []
  | x :: queue => queue ++ children x

def rounds : ℕ → List α → List α
  | 0, queue => queue
  | n + 1, queue => rounds n (oneRound children queue)

def visits : ℕ → List α → List α
  | 0, _ => []
  | n + 1, queue => queue.head?.toList ++ visits n (oneRound children queue)

def level : ℕ → List α → List α
  | 0, queue => queue
  | d + 1, queue => level d (queue.flatMap children)

def levels (d : ℕ) (queue : List α) : List α :=
  (List.range d).flatMap fun i => level children i queue

/-- `y` is a child of `x`. -/
def Below (y x : α) : Prop := y ∈ children x

variable {children}

theorem rounds_nil (n : ℕ) : rounds children n [] = [] := by
  induction n with
  | zero => rfl
  | succ n ih => exact ih

theorem rounds_add (n m : ℕ) (queue : List α) :
    rounds children (n + m) queue = rounds children m (rounds children n queue) := by
  induction n generalizing queue with
  | zero => rw [Nat.zero_add, rounds]
  | succ n ih => rw [Nat.add_right_comm, rounds, ih, rounds]

theorem visits_add (n m : ℕ) (queue : List α) :
    visits children (n + m) queue =
      visits children n queue ++ visits children m (rounds children n queue) := by
  induction n generalizing queue with
  | zero => rw [Nat.zero_add, visits, rounds, List.nil_append]
  | succ n ih => rw [Nat.add_right_comm, visits, ih, visits, rounds, List.append_assoc]

theorem visits_nil (n : ℕ) : visits children n [] = [] := by
  induction n with
  | zero => rfl
  | succ n ih => exact ih

/-- The front of a queue is visited before anything that joins. -/
theorem rounds_front (front rest : List α) :
    rounds children front.length (front ++ rest) = rest ++ front.flatMap children ∧
      visits children front.length (front ++ rest) = front := by
  induction front generalizing rest with
  | nil => simp [rounds, visits]
  | cons x front ih =>
      obtain ⟨hrounds, hvisits⟩ := ih (rest ++ children x)
      have hround : oneRound children (x :: front ++ rest) = front ++ (rest ++ children x) := by
        simp [oneRound]
      constructor
      · rw [List.length_cons, rounds, hround, hrounds]
        simp
      · rw [List.length_cons, visits, hround, hvisits]
        simp

theorem rounds_level (queue : List α) :
    rounds children queue.length queue = queue.flatMap children ∧
      visits children queue.length queue = queue := by
  simpa using rounds_front queue ([] : List α)

theorem levels_succ (d : ℕ) (queue : List α) :
    levels children (d + 1) queue = queue ++ levels children d (queue.flatMap children) := by
  rw [levels, List.range_succ_eq_map, List.flatMap_cons, List.flatMap_map]
  rfl

/-- After as many rounds as there are above a depth, the level of that depth
is what is left. -/
theorem rounds_levels (d : ℕ) (queue : List α) :
    rounds children (levels children d queue).length queue = level children d queue ∧
      visits children (levels children d queue).length queue = levels children d queue := by
  induction d generalizing queue with
  | zero => exact ⟨rfl, rfl⟩
  | succ d ih =>
      obtain ⟨hrounds, hvisits⟩ := @rounds_level _ children queue
      obtain ⟨hrounds', hvisits'⟩ := ih (queue.flatMap children)
      rw [levels_succ, List.length_append, rounds_add, visits_add, hrounds, hvisits]
      exact ⟨hrounds', by rw [hvisits']⟩

theorem level_nil (d : ℕ) : level children d [] = [] := by
  induction d with
  | zero => rfl
  | succ d ih => exact ih

theorem level_append (d : ℕ) (queue queue' : List α) :
    level children d (queue ++ queue') = level children d queue ++ level children d queue' := by
  induction d generalizing queue queue' with
  | zero => rfl
  | succ d ih => simp only [level, List.flatMap_append, ih]

theorem level_eq_nil_of_le {d e : ℕ} (hle : d ≤ e) {queue : List α}
    (h : level children d queue = []) : level children e queue = [] := by
  induction d generalizing e queue with
  | zero =>
      rw [level] at h
      rw [h, level_nil]
  | succ d ih =>
      cases e with
      | zero => omega
      | succ e =>
          rw [level] at h ⊢
          exact ih (by omega) h

/-- The levels of a queue end when those of each of its elements do. -/
theorem exists_level_eq_nil {queue : List α} (h : ∀ x ∈ queue, ∃ d, level children d [x] = []) :
    ∃ d, level children d queue = [] := by
  induction queue with
  | nil => exact ⟨0, rfl⟩
  | cons x queue ih =>
      obtain ⟨d, hd⟩ := h x List.mem_cons_self
      obtain ⟨e, he⟩ := ih fun y hy => h y (List.mem_cons_of_mem x hy)
      refine ⟨max d e, ?_⟩
      rw [← List.singleton_append, level_append, level_eq_nil_of_le (Nat.le_max_left d e) hd,
        level_eq_nil_of_le (Nat.le_max_right d e) he]
      rfl

theorem exists_levels_end {queue : List α} (h : ∀ x ∈ queue, Acc (Below children) x) :
    ∃ d, level children d queue = [] := by
  refine exists_level_eq_nil fun x hx => ?_
  have hacc := h x hx
  clear hx
  induction hacc with
  | intro x _ ih =>
      obtain ⟨d, hd⟩ := exists_level_eq_nil fun y (hy : y ∈ children x) => ih y hy
      exact ⟨d + 1, by rw [level, List.flatMap_singleton]; exact hd⟩

theorem acc_of_emptied {n : ℕ} {queue : List α} (h : rounds children n queue = []) :
    ∀ x ∈ queue, Acc (Below children) x := by
  induction n generalizing queue with
  | zero =>
      rw [rounds] at h
      simp [h]
  | succ n ih =>
      cases queue with
      | nil => simp
      | cons x queue =>
          have hall := ih h
          intro y hy
          rcases List.mem_cons.mp hy with rfl | hy
          · exact ⟨_, fun z hz => hall z (List.mem_append_right queue hz)⟩
          · exact hall y (List.mem_append_left _ hy)

/-- The queue runs empty exactly when no path from it goes on forever. -/
theorem emptied_iff {queue : List α} :
    (∃ n, rounds children n queue = []) ↔ ∀ x ∈ queue, Acc (Below children) x := by
  constructor
  · rintro ⟨n, h⟩
    exact acc_of_emptied h
  · intro h
    obtain ⟨d, hd⟩ := exists_levels_end h
    exact ⟨_, (rounds_levels d queue).1.trans hd⟩

/-- When the queue is empty, everything was visited once for each way to reach
it, level by level. -/
theorem visits_eq_levels {n : ℕ} {queue : List α} (h : rounds children n queue = []) :
    ∃ d, level children d queue = [] ∧ visits children n queue = levels children d queue := by
  obtain ⟨d, hd⟩ := exists_levels_end (acc_of_emptied h)
  refine ⟨d, hd, ?_⟩
  obtain ⟨hrounds, hvisits⟩ := @rounds_levels _ children d queue
  -- Both counts of rounds empty the queue, and rounds of an empty one visit nothing.
  rw [hd] at hrounds
  rcases Nat.le_total n (levels children d queue).length with hle | hle
  · obtain ⟨m, hm⟩ := Nat.exists_eq_add_of_le hle
    rw [← hvisits, hm, visits_add, h, visits_nil, List.append_nil]
  · obtain ⟨m, rfl⟩ := Nat.exists_eq_add_of_le hle
    rw [visits_add, hrounds, visits_nil, List.append_nil, hvisits]

theorem length_visits_le (n : ℕ) (queue : List α) : (visits children n queue).length ≤ n := by
  induction n generalizing queue with
  | zero => exact Nat.le_refl 0
  | succ n ih =>
      have hhead : queue.head?.toList.length ≤ 1 := by cases queue.head? <;> simp
      have hrest := ih (oneRound children queue)
      rw [visits, List.length_append]
      omega

/-- The queue is empty once there was a round for everything. -/
theorem rounds_eq_nil_iff {n : ℕ} {queue : List α} :
    rounds children n queue = [] ↔
      ∃ d, level children d queue = [] ∧ (levels children d queue).length ≤ n := by
  constructor
  · intro h
    obtain ⟨d, hd, hvisits⟩ := visits_eq_levels h
    exact ⟨d, hd, hvisits ▸ length_visits_le n queue⟩
  · rintro ⟨d, hd, hle⟩
    obtain ⟨m, rfl⟩ := Nat.exists_eq_add_of_le hle
    rw [rounds_add, (rounds_levels d queue).1, hd, rounds_nil]

end Owsd.Worklist
