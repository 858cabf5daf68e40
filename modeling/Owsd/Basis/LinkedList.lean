import Mathlib.Data.List.Basic
import Mathlib.Tactic.Common

/-!
Circular lists with a list head, and the safe walk over a range of one.

The elements of a list are told apart by their addresses. A place is an
element, by its address, or the list head, which is the neighbour of both
ends and no element itself. Programs keep places across changes of the list,
so a place may refer to an element that was freed; going on from there, or
reading the head as if it were an element, is a fault.
-/

namespace Owsd.LinkedList

inductive Place where
  | head
  | elem (addr : ℕ)
  deriving DecidableEq, Repr

/-- What can go wrong with a cursor. -/
inductive Fault where
  /-- The list head was read as an element. -/
  | pseudoElement
  /-- A freed element was read. -/
  | freed
  /-- A null cursor was read. -/
  | null
  /-- A walk did not come to an end. -/
  | endless
  deriving DecidableEq, Repr

section
variable {α : Type} (addr : α → ℕ)

/-- The place of an element, with the head standing for none. -/
def placeOf : Option α → Place
  | none => .head
  | some x => .elem (addr x)

def next (l : List α) : Place → Except Fault Place
  | .head => .ok (placeOf addr l.head?)
  | .elem a =>
      match l.dropWhile fun x => addr x ≠ a with
      | [] => .error .freed
      | _ :: rest => .ok (placeOf addr rest.head?)

def prev (l : List α) : Place → Except Fault Place
  | .head => .ok (placeOf addr l.getLast?)
  | .elem a =>
      if l.any fun x => addr x = a then
        .ok (placeOf addr (l.takeWhile fun x => addr x ≠ a).getLast?)
      else .error .freed

def get (l : List α) : Place → Except Fault α
  | .head => .error .pseudoElement
  | .elem a =>
      match l.find? fun x => addr x = a with
      | none => .error .freed
      | some x => .ok x

/-- The walk of a sorted list from a place up to the first element that does
not compare below, or to the place just after `last`. `ptr` is the place
after the cursor, fetched ahead of time so that the body may remove the
element under the cursor. The result is the cursor, the place after it and
the last comparison made. -/
def forRangeSafe (cmp : α → Int) (l : List α) (last : Place) :
    ℕ → Place → Place → Int → Except Fault (Place × Place × Int)
  | 0, _, _, _ => .error .endless
  | fuel + 1, cur, ptr, r => do
      if (← prev addr l cur) = last then .ok (cur, ptr, r)
      else
        let x ← get addr l cur
        if 0 ≤ cmp x then .ok (cur, ptr, cmp x)
        else forRangeSafe cmp l last fuel ptr (← next addr l ptr) (cmp x)

end

section
variable {α : Type} {addr : α → ℕ} {x y : α} {xs ys : List α}

def Distinct (addr : α → ℕ) (l : List α) : Prop := (l.map addr).Nodup

/-- In a list with distinct addresses an element is met at its own place
only. -/
theorem Distinct.ne_left (h : Distinct addr (xs ++ x :: ys)) : ∀ z ∈ xs, addr z ≠ addr x := by
  intro z hz heq
  rw [Distinct, List.map_append, List.map_cons, List.nodup_append] at h
  exact h.2.2 (addr z) (List.mem_map_of_mem hz) (addr x) List.mem_cons_self heq

theorem takeWhile_at (h : Distinct addr (xs ++ x :: ys)) :
    (xs ++ x :: ys).takeWhile (fun z => addr z ≠ addr x) = xs := by
  rw [List.takeWhile_append_of_pos fun z hz => by simpa using h.ne_left z hz]
  simp

theorem dropWhile_at (h : Distinct addr (xs ++ x :: ys)) :
    (xs ++ x :: ys).dropWhile (fun z => addr z ≠ addr x) = x :: ys := by
  rw [List.dropWhile_append_of_pos fun z hz => by simpa using h.ne_left z hz]
  simp

theorem prev_at (h : Distinct addr (xs ++ x :: ys)) :
    prev addr (xs ++ x :: ys) (.elem (addr x)) = .ok (placeOf addr xs.getLast?) := by
  have hany : (xs ++ x :: ys).any (fun z => addr z = addr x) = true := by simp
  rw [prev, if_pos hany, takeWhile_at h]

theorem next_at (h : Distinct addr (xs ++ x :: ys)) :
    next addr (xs ++ x :: ys) (.elem (addr x)) = .ok (placeOf addr ys.head?) := by
  simp only [next, dropWhile_at h]

theorem get_at (h : Distinct addr (xs ++ x :: ys)) :
    get addr (xs ++ x :: ys) (.elem (addr x)) = .ok x := by
  have hfind : (xs ++ x :: ys).find? (fun z => addr z = addr x) = some x := by
    rw [List.find?_append, List.find?_eq_none.mpr fun z hz => by simpa using h.ne_left z hz]
    simp
  simp only [get, hfind]

theorem next_head? (h : Distinct addr (xs ++ ys)) (hys : ys ≠ []) :
    next addr (xs ++ ys) (placeOf addr ys.head?) = .ok (placeOf addr ys.tail.head?) := by
  cases ys with
  | nil => exact absurd rfl hys
  | cons y ys => exact next_at h

/-- The place after the one that follows an element of the list. -/
theorem next_after (h : Distinct addr (xs ++ x :: ys)) (hys : ys ≠ []) :
    next addr (xs ++ x :: ys) (placeOf addr ys.head?) = .ok (placeOf addr ys.tail.head?) := by
  have happ : xs ++ x :: ys = (xs ++ [x]) ++ ys := by simp
  rw [happ] at h ⊢
  exact next_head? h hys

/-! ### The walk -/

variable {cmp : α → Int} {last : Place} {fuel : ℕ} {r : Int} {ptr : Place}

/-- While `last` is still to come, the walk does not stop before it. -/
theorem prev_ne_last (h : Distinct addr (xs ++ x :: ys)) (hhead : last ≠ .head)
    (hlast : ∀ z ∈ xs, last ≠ .elem (addr z)) :
    ∃ p, prev addr (xs ++ x :: ys) (.elem (addr x)) = .ok p ∧ p ≠ last := by
  refine ⟨_, prev_at h, ?_⟩
  cases hz : xs.getLast? with
  | none => exact hhead.symm
  | some z => exact (hlast z (List.mem_of_getLast? hz)).symm

theorem forRangeSafe_stop (h : Distinct addr (xs ++ x :: ys)) (hhead : last ≠ .head)
    (hlast : ∀ z ∈ xs, last ≠ .elem (addr z)) (hcmp : 0 ≤ cmp x) :
    forRangeSafe addr cmp (xs ++ x :: ys) last (fuel + 1) (.elem (addr x)) ptr r =
      .ok (.elem (addr x), ptr, cmp x) := by
  obtain ⟨p, hp, hne⟩ := prev_ne_last h hhead hlast
  rw [forRangeSafe, hp, get_at h]
  simp [bind, Except.bind, hne, hcmp]

theorem forRangeSafe_skip (h : Distinct addr (xs ++ x :: ys)) (hhead : last ≠ .head)
    (hlast : ∀ z ∈ xs, last ≠ .elem (addr z)) (hcmp : cmp x < 0) {ptr' : Place}
    (hptr : next addr (xs ++ x :: ys) ptr = .ok ptr') :
    forRangeSafe addr cmp (xs ++ x :: ys) last (fuel + 1) (.elem (addr x)) ptr r =
      forRangeSafe addr cmp (xs ++ x :: ys) last fuel ptr ptr' (cmp x) := by
  obtain ⟨p, hp, hne⟩ := prev_ne_last h hhead hlast
  rw [forRangeSafe, hp, get_at h, hptr]
  simp [bind, Except.bind, hne, Int.not_le.mpr hcmp]

/-- At the place after `last` the walk ends, with the comparison it came
with. -/
theorem forRangeSafe_end {l : List α} {cur : Place} (hprev : prev addr l cur = .ok last) :
    forRangeSafe addr cmp l last (fuel + 1) cur ptr r = .ok (cur, ptr, r) := by
  rw [forRangeSafe, hprev]
  simp [bind, Except.bind]

/-- At the list head, when it is not the place after `last`, the walk reads
the head. -/
theorem forRangeSafe_head {l : List α} {p : Place} (hprev : prev addr l .head = .ok p)
    (hne : p ≠ last) :
    forRangeSafe addr cmp l last (fuel + 1) .head ptr r = .error .pseudoElement := by
  rw [forRangeSafe, hprev]
  simp [bind, Except.bind, hne, get]

/-- The walk over elements that compare below, to the first that does not. -/
theorem forRangeSafe_found {ds : List α} (hfuel : ds.length < fuel)
    (h : Distinct addr (xs ++ (ds ++ x :: ys))) (hhead : last ≠ .head)
    (hlast : ∀ z ∈ xs ++ ds, last ≠ .elem (addr z)) (hds : ∀ d ∈ ds, cmp d < 0)
    (hcmp : 0 ≤ cmp x) :
    forRangeSafe addr cmp (xs ++ (ds ++ x :: ys)) last fuel
        (placeOf addr (ds ++ x :: ys).head?) (placeOf addr (ds ++ x :: ys).tail.head?) r =
      .ok (.elem (addr x), placeOf addr ys.head?, cmp x) := by
  induction ds generalizing xs fuel r with
  | nil =>
      obtain ⟨fuel, rfl⟩ := Nat.exists_eq_add_of_lt hfuel
      have hlast' : ∀ z ∈ xs, last ≠ .elem (addr z) := fun z hz => hlast z (by simp [hz])
      simpa [placeOf] using forRangeSafe_stop h hhead hlast' hcmp
  | cons d ds ih =>
      cases fuel with
      | zero => omega
      | succ fuel =>
          have hlast' : ∀ z ∈ xs, last ≠ .elem (addr z) := fun z hz => hlast z (by simp [hz])
          have happ : xs ++ d :: (ds ++ x :: ys) = (xs ++ [d]) ++ (ds ++ x :: ys) := by simp
          rw [List.cons_append] at h
          refine Eq.trans (forRangeSafe_skip h hhead hlast' (hds d List.mem_cons_self)
            (next_after h (by simp))) ?_
          rw [happ] at h ⊢
          refine ih (by simpa using hfuel) h ?_ fun e he => hds e (List.mem_cons_of_mem d he)
          simpa using hlast

/-- The walk over elements that all compare below: it ends at the list head,
with the comparison of `last`. -/
theorem forRangeSafe_passed {ds : List α} (hfuel : ds.length + 1 < fuel)
    (h : Distinct addr (xs ++ (ds ++ [x]))) (hlast : last = .elem (addr x))
    (hds : ∀ d ∈ ds, cmp d < 0) (hcmp : cmp x < 0) :
    ∃ ptr, forRangeSafe addr cmp (xs ++ (ds ++ [x])) last fuel
        (placeOf addr (ds ++ [x]).head?) (placeOf addr (ds ++ [x]).tail.head?) r =
      .ok (.head, ptr, cmp x) := by
  have hhead : last ≠ .head := by simp [hlast]
  induction ds generalizing xs fuel r with
  | nil =>
      obtain ⟨fuel, rfl⟩ : ∃ k, fuel = k + 2 := ⟨fuel - 2, by simp at hfuel; omega⟩
      have hne : ∀ z ∈ xs, last ≠ .elem (addr z) := by
        intro z hz
        simpa [hlast, eq_comm] using h.ne_left z hz
      have hprev : prev addr (xs ++ [x]) .head = .ok last := by simp [prev, placeOf, hlast]
      refine ⟨placeOf addr (xs ++ [x]).head?, ?_⟩
      refine Eq.trans (forRangeSafe_skip h hhead hne hcmp rfl) ?_
      exact forRangeSafe_end hprev
  | cons d ds ih =>
      cases fuel with
      | zero => omega
      | succ fuel =>
          have hne : ∀ z ∈ xs, last ≠ .elem (addr z) := by
            intro z hz
            have happ : xs ++ (d :: ds ++ [x]) = (xs ++ d :: ds) ++ x :: [] := by simp
            rw [happ] at h
            simpa [hlast, eq_comm] using h.ne_left z (by simp [hz])
          have happ : xs ++ d :: (ds ++ [x]) = (xs ++ [d]) ++ (ds ++ [x]) := by simp
          rw [List.cons_append] at h
          have h' := h
          rw [happ] at h'
          obtain ⟨ptr, hptr⟩ := ih (r := cmp d) (by simpa using hfuel) h'
            fun e he => hds e (List.mem_cons_of_mem d he)
          refine ⟨ptr, Eq.trans (forRangeSafe_skip h hhead hne (hds d List.mem_cons_self)
            (next_after h (by simp))) ?_⟩
          rw [happ]
          exact hptr

end

end Owsd.LinkedList
