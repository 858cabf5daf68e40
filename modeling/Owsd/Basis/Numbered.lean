import Mathlib.Data.List.Nodup
import Mathlib.Tactic.Common

/-!
Lists of numbered records.

A program that holds its records in a list reaches one of them through a
pointer. Here a record has a number of its own in place of the pointer;
`modify` writes through it and `remove` takes the record out. What the list
holds afterwards is said by membership, and the records under other numbers
are as they were.
-/

namespace Owsd.Numbered

variable {α : Type*} (num : α → ℕ)

def modify (n : ℕ) (f : α → α) (l : List α) : List α :=
  l.map fun a => if num a = n then f a else a

def remove (n : ℕ) (l : List α) : List α := l.filter fun a => num a ≠ n

variable {num} {n : ℕ} {f : α → α} {l : List α} {a b : α}

theorem mem_modify :
    b ∈ modify num n f l ↔ (b ∈ l ∧ num b ≠ n) ∨ ∃ a ∈ l, num a = n ∧ f a = b := by
  rw [modify, List.mem_map]
  constructor
  · rintro ⟨a, ha, rfl⟩
    by_cases hn : num a = n
    · rw [if_pos hn]
      exact .inr ⟨a, ha, hn, rfl⟩
    · rw [if_neg hn]
      exact .inl ⟨ha, hn⟩
  · rintro (⟨hb, hn⟩ | ⟨a, ha, hn, rfl⟩)
    · exact ⟨b, hb, if_neg hn⟩
    · exact ⟨a, ha, if_pos hn⟩

theorem mem_remove : b ∈ remove num n l ↔ b ∈ l ∧ num b ≠ n := by
  simp [remove]

/-- What is read of the records, when a write does not change it. -/
theorem map_modify {β : Type*} {g : α → β} (hg : ∀ a, g (f a) = g a) :
    (modify num n f l).map g = l.map g := by
  rw [modify, List.map_map]
  refine List.map_congr_left fun a _ => ?_
  simp only [Function.comp]
  split
  · exact hg a
  · rfl

theorem modify_modify {g : α → α} (hf : ∀ a, num (f a) = num a) :
    modify num n g (modify num n f l) = modify num n (fun a => g (f a)) l := by
  simp only [modify, List.map_map]
  refine List.map_congr_left fun a _ => ?_
  by_cases hn : num a = n
  · simp [hn, hf]
  · simp [hn]

theorem remove_modify (hf : ∀ a, num (f a) = num a) :
    remove num n (modify num n f l) = remove num n l := by
  induction l with
  | nil => rfl
  | cons a l ih =>
      rw [modify, remove] at ih
      by_cases hn : num a = n
      · simp [modify, remove, hn, hf] at ih ⊢
        exact ih
      · simp [modify, remove, hn] at ih ⊢
        exact ih

theorem remove_remove : remove num n (remove num n l) = remove num n l := by
  simp [remove]

theorem remove_sublist : (remove num n l).Sublist l := List.filter_sublist

/-- With distinct numbers, the record is determined by its number. -/
theorem eq_of_num_eq (h : (l.map num).Nodup) (ha : a ∈ l) (hb : b ∈ l) (hn : num a = num b) :
    a = b := List.inj_on_of_nodup_map h ha hb hn

/-- What holds for records under two numbers holds for every two records. -/
theorem pairwise_of_ne {R : α → α → Prop} (h : (l.map num).Nodup)
    (hR : ∀ a ∈ l, ∀ b ∈ l, num a ≠ num b → R a b) : l.Pairwise R := by
  have hne : l.Pairwise fun a b => num a ≠ num b := List.pairwise_map.mp h
  exact hne.imp_of_mem fun ha hb hn => hR _ ha _ hb hn

/-- What is read of some records, when a write changes neither which nor
what. -/
theorem map_filter_modify {β : Type*} {p : α → Bool} {g : α → β} (hp : ∀ a, p (f a) = p a)
    (hg : ∀ a, g (f a) = g a) :
    ((modify num n f l).filter p).map g = (l.filter p).map g := by
  induction l with
  | nil => rfl
  | cons a l ih =>
      have hhead : ∀ b, p b = p a → g b = g a →
          ((b :: modify num n f l).filter p).map g = ((a :: l).filter p).map g := by
        intro b hpb hgb
        rw [List.filter_cons, List.filter_cons, hpb]
        split
        · rw [List.map_cons, List.map_cons, hgb, ih]
        · exact ih
      by_cases hn : num a = n
      · simpa [modify, hn] using hhead (f a) (hp a) (hg a)
      · simpa [modify, hn] using hhead a rfl rfl

theorem find?_modify {p : α → Bool} (hp : ∀ a, p (f a) = p a) :
    (modify num n f l).find? p = (l.find? p).map fun a => if num a = n then f a else a := by
  have hcomp : (p ∘ fun a => if num a = n then f a else a) = p := by
    funext a
    simp only [Function.comp]
    split
    · exact hp a
    · rfl
  rw [modify, List.find?_map, hcomp]

end Owsd.Numbered
