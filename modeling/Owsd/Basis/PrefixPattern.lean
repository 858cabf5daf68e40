import Mathlib.Data.List.Lex
import Mathlib.Data.Set.Basic
import Mathlib.Logic.Nontrivial.Basic
import Mathlib.Order.Basic
import Mathlib.Tactic.Common

/-!
Patterns that name one word or all words with a given beginning.

Over a linearly ordered alphabet such a pattern names an interval of the
lexicographic order, and two patterns that share a word are nested: the
words they name form a laminar family. Disjoint patterns are therefore
ordered, one entirely before the other, and `Before` is a strict order on
them although sharing a word is not transitive.

A word that only begins like the empty word still has to be nonempty: the
pattern with the empty stem names every word but the empty one. The empty
word is named by itself alone and stands before everything else.
-/

namespace Owsd

/-- One word, or the nonempty words that begin with a stem. -/
inductive Pattern (α : Type*) where
  | exactly (word : List α)
  | startsWith (stem : List α)

namespace Pattern

variable {α : Type*}

def names : Pattern α → Set (List α)
  | exactly w => {w}
  | startsWith s => {n | n ≠ [] ∧ s <+: n}

@[simp] theorem mem_names_exactly {w n : List α} : n ∈ (exactly w).names ↔ n = w := Iff.rfl

@[simp] theorem mem_names_startsWith {s n : List α} :
    n ∈ (startsWith s).names ↔ n ≠ [] ∧ s <+: n := Iff.rfl

theorem names_nonempty [Nonempty α] (p : Pattern α) : p.names.Nonempty := by
  cases p with
  | exactly w => exact ⟨w, rfl⟩
  | startsWith s =>
      obtain ⟨c⟩ := ‹Nonempty α›
      exact ⟨s ++ [c], by simp⟩

def Overlap (p q : Pattern α) : Prop := (p.names ∩ q.names).Nonempty

theorem Overlap.symm {p q : Pattern α} (h : Overlap p q) : Overlap q p := by
  obtain ⟨x, hp, hq⟩ := h
  exact ⟨x, hq, hp⟩

/-- Everything `q` names is named by `p`. -/
def Broader (p q : Pattern α) : Prop := q.names ⊆ p.names

theorem Broader.trans {p q r : Pattern α} (hpq : Broader p q) (hqr : Broader q r) :
    Broader p r := fun _ hx => hpq (hqr hx)

theorem Broader.overlap [Nonempty α] {p q : Pattern α} (h : Broader p q) : Overlap p q := by
  obtain ⟨x, hx⟩ := q.names_nonempty
  exact ⟨x, h hx, hx⟩

theorem Overlap.nested {p q : Pattern α} (h : Overlap p q) : Broader p q ∨ Broader q p := by
  obtain ⟨x, hp, hq⟩ := h
  cases p with
  | exactly w =>
      refine Or.inr fun n hn => ?_
      rw [mem_names_exactly] at hn hp
      rw [hn, ← hp]
      exact hq
  | startsWith s =>
      cases q with
      | exactly w =>
          refine Or.inl fun n hn => ?_
          rw [mem_names_exactly] at hn hq
          rw [hn, ← hq]
          exact hp
      | startsWith t =>
          rcases List.prefix_or_prefix_of_prefix hp.2 hq.2 with hst | hts
          · exact Or.inl fun n hn => ⟨hn.1, hst.trans hn.2⟩
          · exact Or.inr fun n hn => ⟨hn.1, hts.trans hn.2⟩

/-- Only a pattern with a beginning of the stem contains all its extensions:
two letters tell the stem apart from its one-letter extensions. -/
theorem Broader.startsWith_inv [Nontrivial α] {p : Pattern α} {s : List α}
    (h : Broader p (startsWith s)) : ∃ t, p = startsWith t ∧ t <+: s := by
  obtain ⟨a, b, hab⟩ := exists_pair_ne α
  have ha : s ++ [a] ∈ p.names := h (by simp)
  have hb : s ++ [b] ∈ p.names := h (by simp)
  cases p with
  | exactly w =>
      rw [mem_names_exactly] at ha hb
      have hlast : s ++ [a] = s ++ [b] := ha.trans hb.symm
      exact absurd (by simpa using hlast) hab
  | startsWith t =>
      refine ⟨t, rfl, ?_⟩
      by_cases hlen : t.length ≤ s.length
      · exact List.prefix_of_prefix_length_le ha.2 (List.prefix_append ..) hlen
      · have hta : t = s ++ [a] := ha.2.eq_of_length_le (by simp; omega)
        have htb : t = s ++ [b] := hb.2.eq_of_length_le (by simp; omega)
        exact absurd (by simpa using hta.symm.trans htb) hab

/-- A pattern that shares a word with one inside `q` shares one with `q`. -/
theorem Overlap.mono {p q r : Pattern α} (h : Overlap p r) (hr : Broader q r) : Overlap p q := by
  obtain ⟨x, hp, hx⟩ := h
  exact ⟨x, hp, hr hx⟩

variable [LinearOrder α]

/-- Every word of `p` is smaller than every word of `q`. -/
def Before (p q : Pattern α) : Prop := ∀ x ∈ p.names, ∀ y ∈ q.names, x < y

theorem Before.not_overlap {p q : Pattern α} (h : Before p q) : ¬Overlap p q := by
  rintro ⟨x, hp, hq⟩
  exact lt_irrefl x (h x hp x hq)

theorem Before.trans [Nonempty α] {p q r : Pattern α} (hpq : Before p q) (hqr : Before q r) :
    Before p r := by
  obtain ⟨y, hy⟩ := q.names_nonempty
  exact fun x hx z hz => lt_trans (hpq x hx y hy) (hqr y hy z hz)

theorem Before.asymm [Nonempty α] {p q : Pattern α} (hpq : Before p q) : ¬Before q p := by
  intro hqp
  obtain ⟨x, hx⟩ := p.names_nonempty
  obtain ⟨y, hy⟩ := q.names_nonempty
  exact lt_asymm (hpq x hx y hy) (hqp y hy x hx)

end Pattern

end Owsd
