import Mathlib.Data.List.TakeWhile
import Mathlib.Tactic.Common

/-!
Text files the way `<stdio.h>` reads them: lines through a buffer of a fixed
size, and words with a width.

The lines and words a file really has are those of `splitOn` and of
`wordsBy`. `fgets` gives the lines when they fit its buffer and pieces of
them when they do not, and a conversion with a width gives a word or the
start of one; the lemmas say when the two readings agree.
-/

namespace Owsd

variable {α : Type*}

/-! ### Words -/

section Words

variable (blank : α → Bool)

def wordsBy (s : List α) : List (List α) := (s.splitOnP blank).filter fun w => !w.isEmpty

/-- `%s` of `scanf`, with the width if there is one: what it reads, and the
text behind it. -/
def scanWord (width : Option ℕ) (s : List α) : List α × List α :=
  let s := s.dropWhile blank
  let word := s.takeWhile fun c => !blank c
  let word := width.elim word word.take
  (word, s.drop word.length)

variable {blank}

theorem wordsBy_cons_blank {c : α} (hc : blank c = true) (s : List α) :
    wordsBy blank (c :: s) = wordsBy blank s := by
  have hsplit := List.splitOnP_append_cons [] s hc
  rw [List.nil_append, List.splitOnP_nil] at hsplit
  rw [wordsBy, hsplit]
  rfl

theorem wordsBy_append_blank {c : α} (hc : blank c = true) (s : List α) :
    wordsBy blank (s ++ [c]) = wordsBy blank s := by
  rw [wordsBy, List.splitOnP_append_cons s [] hc, List.splitOnP_nil, List.filter_append]
  simp [wordsBy]

theorem wordsBy_dropWhile (s : List α) : wordsBy blank (s.dropWhile blank) = wordsBy blank s := by
  induction s with
  | nil => rfl
  | cons c s ih =>
      cases hc : blank c with
      | true => rw [List.dropWhile_cons_of_pos hc, ih, wordsBy_cons_blank hc]
      | false => rw [List.dropWhile_cons_of_neg (by simp [hc])]

/-- A word that the end or a blank follows is the first one. -/
theorem wordsBy_word {w t : List α} (hw : w ≠ []) (hno : ∀ c ∈ w, blank c = false)
    (ht : ∀ c ∈ t.head?, blank c = true) : wordsBy blank (w ++ t) = w :: wordsBy blank t := by
  have hkeep : (!w.isEmpty) = true := by simpa using hw
  cases t with
  | nil =>
      rw [List.append_nil, wordsBy, List.splitOnP_eq_singleton hno]
      simp [wordsBy, hkeep]
  | cons c t =>
      have hc : blank c = true := ht c rfl
      rw [wordsBy_cons_blank hc, wordsBy, List.splitOnP_append_cons w t hc,
        List.splitOnP_eq_singleton hno, List.filter_append]
      simp [wordsBy, hkeep]

/-- The blanks skipped, a text is empty or starts with its first word. -/
theorem wordsBy_eq (s : List α) :
    wordsBy blank s = [] ∧ s.dropWhile blank = [] ∨
      (s.dropWhile blank).takeWhile (fun c => !blank c) ≠ [] ∧
        wordsBy blank s = (s.dropWhile blank).takeWhile (fun c => !blank c) ::
          wordsBy blank ((s.dropWhile blank).dropWhile fun c => !blank c) := by
  rw [← wordsBy_dropWhile s]
  cases hs : s.dropWhile blank with
  | nil => exact Or.inl ⟨rfl, rfl⟩
  | cons c t =>
      have hc : blank c = false := by
        have := List.head?_dropWhile_not blank s
        rw [hs] at this
        simpa using this
      have hword : (c :: t).takeWhile (fun c => !blank c) ≠ [] := by
        rw [List.takeWhile_cons_of_pos (by simp [hc])]
        exact List.cons_ne_nil c _
      refine Or.inr ⟨hword, ?_⟩
      have hsplit : (c :: t).takeWhile (fun c => !blank c) ++
          (c :: t).dropWhile (fun c => !blank c) = c :: t := List.takeWhile_append_dropWhile
      have hno : ∀ d ∈ (c :: t).takeWhile (fun c => !blank c), blank d = false := by
        intro d hd
        simpa using List.mem_takeWhile_imp hd
      have hhead : ∀ d ∈ ((c :: t).dropWhile fun c => !blank c).head?, blank d = true := by
        intro d hd
        have := List.head?_dropWhile_not (fun c => !blank c) (c :: t)
        rw [Option.mem_def.mp hd] at this
        simpa using this
      have hfirst := wordsBy_word hword hno hhead
      rw [hsplit] at hfirst
      exact hfirst

theorem drop_length_takeWhile (p : α → Bool) (s : List α) :
    s.drop (s.takeWhile p).length = s.dropWhile p := by
  have h : (s.takeWhile p ++ s.dropWhile p).drop (s.takeWhile p).length = s.dropWhile p :=
    List.drop_left
  rwa [List.takeWhile_append_dropWhile] at h

theorem scanWord_of_nil {s : List α} (h : wordsBy blank s = []) (width : Option ℕ) :
    (scanWord blank width s).1 = [] := by
  rcases @wordsBy_eq α blank s with ⟨-, hs⟩ | ⟨-, hcons⟩
  · simp only [scanWord, hs]
    cases width <;> simp
  · rw [h] at hcons
    cases hcons

theorem scanWord_of_cons {s w : List α} {ws : List (List α)} (width : Option ℕ)
    (h : wordsBy blank s = w :: ws) (hfits : ∀ n ∈ width, w.length ≤ n) :
    (scanWord blank width s).1 = w ∧ wordsBy blank (scanWord blank width s).2 = ws := by
  rcases @wordsBy_eq α blank s with ⟨hnil, -⟩ | ⟨-, hcons⟩
  · rw [h] at hnil
    cases hnil
  · rw [h, List.cons.injEq] at hcons
    obtain ⟨hw, hws⟩ := hcons
    have hword : (scanWord blank width s).1 = w := by
      simp only [scanWord, ← hw]
      cases width with
      | none => rfl
      | some n => exact List.take_of_length_le (hfits n rfl)
    refine ⟨hword, ?_⟩
    have hrest : (scanWord blank width s).2 = (s.dropWhile blank).drop w.length := by
      rw [← hword]
      rfl
    rw [hrest, hws, hw, drop_length_takeWhile]

theorem scanWord_length_le (n : ℕ) (s : List α) :
    (scanWord blank (some n) s).1.length ≤ n := by
  simp only [scanWord, Option.elim_some, List.length_take]
  omega

theorem mem_of_mem_scanWord {width : Option ℕ} {s : List α} {c : α}
    (h : c ∈ (scanWord blank width s).1 ∨ c ∈ (scanWord blank width s).2) : c ∈ s := by
  have hskip : ∀ c ∈ s.dropWhile blank, c ∈ s := fun c hc => (List.dropWhile_sublist _).mem hc
  rcases h with h | h
  · have htake : c ∈ (s.dropWhile blank).takeWhile fun c => !blank c := by
      cases width with
      | none => exact h
      | some n => exact List.mem_of_mem_take h
    exact hskip c ((List.takeWhile_sublist _).mem htake)
  · exact hskip c (List.mem_of_mem_drop h)

theorem ne_nil_of_mem_wordsBy {s w : List α} (h : w ∈ wordsBy blank s) : w ≠ [] := by
  have := (List.mem_filter.mp h).2
  simpa using this

end Words

/-! ### Lines -/

section Lines

variable [DecidableEq α] (newline : α)

/-- `fgets` into a buffer of `n + 1` bytes: what it reads, and the rest of the
file. -/
def fgets : ℕ → List α → List α × List α
  | 0, s => ([], s)
  | _ + 1, [] => ([], [])
  | n + 1, c :: s =>
      if c = newline then ([c], s)
      else (c :: (fgets n s).1, (fgets n s).2)

/-- What `fgets` reads until the end of the file, in at most `fuel` calls. -/
def pieces (n : ℕ) : ℕ → List α → List (List α)
  | 0, _ => []
  | _ + 1, [] => []
  | fuel + 1, c :: s =>
      (fgets newline n (c :: s)).1 :: pieces n fuel (fgets newline n (c :: s)).2

variable {newline}

theorem fgets_line {n : ℕ} {line : List α} (hline : newline ∉ line) (hn : line.length < n)
    (s : List α) : fgets newline n (line ++ newline :: s) = (line ++ [newline], s) := by
  induction n generalizing line with
  | zero => omega
  | succ n ih =>
      cases line with
      | nil => simp [fgets]
      | cons c line =>
          have hc : c ≠ newline := fun h => hline (h ▸ List.mem_cons_self)
          have hih := ih (fun h => hline (List.mem_cons_of_mem c h)) (by simpa using hn)
          rw [List.cons_append, fgets, if_neg hc, hih]
          rfl

theorem fgets_last {n : ℕ} {line : List α} (hline : newline ∉ line) (hn : line.length ≤ n) :
    fgets newline n line = (line, []) := by
  induction n generalizing line with
  | zero =>
      rw [List.eq_nil_of_length_eq_zero (Nat.le_zero.mp hn)]
      rfl
  | succ n ih =>
      cases line with
      | nil => rfl
      | cons c line =>
          have hc : c ≠ newline := fun h => hline (h ▸ List.mem_cons_self)
          have hih := ih (fun h => hline (List.mem_cons_of_mem c h)) (by simpa using hn)
          rw [fgets, if_neg hc, hih]

/-- Through a buffer that every line fits, the file is read line by line. -/
theorem pieces_lines {n fuel : ℕ} {s : List α} (hfuel : s.length ≤ fuel)
    (hfits : ∀ line ∈ s.splitOn newline, line.length < n) :
    (∀ p ∈ pieces newline n fuel s,
      ∃ line ∈ s.splitOn newline, p = line ∨ p = line ++ [newline]) ∧
    ∀ line ∈ s.splitOn newline, line ≠ [] →
      ∃ p ∈ pieces newline n fuel s, p = line ∨ p = line ++ [newline] := by
  induction fuel generalizing s with
  | zero =>
      have hs : s = [] := List.eq_nil_of_length_eq_zero (Nat.le_zero.mp hfuel)
      subst hs
      simp [pieces]
  | succ fuel ih =>
      cases s with
      | nil => simp [pieces]
      | cons c s =>
          rw [pieces]
          by_cases hmem : newline ∈ c :: s
          · obtain ⟨line, rest, hsplit, hline⟩ := List.eq_append_cons_of_mem hmem
            have hlines : (c :: s).splitOn newline = line :: rest.splitOn newline := by
              rw [hsplit, List.splitOn_append_cons_self, List.splitOn_eq_singleton hline]
              rfl
            have hlen : (c :: s).length = line.length + (rest.length + 1) := by
              rw [hsplit, List.length_append, List.length_cons]
            rw [hlines] at hfits ⊢
            rw [hsplit, fgets_line hline (hfits line List.mem_cons_self)]
            obtain ⟨hpieces, hback⟩ := ih (s := rest) (by omega)
              (fun l hl => hfits l (List.mem_cons_of_mem line hl))
            constructor
            · intro p hp
              rcases List.mem_cons.mp hp with rfl | hp
              · exact ⟨line, List.mem_cons_self, Or.inr rfl⟩
              · obtain ⟨l, hl, hpl⟩ := hpieces p hp
                exact ⟨l, List.mem_cons_of_mem line hl, hpl⟩
            · intro l hl hne
              rcases List.mem_cons.mp hl with rfl | hl
              · exact ⟨_, List.mem_cons_self, Or.inr rfl⟩
              · obtain ⟨p, hp, hpl⟩ := hback l hl hne
                exact ⟨p, List.mem_cons_of_mem _ hp, hpl⟩
          · have hlines : (c :: s).splitOn newline = [c :: s] := List.splitOn_eq_singleton hmem
            rw [hlines] at hfits ⊢
            have hlast := fgets_last hmem (hfits (c :: s) List.mem_cons_self).le
            have hnone : pieces newline n fuel ([] : List α) = [] := by
              cases fuel <;> rfl
            rw [hlast, hnone]
            constructor
            · intro p hp
              exact ⟨c :: s, List.mem_cons_self, Or.inl (List.mem_singleton.mp hp)⟩
            · intro l hl _
              exact ⟨c :: s, List.mem_cons_self, Or.inl (List.mem_singleton.mp hl).symm⟩

end Lines

end Owsd
