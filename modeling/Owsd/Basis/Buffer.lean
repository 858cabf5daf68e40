import Owsd.Basis.CString

/-!
Strings in buffers.

A buffer is the list of its cells, so that its size is its length; a cell
that nothing has written yet holds no byte. The functions of `<string.h>`
that write are partial: a write that leaves the buffer, or a read of a cell
without a byte, has no result. What a caller has to show is that there is
room, and each lemma below gives the string a buffer holds after the write
under that hypothesis alone.
-/

namespace Owsd

/-- One byte of a buffer, if it was written. -/
abbrev Cell := Option (Fin 256)

abbrev Buffer := List Cell

def cells (s : CString) : List Cell := s.map fun c => some c.val

@[simp] theorem cells_length (s : CString) : (cells s).length = s.length := List.length_map ..

@[simp] theorem cells_append (s t : CString) : cells (s ++ t) = cells s ++ cells t :=
  List.map_append ..

namespace Buffer

/-- `malloc`: nothing is written yet. -/
def malloc (size : ℕ) : Buffer := List.replicate size none

/-- The string at the start of a buffer: the bytes up to a terminator. -/
def str : Buffer → Option CString
  | [] => none
  | none :: _ => none
  | some c :: rest =>
      if h : c ≠ 0 then (str rest).map fun s => ⟨c, h⟩ :: s else some []

/-- Writes `bytes` from the index `i` on. -/
def poke (b : Buffer) (i : ℕ) (bytes : List Cell) : Option Buffer :=
  if i + bytes.length ≤ b.length then
    some (b.take i ++ bytes ++ b.drop (i + bytes.length))
  else none

def strcpy (b : Buffer) (s : CString) : Option Buffer := poke b 0 (cells s ++ [some 0])

/-- `strncpy`: at most `n` bytes of `s`, filled up with terminators. -/
def strncpy (b : Buffer) (s : CString) (n : ℕ) : Option Buffer :=
  poke b 0 (cells (s.take n) ++ List.replicate (n - s.length) (some 0))

def strcat (b : Buffer) (s : CString) : Option Buffer :=
  (str b).bind fun d => poke b d.length (cells s ++ [some 0])

/-- `strncat`: at most `n` bytes of `s`, and a terminator after them. -/
def strncat (b : Buffer) (s : CString) (n : ℕ) : Option Buffer := strcat b (s.take n)

/-- `memmove(b + dst, b + src, n)`. -/
def memmove (b : Buffer) (dst src n : ℕ) : Option Buffer :=
  if src + n ≤ b.length then poke b dst ((b.drop src).take n) else none

/-- `snprintf(b, size, ...)` where the formatted text is `s`. -/
def snprintf (b : Buffer) (size : ℕ) (s : CString) : Option Buffer :=
  if size = 0 then some b else strcpy b (s.take (size - 1))

@[simp] theorem malloc_length (size : ℕ) : (malloc size).length = size :=
  List.length_replicate

/-- A buffer holds a string when its cells are those of the string and of a
terminator, whatever comes after. -/
theorem str_eq_some_iff {b : Buffer} {s : CString} :
    str b = some s ↔ ∃ rest, b = cells s ++ some 0 :: rest := by
  induction b generalizing s with
  | nil => simp [str]
  | cons cell b ih =>
      cases cell with
      | none =>
          refine iff_of_false (by simp [str]) ?_
          rintro ⟨rest, hrest⟩
          cases s <;> simp [cells] at hrest
      | some c =>
          by_cases hc : c = 0
          · subst hc
            rw [str, dif_neg (not_not.mpr rfl)]
            cases s with
            | nil => simp [cells]
            | cons a s =>
                refine iff_of_false (by simp) ?_
                rintro ⟨rest, hrest⟩
                simp only [cells, List.map_cons, List.cons_append, List.cons.injEq,
                  Option.some.injEq] at hrest
                exact a.property hrest.1.symm
          · rw [str, dif_pos hc]
            cases s with
            | nil => simp [cells, hc]
            | cons a s =>
                have hih := ih (s := s)
                simp only [Option.map_eq_some_iff, List.cons.injEq, cells, List.map_cons,
                  List.cons_append, Option.some.injEq] at hih ⊢
                constructor
                · rintro ⟨t, ht, rfl, rfl⟩
                  obtain ⟨rest, hrest⟩ := hih.mp ht
                  exact ⟨rest, rfl, hrest⟩
                · rintro ⟨rest, hac, hrest⟩
                  exact ⟨s, hih.mpr ⟨rest, hrest⟩, Subtype.ext hac, rfl⟩

theorem poke_length {b b' : Buffer} {i : ℕ} {bytes : List Cell}
    (h : poke b i bytes = some b') : b'.length = b.length := by
  rw [poke] at h
  split at h
  · rename_i hroom
    cases h
    simp only [List.length_append, List.length_take, List.length_drop]
    omega
  · cases h

/-- A write of `bytes` behind the first cells, where there is room for it. -/
theorem poke_append {f b bytes : List Cell} (hroom : bytes.length ≤ b.length) :
    poke (f ++ b) f.length bytes = some (f ++ bytes ++ b.drop bytes.length) := by
  have hle : f.length + bytes.length ≤ (f ++ b).length := by
    rw [List.length_append]
    omega
  rw [poke, if_pos hle, List.take_left, List.drop_append]
  simp

theorem strcpy_str {b : Buffer} {s : CString} (hroom : s.length < b.length) :
    ∃ b', strcpy b s = some b' ∧ str b' = some s ∧ b'.length = b.length := by
  have hfit : (cells s ++ [some 0]).length ≤ b.length := by
    rw [List.length_append, cells_length, List.length_singleton]
    exact hroom
  have hpoke := poke_append (f := []) hfit
  refine ⟨_, hpoke, ?_, poke_length hpoke⟩
  apply str_eq_some_iff.mpr
  exact ⟨b.drop (cells s ++ [some 0]).length, by simp⟩

/-- A string that is shorter than the bound is copied whole. -/
theorem strncpy_str {b : Buffer} {s : CString} {n : ℕ} (hs : s.length < n)
    (hroom : n ≤ b.length) :
    ∃ b', strncpy b s n = some b' ∧ str b' = some s ∧ b'.length = b.length := by
  have htake : s.take n = s := List.take_of_length_le hs.le
  have hfill : List.replicate (n - s.length) (some (0 : Fin 256)) =
      some 0 :: List.replicate (n - s.length - 1) (some 0) := by
    rw [← List.replicate_succ]
    congr 1
    omega
  have hfit : (cells s ++ List.replicate (n - s.length) (some 0)).length ≤ b.length := by
    rw [List.length_append, cells_length, List.length_replicate]
    omega
  have hpoke := poke_append (f := []) hfit
  refine ⟨_, ?_, ?_, poke_length hpoke⟩
  · rw [strncpy, htake]
    exact hpoke
  · apply str_eq_some_iff.mpr
    rw [hfill]
    rw [List.nil_append, List.append_assoc, List.cons_append]
    exact ⟨_, rfl⟩

theorem poke_str {b : Buffer} {d : CString} {n : ℕ} (hd : str b = some d) (hn : n ≤ d.length) :
    ∃ b', poke b n [some 0] = some b' ∧ str b' = some (d.take n) ∧ b'.length = b.length := by
  obtain ⟨rest, rfl⟩ := str_eq_some_iff.mp hd
  have hsplit : cells d ++ some 0 :: rest =
      cells (d.take n) ++ (cells (d.drop n) ++ some 0 :: rest) := by
    rw [← List.append_assoc, ← cells_append, List.take_append_drop]
  have hlen : (cells (d.take n)).length = n := by
    rw [cells_length, List.length_take, min_eq_left hn]
  have hroom : [some (0 : Fin 256)].length ≤ (cells (d.drop n) ++ some 0 :: rest).length := by
    rw [List.length_singleton, List.length_append, List.length_cons]
    omega
  have hpoke := poke_append (f := cells (d.take n)) hroom
  rw [hlen, ← hsplit] at hpoke
  refine ⟨_, hpoke, ?_, poke_length hpoke⟩
  apply str_eq_some_iff.mpr
  rw [List.append_assoc]
  exact ⟨_, rfl⟩

theorem strcat_str {b : Buffer} {d s : CString} (hd : str b = some d)
    (hroom : d.length + s.length < b.length) :
    ∃ b', strcat b s = some b' ∧ str b' = some (d ++ s) ∧ b'.length = b.length := by
  obtain ⟨rest, rfl⟩ := str_eq_some_iff.mp hd
  have hfit : (cells s ++ [some 0]).length ≤ (some 0 :: rest).length := by
    rw [List.length_append, cells_length] at hroom
    rw [List.length_append, cells_length, List.length_singleton]
    omega
  have hpoke := poke_append (f := cells d) hfit
  rw [cells_length] at hpoke
  refine ⟨_, by rw [strcat, hd, Option.bind_some, hpoke], ?_, poke_length hpoke⟩
  apply str_eq_some_iff.mpr
  exact ⟨(some 0 :: rest).drop (cells s ++ [some 0]).length, by simp⟩

theorem strncat_str {b : Buffer} {d s : CString} {n : ℕ} (hd : str b = some d)
    (hn : s.length ≤ n) (hroom : d.length + s.length < b.length) :
    ∃ b', strncat b s n = some b' ∧ str b' = some (d ++ s) ∧ b'.length = b.length := by
  rw [strncat, List.take_of_length_le hn]
  exact strcat_str hd hroom

/-- Moving the end of a string, terminator included, to the front. -/
theorem memmove_str {b : Buffer} {d : CString} {k : ℕ} (hd : str b = some d)
    (hk : k ≤ d.length) :
    ∃ b', memmove b 0 k (d.length - k + 1) = some b' ∧ str b' = some (d.drop k) ∧
      b'.length = b.length := by
  obtain ⟨rest, rfl⟩ := str_eq_some_iff.mp hd
  have hlen : (cells d ++ some 0 :: rest).length = d.length + (rest.length + 1) := by
    rw [List.length_append, cells_length, List.length_cons]
  have hmoved : ((cells d ++ some 0 :: rest).drop k).take (d.length - k + 1) =
      cells (d.drop k) ++ [some 0] := by
    rw [List.drop_append_of_le_length (by rw [cells_length]; exact hk), List.take_append]
    simp [cells, List.map_drop]
  have hfit : (cells (d.drop k) ++ [some 0]).length ≤ (cells d ++ some 0 :: rest).length := by
    rw [hlen, List.length_append, cells_length, List.length_drop, List.length_singleton]
    omega
  have hpoke := poke_append (f := []) hfit
  refine ⟨_, ?_, ?_, poke_length hpoke⟩
  · rw [memmove, if_pos (by rw [hlen]; omega), hmoved]
    exact hpoke
  · apply str_eq_some_iff.mpr
    exact ⟨(cells d ++ some 0 :: rest).drop (cells (d.drop k) ++ [some 0]).length, by simp⟩

theorem snprintf_take {b : Buffer} {s : CString} {size : ℕ} (hpos : 0 < size)
    (hsize : size ≤ b.length) :
    ∃ b', snprintf b size s = some b' ∧ str b' = some (s.take (size - 1)) ∧
      b'.length = b.length := by
  rw [snprintf, if_neg (by omega)]
  apply strcpy_str
  rw [List.length_take]
  omega

theorem snprintf_str {b : Buffer} {s : CString} {size : ℕ} (hsize : size ≤ b.length)
    (hs : s.length < size) :
    ∃ b', snprintf b size s = some b' ∧ str b' = some s ∧ b'.length = b.length := by
  have htake := snprintf_take (s := s) (by omega) hsize
  rwa [List.take_of_length_le (by omega)] at htake

end Buffer

/-! ### Searching in a string -/

/-- `strchr(s, c) - s` for a byte `c` that is not the terminator. -/
def strchr (s : CString) (c : CChar) : Option ℕ := s.findIdx? (· = c)

/-- `strstr(s, t) - s`. -/
def strstrAt (t : CString) : CString → Option ℕ
  | [] => if t = [] then some 0 else none
  | c :: s => if t <+: c :: s then some 0 else (strstrAt t s).map (· + 1)

theorem strchr_append {s t : CString} {c : CChar} (hs : c ∉ s) :
    strchr (s ++ c :: t) c = some s.length := by
  induction s with
  | nil => rw [strchr, List.nil_append, List.findIdx?_cons, if_pos (by simp)]; rfl
  | cons a s ih =>
      have hac : a ≠ c := fun h => hs (h ▸ List.mem_cons_self)
      have hih := ih fun h => hs (List.mem_cons_of_mem a h)
      rw [strchr] at hih ⊢
      rw [List.cons_append, List.findIdx?_cons, if_neg (by simp [hac]), hih]
      rfl

theorem strchr_of_not_mem {s : CString} {c : CChar} (hs : c ∉ s) : strchr s c = none := by
  rw [strchr, List.findIdx?_eq_none_iff]
  intro a ha
  have hac : a ≠ c := fun h => hs (h ▸ ha)
  simp [hac]

/-- `strstr(s, t) == s` is the test whether `s` starts with `t`. -/
theorem strstrAt_eq_zero_iff {t s : CString} : strstrAt t s = some 0 ↔ t <+: s := by
  cases s with
  | nil =>
      rw [strstrAt, List.prefix_nil]
      split <;> simp [*]
  | cons c s =>
      rw [strstrAt]
      split
      · simp [*]
      · rename_i hnot
        refine iff_of_false ?_ hnot
        cases strstrAt t s <;> simp

/-! ### Replacing a separator -/

/-- `for (p = s; (p = strchr(p, c)); ++p) *p = d;` from the index `p` on,
through at most `fuel` rounds. -/
def replaceLoop (c d : CChar) : ℕ → ℕ → CString → Option CString
  | 0, _, _ => none
  | fuel + 1, p, s =>
      match strchr (s.drop p) c with
      | none => some s
      | some i => replaceLoop c d fuel (p + i + 1) (s.set (p + i) d)

def replaceAll (c d : CChar) (s : CString) : Option CString :=
  replaceLoop c d (s.length + 1) 0 s

/-- The string with every `c` replaced by `d`. -/
def replaced (c d : CChar) (s : CString) : CString := s.map fun a => if a = c then d else a

@[simp] theorem replaced_length (c d : CChar) (s : CString) :
    (replaced c d s).length = s.length := List.length_map ..

@[simp] theorem replaced_append (c d : CChar) (s t : CString) :
    replaced c d (s ++ t) = replaced c d s ++ replaced c d t := List.map_append ..

theorem replaced_of_not_mem {c d : CChar} {s : CString} (h : c ∉ s) : replaced c d s = s := by
  induction s with
  | nil => rfl
  | cons a s ih =>
      have hac : a ≠ c := fun heq => h (heq ▸ List.mem_cons_self)
      have hih := ih fun hmem => h (List.mem_cons_of_mem a hmem)
      rw [replaced] at hih ⊢
      rw [List.map_cons, if_neg hac, hih]

/-- The first `p` bytes are behind the loop; it replaces in what is left. -/
theorem replaceLoop_append {c d : CChar} {fuel : ℕ} {f s : CString} (hfuel : s.length < fuel) :
    replaceLoop c d fuel f.length (f ++ s) = some (f ++ replaced c d s) := by
  induction fuel generalizing f s with
  | zero => omega
  | succ fuel ih =>
      rw [replaceLoop, List.drop_left]
      by_cases hmem : c ∈ s
      · obtain ⟨g, t, rfl, hg⟩ := List.eq_append_cons_of_mem hmem
        rw [List.length_append, List.length_cons] at hfuel
        have hset : (f ++ (g ++ c :: t)).set (f.length + g.length) d = (f ++ g ++ [d]) ++ t := by
          rw [← List.append_assoc, ← List.length_append, List.set_append_right _ _ le_rfl]
          simp
        have hlen : f.length + g.length + 1 = (f ++ g ++ [d]).length := by
          rw [List.length_append, List.length_append, List.length_singleton]
        simp only [strchr_append hg]
        rw [hset, hlen, ih (by omega), replaced_append, replaced_of_not_mem hg]
        simp [replaced]
      · simp only [strchr_of_not_mem hmem]
        rw [replaced_of_not_mem hmem]

theorem replaceAll_eq (c d : CChar) (s : CString) : replaceAll c d s = some (replaced c d s) :=
  replaceLoop_append (f := []) (Nat.lt_succ_self _)

/-- Replacing there and back again gives back a string without the new
separator. -/
theorem replaced_replaced {c d : CChar} {s : CString} (h : d ∉ s) :
    replaced d c (replaced c d s) = s := by
  induction s with
  | nil => rfl
  | cons a s ih =>
      have had : a ≠ d := fun heq => h (heq ▸ List.mem_cons_self)
      have hih := ih fun hmem => h (List.mem_cons_of_mem a hmem)
      simp only [replaced, List.map_cons] at hih ⊢
      rw [hih]
      by_cases hac : a = c
      · rw [if_pos hac, if_pos rfl, hac]
      · rw [if_neg hac, if_neg had]

end Owsd
