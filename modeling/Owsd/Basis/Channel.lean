import Mathlib.Data.List.Basic
import Owsd.Basis.Run

/-!
Two machines that talk to each other.

A side of a connection is a machine whose state tells what it has written so
far, and some of whose events take a message in. Joined to another side, it
reads what that one writes, in order; a channel is nothing but the number of
messages read. All other events of the two sides come in any order.

A run of the two is a run of each, and what one side took in is a beginning
of what the other has written (`joined_run`). So whatever is known about the
runs of one machine holds of it in company.
-/

namespace Owsd

/-- One side of a connection: it reads messages of type `ι` and writes
messages of type `ω`. -/
structure Side (σ ε φ ι ω : Type) where
  step : σ → ε → Except φ σ
  /-- What was written so far, the oldest first. -/
  written : σ → List ω
  /-- The message that an event takes in. -/
  input : ε → Option ι
  grows : ∀ s e s', step s e = .ok s' → written s <+: written s'

variable {σ τ ε δ φ ψ ι ω : Type}

/-- Two sides, and how far each has read the other. -/
structure Joined (σ τ : Type) where
  left : σ
  right : τ
  leftRead : ℕ
  rightRead : ℕ

def Side.reads (A : Side σ ε φ ι ω) (e : ε) (n : ℕ) : ℕ :=
  if (A.input e).isSome then n + 1 else n

section
variable (A : Side σ ε φ ι ω) (B : Side τ δ ψ ω ι)

def joinedStep (s : Joined σ τ) : ε ⊕ δ → Except (φ ⊕ ψ) (Joined σ τ)
  | .inl e =>
      match A.step s.left e with
      | .ok left => .ok { s with left := left, leftRead := A.reads e s.leftRead }
      | .error f => .error (.inl f)
  | .inr e =>
      match B.step s.right e with
      | .ok right => .ok { s with right := right, rightRead := B.reads e s.rightRead }
      | .error f => .error (.inr f)

/-- A message that is taken in is the next one that the other side wrote. -/
def Delivers (s : Joined σ τ) : ε ⊕ δ → Prop
  | .inl e => ∀ m, A.input e = some m → (B.written s.right)[s.leftRead]? = some m
  | .inr e => ∀ m, B.input e = some m → (A.written s.left)[s.rightRead]? = some m

/-- The messages that a side took in, the oldest first. -/
def Side.inputs (A : Side σ ε φ ι ω) (es : List ε) : List ι := es.filterMap A.input

def lefts (es : List (ε ⊕ δ)) : List ε := es.filterMap Sum.getLeft?

def rights (es : List (ε ⊕ δ)) : List δ := es.filterMap Sum.getRight?

end

section
variable {A : Side σ ε φ ι ω} {B : Side τ δ ψ ω ι}

theorem inputs_concat (es : List ε) (e : ε) :
    A.inputs (es ++ [e]) = A.inputs es ++ (A.input e).toList := by
  rw [Side.inputs, List.filterMap_append, ← Side.inputs]
  cases h : A.input e <;> simp [h]

theorem take_prefix {l l' : List ι} {n : ℕ} (h : l <+: l') (hn : n ≤ l.length) :
    l'.take n = l.take n := by
  obtain ⟨more, rfl⟩ := h
  rw [List.take_append_of_le_length hn]

/-- What a side took in, and how far it has read. -/
structure Side.Follows (A : Side σ ε φ ι ω) (es : List ε) (written : List ι) (n : ℕ) : Prop where
  inputs : A.inputs es = written.take n
  read : n ≤ written.length

theorem Side.Follows.grow {es : List ε} {l l' : List ι} {n : ℕ} (h : A.Follows es l n)
    (hl : l <+: l') : A.Follows es l' n where
  inputs := by rw [h.inputs, take_prefix hl h.read]
  read := Nat.le_trans h.read hl.length_le

theorem Side.Follows.read_on {es : List ε} {l : List ι} {n : ℕ} {e : ε} (h : A.Follows es l n)
    (he : ∀ m, A.input e = some m → l[n]? = some m) : A.Follows (es ++ [e]) l (A.reads e n) := by
  cases hin : A.input e with
  | none =>
      have hreads : A.reads e n = n := by simp [Side.reads, hin]
      rw [hreads]
      exact ⟨by rw [inputs_concat, hin, h.inputs]; simp, h.read⟩
  | some m =>
      have hreads : A.reads e n = n + 1 := by simp [Side.reads, hin]
      have hm := he m hin
      obtain ⟨hlt, -⟩ := List.getElem?_eq_some_iff.mp hm
      rw [hreads]
      refine ⟨?_, hlt⟩
      rw [inputs_concat, hin, h.inputs, List.take_add_one, hm]

/-- Where two joined sides stand after the events. -/
structure JoinedAt (A : Side σ ε φ ι ω) (B : Side τ δ ψ ω ι) (l₀ : σ) (r₀ : τ)
    (es : List (ε ⊕ δ)) (s : Joined σ τ) : Prop where
  left : run A.step l₀ (lefts es) = .ok s.left
  right : run B.step r₀ (rights es) = .ok s.right
  leftInputs : A.Follows (lefts es) (B.written s.right) s.leftRead
  rightInputs : B.Follows (rights es) (A.written s.left) s.rightRead

theorem lefts_concat (es : List (ε ⊕ δ)) (e : ε ⊕ δ) :
    lefts (es ++ [e]) = lefts es ++ e.getLeft?.toList := by
  rw [lefts, List.filterMap_append, ← lefts]
  cases e <;> rfl

theorem rights_concat (es : List (ε ⊕ δ)) (e : ε ⊕ δ) :
    rights (es ++ [e]) = rights es ++ e.getRight?.toList := by
  rw [rights, List.filterMap_append, ← rights]
  cases e <;> rfl

theorem run_concat {step : σ → ε → Except φ σ} {s s' s'' : σ} {es : List ε} {e : ε}
    (h : run step s es = .ok s') (he : step s' e = .ok s'') : run step s (es ++ [e]) = .ok s'' := by
  rw [run_append h, run_cons he]
  rfl

theorem joinedAt_step {l₀ : σ} {r₀ : τ} {es : List (ε ⊕ δ)} {s s' : Joined σ τ} {e : ε ⊕ δ}
    (h : JoinedAt A B l₀ r₀ es s) (hd : Delivers A B s e) (hstep : joinedStep A B s e = .ok s') :
    JoinedAt A B l₀ r₀ (es ++ [e]) s' := by
  cases e with
  | inl e =>
      simp only [joinedStep] at hstep
      split at hstep
      · next left hleft =>
        cases hstep
        constructor
        case left => rw [lefts_concat]; exact run_concat h.left hleft
        case right => rw [rights_concat]; simpa using h.right
        case leftInputs => rw [lefts_concat]; exact h.leftInputs.read_on hd
        case rightInputs =>
          rw [rights_concat]
          simpa using h.rightInputs.grow (A.grows _ _ _ hleft)
      · cases hstep
  | inr e =>
      simp only [joinedStep] at hstep
      split at hstep
      · next right hright =>
        cases hstep
        constructor
        case left => rw [lefts_concat]; simpa using h.left
        case right => rw [rights_concat]; exact run_concat h.right hright
        case leftInputs =>
          rw [lefts_concat]
          simpa using h.leftInputs.grow (B.grows _ _ _ hright)
        case rightInputs => rw [rights_concat]; exact h.rightInputs.read_on hd
      · cases hstep

theorem joinedAt_nil {l₀ : σ} {r₀ : τ} : JoinedAt A B l₀ r₀ [] ⟨l₀, r₀, 0, 0⟩ where
  left := rfl
  right := rfl
  leftInputs := ⟨by simp [lefts, Side.inputs], Nat.zero_le _⟩
  rightInputs := ⟨by simp [rights, Side.inputs], Nat.zero_le _⟩

/-- A run of two sides is a run of each, and what one took in is a beginning
of what the other has written. -/
theorem joined_run {l₀ : σ} {r₀ : τ} {es : List (ε ⊕ δ)} {s : Joined σ τ}
    (hg : Guarded (joinedStep A B) (Delivers A B) ⟨l₀, r₀, 0, 0⟩ es)
    (hrun : run (joinedStep A B) ⟨l₀, r₀, 0, 0⟩ es = .ok s) : JoinedAt A B l₀ r₀ es s :=
  guarded_history (JoinedAt A B l₀ r₀) joinedAt_nil (fun _ _ _ _ => joinedAt_step) hg hrun

/-! ### Schedules -/

/-- Whose turn it is: a side handles an event of its own, or takes in the
next message. -/
inductive Turn (ε δ ι ω : Type) where
  | left (e : ε)
  | right (e : δ)
  | toLeft (take : ι → ε)
  | toRight (take : ω → δ)

def Turn.Fair (A : Side σ ε φ ι ω) (B : Side τ δ ψ ω ι) : Turn ε δ ι ω → Prop
  | .left e => A.input e = none
  | .right e => B.input e = none
  | .toLeft take => ∀ m, A.input (take m) = some m
  | .toRight take => ∀ m, B.input (take m) = some m

/-- The event of a turn; there is none when nothing is to be read. -/
def Turn.event (A : Side σ ε φ ι ω) (B : Side τ δ ψ ω ι) (s : Joined σ τ) :
    Turn ε δ ι ω → Option (ε ⊕ δ)
  | .left e => some (.inl e)
  | .right e => some (.inr e)
  | .toLeft take => (B.written s.right)[s.leftRead]?.map fun m => .inl (take m)
  | .toRight take => (A.written s.left)[s.rightRead]?.map fun m => .inr (take m)

/-- Take turns, and note the events. -/
def drive (A : Side σ ε φ ι ω) (B : Side τ δ ψ ω ι) :
    Joined σ τ → List (Turn ε δ ι ω) → Option (List (ε ⊕ δ) × Joined σ τ)
  | s, [] => some ([], s)
  | s, turn :: turns =>
      match turn.event A B s with
      | none => drive A B s turns
      | some e =>
          match joinedStep A B s e with
          | .error _ => none
          | .ok s' => (drive A B s' turns).map fun p => (e :: p.1, p.2)

theorem Turn.delivers {s : Joined σ τ} {turn : Turn ε δ ι ω} {e : ε ⊕ δ} (h : turn.Fair A B)
    (he : turn.event A B s = some e) : Delivers A B s e := by
  cases turn with
  | left e' =>
      cases he
      intro m hm
      exact absurd hm (by simp [show A.input e' = none from h])
  | right e' =>
      cases he
      intro m hm
      exact absurd hm (by simp [show B.input e' = none from h])
  | toLeft take =>
      obtain ⟨m', hread, rfl⟩ := Option.map_eq_some_iff.mp he
      intro m hm
      rw [hread, ← hm, h m']
  | toRight take =>
      obtain ⟨m', hread, rfl⟩ := Option.map_eq_some_iff.mp he
      intro m hm
      rw [hread, ← hm, h m']

/-- What a schedule does is a run in which every message is delivered. -/
theorem drive_run {s s' : Joined σ τ} {turns : List (Turn ε δ ι ω)} {es : List (ε ⊕ δ)}
    (hfair : ∀ turn ∈ turns, turn.Fair A B) (h : drive A B s turns = some (es, s')) :
    Guarded (joinedStep A B) (Delivers A B) s es ∧ run (joinedStep A B) s es = .ok s' := by
  induction turns generalizing s es with
  | nil =>
      cases h
      exact ⟨trivial, rfl⟩
  | cons turn turns ih =>
      have ih := fun s es => @ih s es fun t ht => hfair t (List.mem_cons_of_mem turn ht)
      simp only [drive] at h
      split at h
      · exact ih s es h
      · next e he =>
        split at h
        · cases h
        · next t ht =>
          obtain ⟨⟨rest, t'⟩, hrest, heq⟩ := Option.map_eq_some_iff.mp h
          cases heq
          obtain ⟨hg, hrun⟩ := ih t rest hrest
          refine ⟨.cons (Turn.delivers (hfair turn List.mem_cons_self) he) ht hg, ?_⟩
          rw [run_cons ht, hrun]

end

/-- Two places of a list with the same key among the values a function picks
are the same place, if the keys there are distinct. -/
theorem eq_of_filterMap_key {α β κ : Type} {f : α → Option β} {key : β → κ} {l : List α}
    (h : ((l.filterMap f).map key).Nodup) {i j : ℕ} {a a' : α} {b b' : β} (hi : l[i]? = some a)
    (hj : l[j]? = some a') (ha : f a = some b) (ha' : f a' = some b') (hkey : key b = key b') :
    i = j := by
  rw [List.Nodup, List.pairwise_map, List.pairwise_filterMap] at h
  obtain ⟨hilt, rfl⟩ := List.getElem?_eq_some_iff.mp hi
  obtain ⟨hjlt, rfl⟩ := List.getElem?_eq_some_iff.mp hj
  have hpair := List.pairwise_iff_getElem.mp h
  rcases Nat.lt_trichotomy i j with hlt | heq | hgt
  · exact absurd hkey (hpair i j hilt hjlt hlt b ha b' ha')
  · exact heq
  · exact absurd hkey.symm (hpair j i hjlt hilt hgt b' ha' b ha)

end Owsd
