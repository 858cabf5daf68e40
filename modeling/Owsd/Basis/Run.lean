import Mathlib.Tactic.Common

/-!
Runs of a step function that may fault.

A machine is a function that handles one event: it yields the next state, or
a fault when the handler does something undefined. A run handles a list of
events and stops at the first fault. Two rules are most of what is used of this
later: an invariant that each step keeps holds after every run
(`run_invariant`), and a run that ends in a fault reached a state from which
a single step faults (`run_error`). Both come with a guard on the steps, so
that a run can be restricted to those in which some event never meets some
state. For what a state has to do with the events that led to it, there is an
invariant rule over the events so far (`run_history`).

A history is a list of past happenings, newest first. `Each Q` says of every
entry that it stands in relation `Q` to what had happened before it.
-/

namespace Owsd

theorem bind_ok {α β ε : Type} {x : Except ε α} {f : α → Except ε β} {b : β}
    (h : x >>= f = .ok b) : ∃ a, x = .ok a ∧ f a = .ok b := by
  cases x with
  | error e => cases h
  | ok a => exact ⟨a, rfl, h⟩

variable {σ ε φ : Type*}

section
variable (step : σ → ε → Except φ σ)

def run : σ → List ε → Except φ σ
  | s, [] => .ok s
  | s, e :: es =>
      match step s e with
      | .ok s' => run s' es
      | .error f => .error f

/-- Every step of the run from `s` over the events meets the guard. -/
def Guarded (guard : σ → ε → Prop) : σ → List ε → Prop
  | _, [] => True
  | s, e :: es => guard s e ∧ ∀ s', step s e = .ok s' → Guarded guard s' es

end

variable {step : σ → ε → Except φ σ} {guard : σ → ε → Prop}

theorem run_cons_ok {s s' : σ} {e : ε} {es : List ε} (h : run step s (e :: es) = .ok s') :
    ∃ t, step s e = .ok t ∧ run step t es = .ok s' := by
  simp only [run] at h
  split at h
  · next t ht => exact ⟨t, ht, h⟩
  · cases h

theorem run_cons {s t : σ} {e : ε} (h : step s e = .ok t) (es : List ε) :
    run step s (e :: es) = run step t es := by
  simp [run, h]

theorem run_append {s t : σ} {es : List ε} (h : run step s es = .ok t) (es' : List ε) :
    run step s (es ++ es') = run step t es' := by
  induction es generalizing s with
  | nil =>
      obtain rfl : s = t := by simpa [run] using h
      rfl
  | cons e es ih =>
      obtain ⟨u, hu, hrest⟩ := run_cons_ok h
      rw [List.cons_append, run_cons hu, ih hrest]

theorem Guarded.cons {s t : σ} {e : ε} {es : List ε} (hg : guard s e) (h : step s e = .ok t)
    (ht : Guarded step guard t es) : Guarded step guard s (e :: es) := by
  refine ⟨hg, fun s' hs' => ?_⟩
  obtain rfl : t = s' := by simpa [h] using hs'
  exact ht

theorem guarded_of_forall {es : List ε} (h : ∀ e ∈ es, ∀ s, guard s e) (s : σ) :
    Guarded step guard s es := by
  induction es generalizing s with
  | nil => trivial
  | cons e es ih =>
      refine ⟨h e List.mem_cons_self s, fun s' _ => ih (fun d hd => ?_) s'⟩
      exact h d (List.mem_cons_of_mem e hd)

/-- What every guarded step keeps holds at the end of every guarded run. -/
theorem run_invariant (inv : σ → Prop)
    (hstep : ∀ s e s', inv s → guard s e → step s e = .ok s' → inv s')
    {s s' : σ} {es : List ε} (hs : inv s) (hg : Guarded step guard s es)
    (hrun : run step s es = .ok s') : inv s' := by
  induction es generalizing s with
  | nil =>
      obtain rfl : s = s' := by simpa [run] using hrun
      exact hs
  | cons e es ih =>
      obtain ⟨t, ht, hrest⟩ := run_cons_ok hrun
      exact ih (hstep s e t hs hg.1 ht) (hg.2 t ht) hrest

/-- The rule for invariants that need no guard. -/
theorem run_invariant_of_step (inv : σ → Prop)
    (hstep : ∀ s e s', inv s → step s e = .ok s' → inv s')
    {s s' : σ} {es : List ε} (hs : inv s) (hrun : run step s es = .ok s') : inv s' :=
  run_invariant inv (fun s e s' hi _ h => hstep s e s' hi h) hs
    (guarded_of_forall (fun _ _ _ => trivial) s) hrun

/-- The rule for invariants that speak of the events so far. -/
theorem run_history (inv : List ε → σ → Prop) {s₀ : σ} (hinit : inv [] s₀)
    (hstep : ∀ es s e s', run step s₀ es = .ok s → inv es s → step s e = .ok s' →
      inv (es ++ [e]) s')
    {es : List ε} {s : σ} (hrun : run step s₀ es = .ok s) : inv es s := by
  -- The run is taken apart from its first event on; `past` is what was taken off.
  have hrest : ∀ rest past t, run step s₀ past = .ok t → inv past t →
      run step t rest = .ok s → inv (past ++ rest) s := by
    intro rest
    induction rest with
    | nil =>
        intro past t _ hi h
        obtain rfl : t = s := by simpa [run] using h
        simpa using hi
    | cons e rest ih =>
        intro past t hpast hi h
        obtain ⟨u, hu, hrest⟩ := run_cons_ok h
        have hpast' : run step s₀ (past ++ [e]) = .ok u := by
          rw [run_append hpast, run_cons hu]
          rfl
        have := ih (past ++ [e]) u hpast' (hstep past t e u hpast hi hu) hrest
        simpa using this
  exact hrest es [] s₀ rfl hinit hrun

theorem guarded_history (inv : List ε → σ → Prop) {s₀ : σ} (hinit : inv [] s₀)
    (hstep : ∀ es s e s', inv es s → guard s e → step s e = .ok s' → inv (es ++ [e]) s')
    {es : List ε} {s : σ} (hg : Guarded step guard s₀ es) (hrun : run step s₀ es = .ok s) :
    inv es s := by
  have hrest : ∀ rest past t, inv past t → Guarded step guard t rest →
      run step t rest = .ok s → inv (past ++ rest) s := by
    intro rest
    induction rest with
    | nil =>
        intro past t hi _ h
        obtain rfl : t = s := by simpa [run] using h
        simpa using hi
    | cons e rest ih =>
        intro past t hi hg h
        obtain ⟨u, hu, hrest⟩ := run_cons_ok h
        have := ih (past ++ [e]) u (hstep past t e u hi hg.1 hu) (hg.2 u hu) hrest
        simpa using this
  exact hrest es [] s₀ hinit hg hrun

/-- A guarded run that faults does so in one step, from a state that a
guarded run reaches and at an event that meets the guard there. -/
theorem run_error {s : σ} {es : List ε} {f : φ} (hg : Guarded step guard s es)
    (h : run step s es = .error f) :
    ∃ pre e post t, es = pre ++ e :: post ∧ Guarded step guard s pre ∧
      run step s pre = .ok t ∧ guard t e ∧ step t e = .error f := by
  induction es generalizing s with
  | nil => cases h
  | cons e es ih =>
      cases hstep : step s e with
      | error f' =>
          obtain rfl : f' = f := by simpa [run, hstep] using h
          exact ⟨[], e, es, s, rfl, trivial, rfl, hg.1, hstep⟩
      | ok s' =>
          have hrest : run step s' es = .error f := by simpa [run, hstep] using h
          obtain ⟨pre, e', post, t, rfl, hgpre, hpre, hge, hfault⟩ := ih (hg.2 s' hstep) hrest
          refine ⟨e :: pre, e', post, t, rfl, ⟨hg.1, fun s'' hs'' => ?_⟩, ?_, hge, hfault⟩
          · obtain rfl : s' = s'' := by simpa [hstep] using hs''
            exact hgpre
          · simpa [run, hstep] using hpre

/-! ### Histories -/

variable {α : Type*}

/-- Every entry stands in relation `Q` to the entries before it. The newest
entry is the head of the list. -/
def Each (Q : List α → α → Prop) : List α → Prop
  | [] => True
  | a :: past => Q past a ∧ Each Q past

theorem Each.append {Q : List α → α → Prop} {log : List α} (h : Each Q log) (new : List α)
    (hnew : ∀ a ∈ new, ∀ past, Q past a) : Each Q (new ++ log) := by
  induction new with
  | nil => exact h
  | cons a new ih =>
      exact ⟨hnew a List.mem_cons_self _, ih fun b hb => hnew b (List.mem_cons_of_mem a hb)⟩

theorem Each.at {Q : List α → α → Prop} {log later past : List α} {a : α} (h : Each Q log)
    (hlog : log = later ++ a :: past) : Q past a := by
  subst hlog
  induction later with
  | nil => exact h.1
  | cons b later ih => exact ih h.2

/-- After the events of `past`, the event `e` brings the entry `a` into the
history. -/
def Adds (step : σ → ε → Except φ σ) (log : σ → List α) (s₀ : σ) (past : List ε) (e : ε)
    (a : α) : Prop :=
  ∃ s s', run step s₀ past = .ok s ∧ step s e = .ok s' ∧ a ∉ log s ∧ a ∈ log s'

theorem adds_of_mem {log : σ → List α} {s₀ s : σ} {es : List ε} {a : α} (hnew : a ∉ log s₀)
    (hrun : run step s₀ es = .ok s) (ha : a ∈ log s) :
    ∃ past e rest, es = past ++ e :: rest ∧ Adds step log s₀ past e a := by
  refine run_history (fun es s => a ∈ log s →
    ∃ past e rest, es = past ++ e :: rest ∧ Adds step log s₀ past e a) ?_ ?_ hrun ha
  · exact fun hmem => absurd hmem hnew
  · intro es s e s' hpast ih hstep hmem
    by_cases hold : a ∈ log s
    · obtain ⟨past, e', rest, rfl, hadds⟩ := ih hold
      exact ⟨past, e', rest ++ [e], by simp, hadds⟩
    · exact ⟨es, e, [], rfl, s, s', hpast, hstep, hold, hmem⟩

end Owsd
