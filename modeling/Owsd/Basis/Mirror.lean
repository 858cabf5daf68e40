import Mathlib.Data.List.Nodup
import Mathlib.Logic.Function.Basic
import Mathlib.Logic.Relation
import Mathlib.Tactic.Common

/-!
A replica that follows a set of items elsewhere.

The source of the items announces every change by a notice, in order and some
time later, and answers a request with a snapshot of what it has. On a notice
that something was added the replica makes a request, and it waits for the
answer to its last request only. From a snapshot it takes what is there, and
never deletes on account of one; it deletes on a notice that something was
removed. Messages come in the order in which they are sent, both ways.

Once everything has arrived, the replica has exactly the items of the source
that it wants (`converged`).
-/

namespace Owsd.Mirror

variable {ν σ ι : Type*}

inductive Notice (ν : Type*) where
  | added (x : ν)
  | removed (x : ν)

inductive Message (ν σ ι : Type*) where
  /-- The replica may begin. -/
  | hello
  | notice (n : Notice ν)
  | snapshot (id : ι) (items : ν → Option σ)

/-- The source, the replica and what is under way between them. -/
@[ext] structure State (ν σ ι : Type*) where
  source : ν → Option σ
  /-- Changes that were not announced yet. -/
  pending : List (Notice ν)
  inbox : List (Message ν σ ι)
  /-- Requests to the source. -/
  outbox : List ι
  /-- All requests so far. -/
  asked : List ι
  awaited : Option ι
  replica : ν → Option σ

/-- What the replica has after it took a snapshot. -/
def adopt (wants : ν → Bool) (replica items : ν → Option σ) (x : ν) : Option σ :=
  match items x with
  | some v => if wants x then some v else replica x
  | none => replica x

section

variable [DecidableEq ν] (wants : ν → Bool)

def State.ask (s : State ν σ ι) (rest : List (Message ν σ ι)) (id : ι) : State ν σ ι :=
  { s with
    inbox := rest
    outbox := s.outbox ++ [id]
    asked := s.asked ++ [id]
    awaited := some id }

/-- One step of the source, of the replica or of a message. -/
inductive Step : State ν σ ι → State ν σ ι → Prop
  | add (s : State ν σ ι) (x : ν) (v : σ) : s.source x = none →
      Step s { s with
        source := Function.update s.source x (some v)
        pending := s.pending ++ [.added x] }
  | remove (s : State ν σ ι) (x : ν) : s.source x ≠ none →
      Step s { s with
        source := Function.update s.source x none
        pending := s.pending ++ [.removed x] }
  | announce (s : State ν σ ι) (n : Notice ν) (rest : List (Notice ν)) :
      s.pending = n :: rest →
      Step s { s with pending := rest, inbox := s.inbox ++ [.notice n] }
  | answer (s : State ν σ ι) (id : ι) (rest : List ι) : s.outbox = id :: rest →
      Step s { s with outbox := rest, inbox := s.inbox ++ [.snapshot id s.source] }
  | hello (s : State ν σ ι) (id : ι) (rest : List (Message ν σ ι)) :
      s.inbox = .hello :: rest → id ∉ s.asked → Step s (s.ask rest id)
  | added (s : State ν σ ι) (id : ι) (x : ν) (rest : List (Message ν σ ι)) :
      s.inbox = .notice (.added x) :: rest → id ∉ s.asked → Step s (s.ask rest id)
  | removed (s : State ν σ ι) (x : ν) (rest : List (Message ν σ ι)) :
      s.inbox = .notice (.removed x) :: rest →
      Step s { s with inbox := rest, replica := Function.update s.replica x none }
  | adopted (s : State ν σ ι) (id : ι) (items : ν → Option σ) (rest : List (Message ν σ ι)) :
      s.inbox = .snapshot id items :: rest → s.awaited = some id →
      Step s { s with
        inbox := rest
        awaited := none
        replica := adopt wants s.replica items }
  | ignored (s : State ν σ ι) (id : ι) (items : ν → Option σ) (rest : List (Message ν σ ι)) :
      s.inbox = .snapshot id items :: rest → s.awaited ≠ some id →
      Step s { s with inbox := rest }

end

structure Initial (s : State ν σ ι) : Prop where
  pending : s.pending = []
  inbox : s.inbox = [.hello]
  outbox : s.outbox = []
  awaited : s.awaited = none
  replica : ∀ x, s.replica x = none

/-! ### What is under way -/

def Message.notice? : Message ν σ ι → Option (Notice ν)
  | .notice n => some n
  | _ => none

def Message.answers : Message ν σ ι → Option ι
  | .snapshot id _ => some id
  | _ => none

def notices (inbox : List (Message ν σ ι)) : List (Notice ν) := inbox.filterMap Message.notice?

def answered (inbox : List (Message ν σ ι)) : List ι := inbox.filterMap Message.answers

section

variable {n : Notice ν} {id : ι} {items : ν → Option σ} {inbox inbox' : List (Message ν σ ι)}

@[simp] theorem notices_append : notices (inbox ++ inbox') = notices inbox ++ notices inbox' :=
  List.filterMap_append

@[simp] theorem notices_nil : notices ([] : List (Message ν σ ι)) = [] := rfl

@[simp] theorem notices_hello : notices (.hello :: inbox) = notices inbox := rfl

@[simp] theorem notices_notice : notices (.notice n :: inbox) = n :: notices inbox := rfl

@[simp] theorem notices_snapshot : notices (.snapshot id items :: inbox) = notices inbox := rfl

@[simp] theorem answered_append :
    answered (inbox ++ inbox') = answered inbox ++ answered inbox' := List.filterMap_append

@[simp] theorem answered_nil : answered ([] : List (Message ν σ ι)) = [] := rfl

@[simp] theorem answered_hello : answered (.hello :: inbox) = answered inbox := rfl

@[simp] theorem answered_notice : answered (.notice n :: inbox) = answered inbox := rfl

@[simp] theorem answered_snapshot : answered (.snapshot id items :: inbox) = id :: answered inbox :=
  rfl

theorem mem_answered (h : .snapshot id items ∈ inbox) : id ∈ answered inbox :=
  List.mem_filterMap.mpr ⟨_, h, rfl⟩

end

/-- The changes that the replica has yet to hear of, in order. -/
def State.news (s : State ν σ ι) : List (Notice ν) := notices s.inbox ++ s.pending

/-- What is missing in the replica will come: with the first request, by a
notice, or with the answer that is awaited. -/
def Expected (s : State ν σ ι) (x : ν) (v : σ) : Prop :=
  .hello ∈ s.inbox ∨ .added x ∈ s.news ∨
    ∃ id, s.awaited = some id ∧
      (id ∈ s.outbox ∨ ∃ items, .snapshot id items ∈ s.inbox ∧ items x = some v)

/-- What ties the replica to the source at any time. -/
structure Tied (wants : ν → Bool) (s : State ν σ ι) : Prop where
  /-- What is there now was added after it was last removed. -/
  readded : ∀ x, s.source x ≠ none → ∀ pre post, s.news = pre ++ .removed x :: post →
    .added x ∈ post
  /-- A notice is under way for what the replica should not have. -/
  stale : ∀ x v, s.replica x = some v → s.source x ≠ some v → .removed x ∈ s.news
  /-- And one behind each snapshot, for what it should not have. -/
  outdated : ∀ pre id items post, s.inbox = pre ++ .snapshot id items :: post →
    ∀ x v, items x = some v → s.source x ≠ some v → .removed x ∈ notices post ++ s.pending
  missing : ∀ x v, wants x = true → s.source x = some v → s.replica x ≠ some v → Expected s x v
  wanted : ∀ x, s.replica x ≠ none → wants x = true
  /-- No request is answered twice. -/
  once : (s.outbox ++ answered s.inbox).Nodup
  asked : ∀ id ∈ s.outbox ++ answered s.inbox, id ∈ s.asked
  awaiting : ∀ id, s.awaited = some id → id ∈ s.outbox ++ answered s.inbox

section

variable {wants : ν → Bool} {s s' : State ν σ ι}

theorem split_concat {α : Type*} {l pre post : List α} {a b : α}
    (h : l ++ [b] = pre ++ a :: post) :
    (∃ post', post = post' ++ [b] ∧ l = pre ++ a :: post') ∨ (b = a ∧ l = pre ∧ post = []) := by
  rcases List.eq_nil_or_concat post with rfl | ⟨post', c, rfl⟩
  · obtain ⟨hl, hb⟩ := List.append_inj' h rfl
    exact .inr ⟨by simpa using hb, hl, rfl⟩
  · rw [List.concat_eq_append, ← List.cons_append, ← List.append_assoc] at h
    obtain ⟨hl, hb⟩ := List.append_inj' h rfl
    obtain rfl : b = c := by simpa using hb
    exact .inl ⟨post', List.concat_eq_append, hl⟩

/-- What is expected is still so when nothing under way got lost. -/
theorem Expected.mono {x : ν} {v : σ} (h : Expected s x v)
    (hinbox : ∀ m ∈ s.inbox, m ∈ s'.inbox) (hnews : ∀ n ∈ s.news, n ∈ s'.news)
    (hawaited : s'.awaited = s.awaited)
    (hopen : ∀ id ∈ s.outbox,
      id ∈ s'.outbox ∨ ∃ items, .snapshot id items ∈ s'.inbox ∧ items x = some v) :
    Expected s' x v := by
  rcases h with hhello | hadded | ⟨id, hid, hout | ⟨items, hmem, hitem⟩⟩
  · exact .inl (hinbox _ hhello)
  · exact .inr (.inl (hnews _ hadded))
  · exact .inr (.inr ⟨id, hawaited.trans hid, hopen id hout⟩)
  · exact .inr (.inr ⟨id, hawaited.trans hid, .inr ⟨items, hinbox _ hmem, hitem⟩⟩)

theorem tied_initial (h : Initial s) : Tied wants s where
  readded := by simp [State.news, h.inbox, h.pending]
  stale := by simp [h.replica]
  outdated := by
    intro pre id items post hsplit
    rw [h.inbox] at hsplit
    rcases List.cons_eq_append_iff.mp hsplit with ⟨-, hcons⟩ | ⟨pre', -, hnil⟩
    · cases hcons
    · simp at hnil
  missing := fun x v _ _ _ => .inl (by simp [h.inbox])
  wanted := by simp [h.replica]
  once := by simp [h.inbox, h.outbox]
  asked := by simp [h.inbox, h.outbox]
  awaiting := by simp [h.awaited]

/-! ### Changes of the source -/

/-- One more change is to be announced, of an item that is not the one in
question or was just added. -/
theorem readded_concat {news : List (Notice ν)} {n : Notice ν} {x : ν}
    (h : (∀ pre post, news = pre ++ .removed x :: post → .added x ∈ post) ∨ n = .added x)
    (hn : n ≠ .removed x) :
    ∀ pre post, news ++ [n] = pre ++ .removed x :: post → .added x ∈ post := by
  intro pre post hsplit
  rcases split_concat hsplit with ⟨post', rfl, hnews⟩ | ⟨heq, -, -⟩
  · rcases h with h | rfl
    · exact List.mem_append_left _ (h pre post' hnews)
    · exact List.mem_append_right _ (List.mem_singleton_self _)
  · exact absurd heq hn

variable [DecidableEq ν]

theorem tied_add (h : Tied wants s) {x : ν} {v : σ} (hx : s.source x = none) :
    Tied wants { s with
      source := Function.update s.source x (some v)
      pending := s.pending ++ [.added x] } := by
  -- whatever else there is of the item is known to be removed
  have hsource : ∀ y w, Function.update s.source x (some v) y ≠ some w → s.source y ≠ some w := by
    intro y w hne heq
    by_cases hy : y = x
    · rw [hy, hx] at heq
      cases heq
    · exact hne (by rwa [Function.update_of_ne hy])
  have hnews : State.news { s with pending := s.pending ++ [.added x] } = s.news ++ [.added x] :=
    (List.append_assoc _ _ _).symm
  constructor
  · intro y (hy : Function.update s.source x (some v) y ≠ none)
    refine hnews ▸ readded_concat ?_ (by simp)
    by_cases hyx : y = x
    · exact .inr (by rw [hyx])
    · exact .inl (h.readded y (by rwa [Function.update_of_ne hyx] at hy))
  · intro y w hr hne
    exact hnews ▸ List.mem_append_left _ (h.stale y w hr (hsource y w hne))
  · intro pre id items post hsplit y w hitem hne
    rw [← List.append_assoc]
    exact List.mem_append_left _ (h.outdated pre id items post hsplit y w hitem (hsource y w hne))
  · intro y w hw (hs : Function.update s.source x (some v) y = some w) hr
    by_cases hyx : y = x
    · refine .inr (.inl (hnews ▸ List.mem_append_right _ ?_))
      rw [hyx]
      exact List.mem_singleton_self _
    · rw [Function.update_of_ne hyx] at hs
      exact (h.missing y w hw hs hr).mono (fun _ hm => hm)
        (fun _ hn => hnews ▸ List.mem_append_left _ hn) rfl fun _ hid => .inl hid
  · exact h.wanted
  · exact h.once
  · exact h.asked
  · exact h.awaiting

theorem tied_remove (h : Tied wants s) {x : ν} :
    Tied wants { s with
      source := Function.update s.source x none
      pending := s.pending ++ [.removed x] } := by
  have hnews : State.news { s with pending := s.pending ++ [.removed x] } =
      s.news ++ [.removed x] := (List.append_assoc _ _ _).symm
  have hlast : ∀ {l : List (Notice ν)}, .removed x ∈ l ++ [.removed x] :=
    List.mem_append_right _ (List.mem_singleton_self _)
  constructor
  · intro y (hy : Function.update s.source x none y ≠ none)
    have hyx : y ≠ x := by
      rintro rfl
      simp at hy
    rw [Function.update_of_ne hyx] at hy
    refine hnews ▸ readded_concat (.inl (h.readded y hy)) ?_
    simpa using Ne.symm hyx
  · intro y w hr (hne : Function.update s.source x none y ≠ some w)
    refine hnews ▸ ?_
    by_cases hyx : y = x
    · rw [hyx]
      exact hlast
    · rw [Function.update_of_ne hyx] at hne
      exact List.mem_append_left _ (h.stale y w hr hne)
  · intro pre id items post hsplit y w hitem (hne : Function.update s.source x none y ≠ some w)
    rw [← List.append_assoc]
    by_cases hyx : y = x
    · rw [hyx]
      exact hlast
    · rw [Function.update_of_ne hyx] at hne
      exact List.mem_append_left _ (h.outdated pre id items post hsplit y w hitem hne)
  · intro y w hw (hs : Function.update s.source x none y = some w) hr
    have hyx : y ≠ x := by
      rintro rfl
      simp at hs
    rw [Function.update_of_ne hyx] at hs
    exact (h.missing y w hw hs hr).mono (fun _ hm => hm)
      (fun _ hn => hnews ▸ List.mem_append_left _ hn) rfl fun _ hid => .inl hid
  · exact h.wanted
  · exact h.once
  · exact h.asked
  · exact h.awaiting

end

/-! ### Messages of the source -/

section

variable {wants : ν → Bool} {s s' : State ν σ ι}

theorem tied_announce (h : Tied wants s) {n : Notice ν} {rest : List (Notice ν)}
    (hpending : s.pending = n :: rest) :
    Tied wants { s with pending := rest, inbox := s.inbox ++ [.notice n] } := by
  -- the notice is under way as before
  have hnews : State.news { s with pending := rest, inbox := s.inbox ++ [.notice n] } = s.news := by
    simp [State.news, hpending]
  have hanswered : answered (s.inbox ++ [.notice n]) = answered s.inbox := by simp
  constructor
  · exact hnews ▸ h.readded
  · exact hnews ▸ h.stale
  · intro pre id items post hsplit y w hitem hne
    rcases split_concat hsplit with ⟨post', rfl, hinbox⟩ | ⟨heq, -, -⟩
    · have := h.outdated pre id items post' hinbox y w hitem hne
      simpa [hpending] using this
    · cases heq
  · intro y w hw hs hr
    exact (h.missing y w hw hs hr).mono (fun _ hm => List.mem_append_left _ hm)
      (fun _ hn => hnews ▸ hn) rfl fun _ hid => .inl hid
  · exact h.wanted
  · exact hanswered ▸ h.once
  · exact hanswered ▸ h.asked
  · exact hanswered ▸ h.awaiting

theorem tied_answer (h : Tied wants s) {id : ι} {rest : List ι} (houtbox : s.outbox = id :: rest) :
    Tied wants { s with outbox := rest, inbox := s.inbox ++ [.snapshot id s.source] } := by
  have hnews : State.news { s with outbox := rest, inbox := s.inbox ++ [.snapshot id s.source] } =
      s.news := by simp [State.news]
  have hperm : (rest ++ answered (s.inbox ++ [Message.snapshot id s.source])).Perm
      (s.outbox ++ answered s.inbox) := by
    rw [houtbox, answered_append, ← List.append_assoc]
    exact List.perm_append_singleton id _
  constructor
  · exact hnews ▸ h.readded
  · exact hnews ▸ h.stale
  · intro pre i items post hsplit y w hitem hne
    rcases split_concat hsplit with ⟨post', rfl, hinbox⟩ | ⟨heq, -, -⟩
    · simpa using h.outdated pre i items post' hinbox y w hitem hne
    · -- the new snapshot is up to date
      cases heq
      exact absurd hitem hne
  · intro y w hw hs hr
    refine (h.missing y w hw hs hr).mono (fun _ hm => List.mem_append_left _ hm)
      (fun _ hn => hnews ▸ hn) rfl fun i hi => ?_
    rw [houtbox] at hi
    rcases List.mem_cons.mp hi with rfl | hi
    · exact .inr ⟨s.source, List.mem_append_right _ (List.mem_singleton_self _), hs⟩
    · exact .inl hi
  · exact h.wanted
  · exact hperm.nodup_iff.mpr h.once
  · intro i hi
    exact h.asked i (hperm.mem_iff.mp hi)
  · intro i hi
    exact hperm.mem_iff.mpr (h.awaiting i hi)

/-! ### Messages at the replica -/

/-- What is left of the news after the first message is as it was. -/
theorem Tied.readded_tail (h : Tied wants s) {n : Notice ν} {news : List (Notice ν)}
    (hnews : s.news = n :: news) {x : ν} (hx : s.source x ≠ none) {pre post : List (Notice ν)}
    (hsplit : news = pre ++ .removed x :: post) : .added x ∈ post :=
  h.readded x hx (n :: pre) post (by rw [hnews, hsplit, List.cons_append])

theorem Tied.outdated_tail (h : Tied wants s) {m : Message ν σ ι} {rest : List (Message ν σ ι)}
    (hinbox : s.inbox = m :: rest) {pre post : List (Message ν σ ι)} {id : ι}
    {items : ν → Option σ} (hsplit : rest = pre ++ .snapshot id items :: post) {x : ν} {v : σ}
    (hitem : items x = some v) (hne : s.source x ≠ some v) :
    .removed x ∈ notices post ++ s.pending :=
  h.outdated (m :: pre) id items post (by rw [hinbox, hsplit, List.cons_append]) x v hitem hne

/-- A request, on a message that is neither an answer nor says that something
was removed. -/
theorem tied_ask (h : Tied wants s) {id : ι} {m : Message ν σ ι} {rest : List (Message ν σ ι)}
    (hinbox : s.inbox = m :: rest) (hm : m = .hello ∨ ∃ x, m = .notice (.added x))
    (hid : id ∉ s.asked) : Tied wants (s.ask rest id) := by
  have hanswered : answered rest = answered s.inbox := by
    rcases hm with rfl | ⟨x, rfl⟩ <;> simp [hinbox]
  have hnews : (s.ask rest id).news = s.news ∨ ∃ x, s.news = .added x :: (s.ask rest id).news := by
    rcases hm with rfl | ⟨x, rfl⟩
    · exact .inl (by simp [State.news, State.ask, hinbox])
    · exact .inr ⟨x, by simp [State.news, State.ask, hinbox]⟩
  have hperm : ((s.ask rest id).outbox ++ answered rest).Perm
      (id :: (s.outbox ++ answered s.inbox)) := by
    rw [hanswered, State.ask, List.append_assoc]
    exact List.perm_middle
  constructor
  · intro x hx pre post hsplit
    rcases hnews with hnews | ⟨y, hnews⟩
    · exact h.readded x hx pre post (hnews ▸ hsplit)
    · exact h.readded_tail hnews hx hsplit
  · intro x v hr hne
    have hmem := h.stale x v hr hne
    rcases hnews with hnews | ⟨y, hnews⟩
    · exact hnews ▸ hmem
    · simpa [hnews] using hmem
  · intro pre i items post hsplit x v hitem hne
    exact h.outdated_tail hinbox hsplit hitem hne
  · intro x v _ _ _
    -- whatever is missing, the answer to this request will have it
    exact .inr (.inr ⟨id, rfl, .inl (List.mem_append_right _ (List.mem_singleton_self _))⟩)
  · exact h.wanted
  · refine hperm.nodup_iff.mpr (List.nodup_cons.mpr ⟨fun hmem => hid (h.asked id hmem), h.once⟩)
  · intro i hi
    rcases List.mem_cons.mp (hperm.mem_iff.mp hi) with rfl | hi
    · exact List.mem_append_right _ (List.mem_singleton_self _)
    · exact List.mem_append_left _ (h.asked i hi)
  · intro i hi
    cases hi
    exact hperm.mem_iff.mpr List.mem_cons_self

/-- What is expected is still so after a message that is no part of it. -/
theorem Expected.tail {m : Message ν σ ι} {rest : List (Message ν σ ι)} {x : ν} {v : σ}
    {replica : ν → Option σ} (h : Expected s x v) (hinbox : s.inbox = m :: rest)
    (hhello : m ≠ .hello) (hadded : m ≠ .notice (.added x))
    (hsnapshot : ∀ id items, s.awaited = some id → m ≠ .snapshot id items) :
    Expected { s with inbox := rest, replica := replica } x v := by
  rcases h with h | h | ⟨id, hid, h⟩
  · rw [hinbox] at h
    exact .inl ((List.mem_cons.mp h).resolve_left (Ne.symm hhello))
  · refine .inr (.inl ?_)
    rw [State.news, hinbox] at h
    cases m with
    | hello => exact absurd rfl hhello
    | notice n =>
        rw [notices_notice, List.cons_append] at h
        refine (List.mem_cons.mp h).resolve_left ?_
        rintro rfl
        exact hadded rfl
    | snapshot id items => exact h
  · refine .inr (.inr ⟨id, hid, h.imp_right ?_⟩)
    rintro ⟨items, hmem, hitem⟩
    rw [hinbox] at hmem
    exact ⟨items, (List.mem_cons.mp hmem).resolve_left (Ne.symm (hsnapshot id items hid)), hitem⟩

theorem tied_removed [DecidableEq ν] (h : Tied wants s) {x : ν} {rest : List (Message ν σ ι)}
    (hinbox : s.inbox = .notice (.removed x) :: rest) :
    Tied wants { s with inbox := rest, replica := Function.update s.replica x none } := by
  have hnews : s.news = .removed x :: (notices rest ++ s.pending) := by
    simp [State.news, hinbox]
  have hanswered : answered rest = answered s.inbox := by simp [hinbox]
  constructor
  · intro y hy pre post hsplit
    exact h.readded_tail hnews hy hsplit
  · intro y w (hr : Function.update s.replica x none y = some w) hne
    have hyx : y ≠ x := by
      rintro rfl
      simp at hr
    rw [Function.update_of_ne hyx] at hr
    have hmem := h.stale y w hr hne
    rw [hnews] at hmem
    refine (List.mem_cons.mp hmem).resolve_left ?_
    rintro ⟨⟩
    exact hyx rfl
  · intro pre id items post hsplit y w hitem hne
    exact h.outdated_tail hinbox hsplit hitem hne
  · intro y w hw (hs : s.source y = some w) (hr : Function.update s.replica x none y ≠ some w)
    by_cases hyx : y = x
    · -- it is there again, so it was added again
      subst hyx
      exact .inr (.inl (h.readded y (by simp [hs]) [] _ hnews))
    · rw [Function.update_of_ne hyx] at hr
      exact (h.missing y w hw hs hr).tail hinbox (by simp) (by simp) (by simp)
  · intro y (hy : Function.update s.replica x none y ≠ none)
    have hyx : y ≠ x := by
      rintro rfl
      simp at hy
    rw [Function.update_of_ne hyx] at hy
    exact h.wanted y hy
  · exact hanswered ▸ h.once
  · exact hanswered ▸ h.asked
  · exact hanswered ▸ h.awaiting

theorem news_of_snapshot {id : ι} {items : ν → Option σ} {rest : List (Message ν σ ι)}
    (hinbox : s.inbox = .snapshot id items :: rest) : s.news = notices rest ++ s.pending := by
  simp [State.news, hinbox]

theorem Tied.once_head (h : Tied wants s) {id : ι} {items : ν → Option σ}
    {rest : List (Message ν σ ι)} (hinbox : s.inbox = .snapshot id items :: rest) :
    (id ∉ s.outbox ∧ id ∉ answered rest) ∧ (s.outbox ++ answered rest).Nodup := by
  have honce := h.once
  rw [hinbox, answered_snapshot, List.perm_middle.nodup_iff, List.nodup_cons] at honce
  exact ⟨by simpa [not_or] using honce.1, honce.2⟩

/-- What was adopted comes from the answer, or was there before. -/
theorem adopt_cases {replica items : ν → Option σ} {x : ν} {v : σ}
    (h : adopt wants replica items x = some v) :
    items x = some v ∧ wants x = true ∨ replica x = some v := by
  rw [adopt] at h
  split at h
  · next w hitem =>
    split at h
    · next hw => exact .inl ⟨hitem.trans h, hw⟩
    · exact .inr h
  · exact .inr h

/-- What an awaited answer leaves missing comes with a later notice. -/
theorem Tied.missing_adopted (h : Tied wants s) {id : ι} {items : ν → Option σ}
    {rest : List (Message ν σ ι)} (hinbox : s.inbox = .snapshot id items :: rest)
    (hid : s.awaited = some id) {x : ν} {v : σ} (hw : wants x = true)
    (hs : s.source x = some v) (hr : adopt wants s.replica items x ≠ some v) :
    .hello ∈ rest ∨ .added x ∈ notices rest ++ s.pending := by
  have hnews : s.news = notices rest ++ s.pending := news_of_snapshot hinbox
  obtain ⟨⟨hout, hrest⟩, -⟩ := h.once_head hinbox
  rw [adopt] at hr
  cases hitem : items x with
  | none =>
      rw [hitem] at hr
      rcases h.missing x v hw hs hr with hhello | hadded | ⟨i, hi, hopen⟩
      · rw [hinbox] at hhello
        exact .inl ((List.mem_cons.mp hhello).resolve_left (by simp))
      · exact .inr (hnews ▸ hadded)
      · -- this was the answer, and it does not come again
        obtain rfl : id = i := Option.some.inj (hid.symm.trans hi)
        rcases hopen with hopen | ⟨items', hmem, hitem'⟩
        · exact absurd hopen hout
        · rw [hinbox] at hmem
          rcases List.mem_cons.mp hmem with heq | hmem
          · cases heq
            rw [hitem] at hitem'
            cases hitem'
          · exact absurd (mem_answered hmem) hrest
  | some w =>
      simp only [hitem, hw, if_true] at hr
      -- the answer is outdated here: a notice of the removal is behind it, and the item
      -- was added again since
      have hne : s.source x ≠ some w := fun heq => hr (heq ▸ hs)
      have hremoved := h.outdated [] id items rest hinbox x w hitem hne
      obtain ⟨pre, post, hsplit⟩ := List.append_of_mem hremoved
      have hadded := h.readded x (by simp [hs]) pre post (hnews.trans hsplit)
      rw [hsplit]
      exact .inr (List.mem_append_right _ (List.mem_cons_of_mem _ hadded))

theorem tied_adopted (h : Tied wants s) {id : ι} {items : ν → Option σ}
    {rest : List (Message ν σ ι)} (hinbox : s.inbox = .snapshot id items :: rest)
    (hid : s.awaited = some id) :
    Tied wants { s with
      inbox := rest
      awaited := none
      replica := adopt wants s.replica items } := by
  have hnews : s.news = notices rest ++ s.pending := news_of_snapshot hinbox
  have hstale : ∀ y w, s.replica y = some w → s.source y ≠ some w →
      .removed y ∈ notices rest ++ s.pending := hnews ▸ h.stale
  constructor
  · exact fun y hy pre post hsplit => h.readded y hy pre post (hnews ▸ hsplit)
  · intro y w hr hne
    rcases adopt_cases hr with ⟨hitem, -⟩ | hold
    · exact h.outdated [] id items rest hinbox y w hitem hne
    · exact hstale y w hold hne
  · intro pre i items' post hsplit y w hitem hne
    exact h.outdated_tail hinbox hsplit hitem hne
  · intro y w hw hs hr
    rcases h.missing_adopted hinbox hid hw hs hr with hhello | hadded
    · exact .inl hhello
    · exact .inr (.inl hadded)
  · intro y hy
    obtain ⟨w, hw⟩ := Option.ne_none_iff_exists'.mp hy
    rcases adopt_cases hw with ⟨-, hyes⟩ | hold
    · exact hyes
    · exact h.wanted y (by simp [hold])
  · exact (h.once_head hinbox).2
  · intro i hi
    refine h.asked i ?_
    rw [hinbox, answered_snapshot]
    exact List.perm_middle.mem_iff.mpr (List.mem_cons_of_mem _ hi)
  · simp

theorem tied_ignored (h : Tied wants s) {id : ι} {items : ν → Option σ}
    {rest : List (Message ν σ ι)} (hinbox : s.inbox = .snapshot id items :: rest)
    (hid : s.awaited ≠ some id) : Tied wants { s with inbox := rest } := by
  have hnews : s.news = notices rest ++ s.pending := news_of_snapshot hinbox
  have hstale : ∀ y w, s.replica y = some w → s.source y ≠ some w →
      .removed y ∈ notices rest ++ s.pending := hnews ▸ h.stale
  have hperm : (s.outbox ++ answered s.inbox).Perm (id :: (s.outbox ++ answered rest)) := by
    rw [hinbox, answered_snapshot]
    exact List.perm_middle
  constructor
  · exact fun y hy pre post hsplit => h.readded y hy pre post (hnews ▸ hsplit)
  · exact hstale
  · intro pre i items' post hsplit y w hitem hne
    exact h.outdated_tail hinbox hsplit hitem hne
  · intro y w hw hs hr
    refine (h.missing y w hw hs hr).tail hinbox (by simp) (by simp) ?_
    rintro i items' hi ⟨⟩
    exact hid hi
  · exact h.wanted
  · exact (h.once_head hinbox).2
  · intro i hi
    exact h.asked i (hperm.mem_iff.mpr (List.mem_cons_of_mem _ hi))
  · intro i hi
    refine (List.mem_cons.mp (hperm.mem_iff.mp (h.awaiting i hi))).resolve_left ?_
    rintro rfl
    exact hid hi

/-! ### Runs -/

variable [DecidableEq ν]

theorem tied_step (h : Tied wants s) (hstep : Step wants s s') : Tied wants s' := by
  cases hstep with
  | add x v hx => exact tied_add h hx
  | remove x hx => exact tied_remove h
  | announce n rest hpending => exact tied_announce h hpending
  | answer id rest houtbox => exact tied_answer h houtbox
  | hello id rest hinbox hid => exact tied_ask h hinbox (.inl rfl) hid
  | added id x rest hinbox hid => exact tied_ask h hinbox (.inr ⟨x, rfl⟩) hid
  | removed x rest hinbox => exact tied_removed h hinbox
  | adopted id items rest hinbox hid => exact tied_adopted h hinbox hid
  | ignored id items rest hinbox hid => exact tied_ignored h hinbox hid

theorem tied_run (h : Tied wants s) (hrun : Relation.ReflTransGen (Step wants) s s') :
    Tied wants s' := by
  induction hrun with
  | refl => exact h
  | tail _ hstep ih => exact tied_step ih hstep

omit [DecidableEq ν] in
/-- With nothing under way, the replica has what it wants of the source. -/
theorem Tied.converged (h : Tied wants s) (hinbox : s.inbox = []) (houtbox : s.outbox = [])
    (hpending : s.pending = []) :
    s.awaited = none ∧ ∀ x v, s.replica x = some v ↔ wants x = true ∧ s.source x = some v := by
  have hnews : s.news = [] := by simp [State.news, hinbox, hpending]
  have hidle : s.outbox ++ answered s.inbox = [] := by simp [hinbox, houtbox]
  have hawaited : s.awaited = none := by
    by_contra hne
    obtain ⟨id, hid⟩ := Option.ne_none_iff_exists'.mp hne
    have := h.awaiting id hid
    rw [hidle] at this
    cases this
  refine ⟨hawaited, fun x v => ⟨fun hr => ?_, ?_⟩⟩
  · refine ⟨h.wanted x (by simp [hr]), ?_⟩
    by_contra hne
    have := h.stale x v hr hne
    rw [hnews] at this
    cases this
  · rintro ⟨hw, hs⟩
    by_contra hne
    rcases h.missing x v hw hs hne with hhello | hadded | ⟨id, hid, -⟩
    · rw [hinbox] at hhello
      cases hhello
    · rw [hnews] at hadded
      cases hadded
    · rw [hawaited] at hid
      cases hid

end

end Owsd.Mirror
