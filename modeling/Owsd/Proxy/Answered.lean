import Owsd.Proxy.Routing

/-!
What the local bus saw of one request.

The answers to a request all come from one message, the first result under
the id of its call: the request is completed once, and whatever data it got
came with the completion.
-/

namespace Owsd.Proxy

open Rpc

def Action.answersTo (ureq : ℕ) : Action → Bool
  | .reply u _ => u = ureq
  | .completed u _ => u = ureq
  | _ => false

/-- The message is the result `result` for the call that the request waits
for. -/
structure ResultFor (ureq : ℕ) (past : List Action) (msg result : Json) (n : Int) : Prop where
  result : msg.getEx (.ofString "result") = some result
  id : RemoteBus.msgId msg = .int n
  deferred : .deferred ureq n ∈ past

theorem answersTo_isAnswer {a : Action} {ureq : ℕ} (h : a.answersTo ureq = true) :
    a.isAnswer = true := by
  cases a <;> first | rfl | cases h

theorem deferred_of_awaiting {reply : Json → Option Int} {log : List Action} {n : Int} {ureq : ℕ}
    (h : (n, ureq) ∈ awaiting reply log) : .deferred ureq n ∈ log := by
  induction log with
  | nil => cases h
  | cons a log ih =>
      rw [awaiting, outstanding] at h
      cases a with
      | deferred u m =>
          rcases List.mem_cons.mp h with heq | h
          · cases heq
            exact .head _
          · exact .tail _ (ih h)
      | received msg =>
          refine .tail _ (ih ?_)
          simp only [Action.opens, Action.closes] at h
          cases hr : reply msg with
          | none =>
              rw [hr] at h
              exact h
          | some k =>
              rw [hr] at h
              exact List.mem_of_mem_filter h
      | _ => exact .tail _ (ih h)

/-- A message is the result for one request, or calls for no answer. -/
theorem due_cases (past : List Action) (msg : Json) :
    due past msg = [] ∨ ∃ ureq result n, due past msg = properAnswer ureq result ∧
      ResultFor ureq past msg result n := by
  rw [due]
  split
  · next result n hresult hid =>
    split
    · next p hfind =>
      have hn : p.1 = n := by simpa using List.find?_some hfind
      have hmem : (n, p.2) ∈ awaiting resultId past := by
        rw [← hn]
        exact List.mem_of_find?_eq_some hfind
      exact .inr ⟨p.2, result, n, rfl, hresult, hid, deferred_of_awaiting hmem⟩
    · exact .inl rfl
  · exact .inl rfl

section
variable {ureq u : ℕ} {result : Json} {log : List Action}

theorem answersTo_properAnswer {a : Action} (ha : a ∈ properAnswer u result) :
    a.answersTo ureq = decide (u = ureq) := by
  rw [properAnswer] at ha
  split at ha
  · rcases List.mem_cons.mp ha with rfl | ha
    · rfl
    · rw [List.mem_singleton.mp ha]
      rfl
  · rw [List.mem_singleton.mp ha]
    rfl

theorem filter_properAnswer_self :
    (properAnswer ureq result).filter (Action.answersTo ureq) = properAnswer ureq result :=
  List.filter_eq_self.mpr fun a ha => by simp [answersTo_properAnswer ha]

theorem filter_properAnswer_of_ne (h : u ≠ ureq) :
    (properAnswer u result).filter (Action.answersTo ureq) = [] :=
  List.filter_eq_nil_iff.mpr fun a ha => by simp [answersTo_properAnswer ha, h]

theorem mem_completions_of_answersTo {a : Action} (ha : a ∈ properAnswers log)
    (hu : a.answersTo ureq = true) : ureq ∈ completions (properAnswers log) := by
  induction log with
  | nil => cases ha
  | cons b log ih =>
      cases b with
      | received msg =>
          rw [properAnswers] at ha ⊢
          rw [completions_append, List.mem_append]
          rcases List.mem_append.mp ha with ha | ha
          · left
            rcases due_cases log msg with hnil | ⟨u, result, n, hdue, -⟩
            · rw [hnil] at ha
              cases ha
            · rw [hdue] at ha ⊢
              rw [answersTo_properAnswer ha, decide_eq_true_iff] at hu
              rw [completions_properAnswer, hu]
              exact .head _
          · exact .inr (ih ha)
      | _ => exact ih ha

theorem filter_answersTo_eq_nil (h : ureq ∉ completions (properAnswers log)) :
    (properAnswers log).filter (Action.answersTo ureq) = [] :=
  List.filter_eq_nil_iff.mpr fun _ ha hu => h (mem_completions_of_answersTo ha hu)

/-- The answers to a request that is completed once are those of one
message. -/
theorem answers_of_completed (honce : (completions (properAnswers log)).Nodup)
    (h : ureq ∈ completions (properAnswers log)) :
    ∃ later msg past result n, log = later ++ .received msg :: past ∧
      ResultFor ureq past msg result n ∧
      (properAnswers log).filter (Action.answersTo ureq) = properAnswer ureq result := by
  induction log with
  | nil => cases h
  | cons a log ih =>
      cases a with
      | received msg =>
          rw [properAnswers] at honce h ⊢
          rw [completions_append] at honce h
          rw [List.filter_append]
          obtain ⟨-, honce', hdisj⟩ := List.nodup_append.mp honce
          rcases due_cases log msg with hnil | ⟨u, result, n, hdue, hfor⟩
          · rw [hnil] at h ⊢
            obtain ⟨later, msg', past, result, n, rfl, hfor, hfilter⟩ := ih honce' h
            exact ⟨.received msg :: later, msg', past, result, n, rfl, hfor, hfilter⟩
          · rw [hdue, completions_properAnswer] at h hdisj
            rw [hdue]
            by_cases hu : u = ureq
            · subst hu
              have hno : u ∉ completions (properAnswers log) := fun hmem =>
                hdisj u (List.mem_singleton.mpr rfl) u hmem rfl
              refine ⟨[], msg, log, result, n, rfl, hfor, ?_⟩
              rw [filter_properAnswer_self, filter_answersTo_eq_nil hno, List.append_nil]
            · have hrest := (List.mem_append.mp h).resolve_left fun hmem =>
                hu (List.mem_singleton.mp hmem).symm
              obtain ⟨later, msg', past, result', n', rfl, hfor', hfilter⟩ := ih honce' hrest
              refine ⟨.received msg :: later, msg', past, result', n', rfl, hfor', ?_⟩
              rw [filter_properAnswer_of_ne hu, List.nil_append, hfilter]
      | _ =>
          obtain ⟨later, msg', past, result, n, rfl, hfor, hfilter⟩ := ih honce h
          exact ⟨_ :: later, msg', past, result, n, rfl, hfor, hfilter⟩

end

/-- What the local bus saw of a completed request is the proper answer for
the result in one message of the remote. -/
theorem Tracks.answered {r : RemoteBus} {ureq : ℕ} (h : Tracks r)
    (hmem : ureq ∈ completions r.log) :
    ∃ later msg past result n, r.log = later ++ .received msg :: past ∧
      ResultFor ureq past msg result n ∧
      r.log.filter (Action.answersTo ureq) = properAnswer ureq result := by
  have hcompletions : completions r.log = completions (properAnswers r.log) := by
    rw [← completions_filter, h.answers]
  have hanswers : r.log.filter (Action.answersTo ureq) =
      (properAnswers r.log).filter (Action.answersTo ureq) := by
    rw [← h.answers, List.filter_filter]
    refine List.filter_congr fun a _ => ?_
    cases ha : a.answersTo ureq with
    | false => rfl
    | true => simp [answersTo_isAnswer ha]
  rw [hanswers]
  exact answers_of_completed (hcompletions ▸ h.once) (hcompletions ▸ hmem)

/-- What is recorded as received was taken in by an event. -/
theorem receive_of_received {M : Allocator} {accepts : CString → Bool} {h : Handshake}
    {es : List Event} {r : RemoteBus} {msg : Json}
    (hrun : run (step M accepts) h.established es = .ok r) (hmem : .received msg ∈ r.log) :
    .receive (some msg) ∈ es := by
  refine run_history (fun es r => ∀ msg, .received msg ∈ r.log → .receive (some msg) ∈ es)
    ?_ ?_ hrun msg hmem
  · intro msg hmem
    have hback := (established_fresh h).2.2.2.2 _ hmem
    cases hback
  · intro es r e r' _ hi hstep msg hmem
    have hearlier : .received msg ∈ r.log → .receive (some msg) ∈ es ++ [e] := fun hm =>
      List.mem_append_left _ (hi msg hm)
    cases step_effect hstep with
    | ignored e he => exact hearlier hmem
    | refused object method args hid hfull =>
        exact hearlier (by simpa [RemoteBus.emit] using hmem)
    | deferred object method args idx mask req hid hstub hfree hmask =>
        exact hearlier (by simpa [RemoteBus.emit, RemoteBus.defer, RemoteBus.setMask] using hmem)
    | message msg' r' hb hnot =>
        obtain ⟨acts, hlog, hacts⟩ := hb.entries
        rw [hlog, List.append_assoc, List.mem_append, List.singleton_append, List.mem_cons,
          Action.received.injEq] at hmem
        rcases hmem with hmem | rfl | hmem
        · cases hacts _ hmem
        · exact List.mem_append_right _ (.head _)
        · exact hearlier hmem
    | answered msg' result n idx mask hresult hid hfind hmask =>
        have hlog : ((r.setMask mask).emit (RemoteBus.answer (r.calls idx).ureq result ++
            [.received msg'])).log =
            RemoteBus.answer (r.calls idx).ureq result ++ (.received msg' :: r.log) := by
          simp [RemoteBus.emit, RemoteBus.setMask]
        rw [hlog, List.mem_append, List.mem_cons, Action.received.injEq] at hmem
        rcases hmem with hmem | rfl | hmem
        · cases isAnswer_of_mem_answer _ hmem
        · exact List.mem_append_right _ (.head _)
        · exact hearlier hmem

end Owsd.Proxy
