import Owsd.Basis.Outstanding
import Owsd.Proxy.CallIds

/-!
Which local request a reply belongs to.

What replies should do is said on the log alone: `awaiting` are the calls
sent and not replied to since, and `properAnswers` is what the local bus
should have seen. The proxy keeps to it as long as the results it gets for
its calls have a status.
-/

namespace Owsd.Proxy

open Rpc

/-! ### What should happen -/

/-- The calls sent for which no reply has arrived. -/
def awaiting (reply : Json → Option Int) (log : List Action) : List (Int × ℕ) :=
  outstanding Action.opens (Action.closes reply) log

/-- The result has a status to complete a request with: the integer an array
begins with, and the unknown error for everything that is no array. -/
def hasStatus : Json → Bool
  | .array (.int _ :: _) => true
  | .array _ => false
  | _ => true

def status : Json → Int
  | .array (.int code :: _) => (Json.int code).getInt
  | _ => ubusStatusUnknownError

/-- What the local bus should see of a result, newest first: the object in it
and the completion with its status. -/
def properAnswer (ureq : ℕ) (result : Json) : List Action :=
  .completed ureq (status result) ::
    match result.arrayGetIdx 1 with
    | .object data => [.reply ureq data]
    | _ => []

/-- The answer a message calls for: when it has a result and the id of a call
that awaits its reply, the one to the request of that call. -/
def due (past : List Action) (msg : Json) : List Action :=
  match msg.getEx (.ofString "result"), RemoteBus.msgId msg with
  | some result, .int n =>
      match (awaiting resultId past).find? fun p => p.1 = n with
      | some p => properAnswer p.2 result
      | none => []
  | _, _ => []

/-- What the local bus should have seen. -/
def properAnswers : List Action → List Action
  | [] => []
  | .received msg :: past => due past msg ++ properAnswers past
  | _ :: past => properAnswers past

def Action.completes : Action → Option ℕ
  | .completed ureq _ => some ureq
  | _ => none

def completions (log : List Action) : List ℕ := log.filterMap Action.completes

theorem answer_eq_properAnswer {ureq : ℕ} {result : Json} (h : hasStatus result = true) :
    RemoteBus.answer ureq result = properAnswer ureq result := by
  cases result with
  | array elems =>
      cases elems with
      | nil => cases h
      | cons head rest =>
          cases head with
          | int code => rfl
          | _ => cases h
  | _ => rfl

theorem completions_properAnswer (ureq : ℕ) (result : Json) :
    completions (properAnswer ureq result) = [ureq] := by
  rw [properAnswer]
  split <;> rfl

/-! ### Logs -/

section
variable {acts log : List Action} {msg : Json}

theorem awaiting_append {reply : Json → Option Int}
    (h : ∀ a ∈ acts, a.opens = none ∧ a.closes reply = none) :
    awaiting reply (acts ++ log) = awaiting reply log :=
  outstanding_append h

theorem awaiting_answered {reply : Json → Option Int} {n : Int} {ureq : ℕ} {result : Json}
    (h : reply msg = some n) :
    awaiting reply (RemoteBus.answer ureq result ++ (.received msg :: log)) =
      (awaiting reply log).filter fun p => p.1 ≠ n := by
  rw [awaiting_append fun a ha => isAnswer_quiet (isAnswer_of_mem_answer a ha) reply]
  exact outstanding_closes rfl h

theorem properAnswers_append (h : ∀ a ∈ acts, ∀ msg, a ≠ .received msg) :
    properAnswers (acts ++ log) = properAnswers log := by
  induction acts with
  | nil => rfl
  | cons a acts ih =>
      have ih := ih fun b hb => h b (List.mem_cons_of_mem a hb)
      cases a with
      | received msg => exact absurd rfl (h _ List.mem_cons_self msg)
      | _ => exact ih

theorem completions_append : completions (acts ++ log) = completions acts ++ completions log :=
  List.filterMap_append

theorem completions_filter : completions (log.filter Action.isAnswer) = completions log := by
  rw [completions, List.filterMap_filter, completions]
  refine List.filterMap_congr fun a _ => ?_
  cases a <;> rfl

theorem due_eq_nil (h : ∀ n, resultId msg = some n → ∀ p ∈ awaiting resultId log, p.1 ≠ n) :
    due log msg = [] := by
  rw [due]
  split
  · next result n hresult hid =>
    have hn := h n (resultId_eq_some.mpr ⟨⟨result, hresult⟩, hid⟩)
    have hfind : (awaiting resultId log).find? (fun p => p.1 = n) = none := by
      rw [List.find?_eq_none]
      intro p hp
      simpa using hn p hp
    rw [hfind]
  · rfl

end

/-! ### What does happen -/

/-- The slots hold the calls that await their replies, and the local bus saw
what it should. -/
structure Tracks (r : RemoteBus) : Prop where
  slots : ∀ n ureq, (n, ureq) ∈ awaiting resultId r.log ↔
    ∃ i, r.used i = true ∧ r.calls i = ⟨n, ureq⟩
  answers : r.log.filter Action.isAnswer = properAnswers r.log
  once : (completions r.log).Nodup
  known : ∀ ureq ∈ completions r.log, ureq < r.ureqs
  completed : ∀ n ureq, .deferred ureq n ∈ r.log →
    ((n, ureq) ∈ awaiting resultId r.log ↔ ureq ∉ completions r.log)

section
variable {r r' : RemoteBus}

theorem Tracks.keep {acts : List Action} (h : Tracks r) (hlog : r'.log = acts ++ r.log)
    (hopens : ∀ a ∈ acts, a.opens = none)
    (hanswers : ∀ a ∈ acts, a.isAnswer = false)
    (hawaiting : awaiting resultId r'.log = awaiting resultId r.log)
    (hproper : properAnswers r'.log = properAnswers r.log) (hureqs : r.ureqs ≤ r'.ureqs)
    (hcalls : r'.calls = r.calls) (hmask : r'.waitingFor.call = r.waitingFor.call) :
    Tracks r' := by
  have hfilter : r'.log.filter Action.isAnswer = r.log.filter Action.isAnswer := by
    rw [hlog, List.filter_append, List.filter_eq_nil_iff.mpr fun a ha => by simp [hanswers a ha],
      List.nil_append]
  have hcompletions : completions r'.log = completions r.log := by
    rw [← completions_filter, hfilter, completions_filter]
  have hused : ∀ i, r'.used i = r.used i := fun i => by rw [RemoteBus.used, hmask, RemoteBus.used]
  constructor
  case slots =>
    intro n ureq
    rw [hawaiting, h.slots, hcalls]
    simp [hused]
  case answers => rw [hfilter, hproper, h.answers]
  case once => rw [hcompletions]; exact h.once
  case known =>
    rw [hcompletions]
    exact fun ureq hu => (h.known ureq hu).trans_le hureqs
  case completed =>
    intro n ureq hmem
    rw [hlog, mem_deferred_append hopens] at hmem
    rw [hawaiting, hcompletions]
    exact h.completed n ureq hmem

theorem getInt_int {n : Int} (hpos : 0 < n) (hle : n ≤ 2147483647) : (Json.int n).getInt = n := by
  rw [Json.getInt, Json.saturate, if_neg (by omega), if_neg (by omega)]

/-- No call awaits a message that was not taken for a reply to a call. -/
theorem not_awaiting {msg : Json} (hw : WellFormed r) (h : Tracks r) (hnot : NotAnswering r msg)
    {n : Int} (hn : resultId msg = some n) : ∀ p ∈ awaiting resultId r.log, p.1 ≠ n := by
  rintro ⟨m, ureq⟩ hp rfl
  obtain ⟨i, hi, hcall⟩ := (h.slots m ureq).mp hp
  have hsent := hw.slots i hi
  rw [hcall] at hsent
  obtain ⟨hpos, hle, -, hlist⟩ := hw.sent _ _ hsent
  have hint := getInt_int hpos (hle.trans hw.callId.2)
  rcases hnot m hn with hhand | hreply | hzero | hnone
  · simp [(hw.handshake hhand).2 i] at hi
  · simp only [RemoteBus.isListReply, hint, Bool.and_eq_true, decide_eq_true_iff] at hreply
    exact hlist.elim hreply.1.1 fun hne => hne hreply.2
  · exact hpos.ne' (hint ▸ hzero)
  · have hid := RemoteBus.findCall_eq_none hnone hi
    rw [hcall, hint] at hid
    exact hid rfl

theorem Tracks.defer {idx : ℕ} {mask : BitVec maxProxiedCalls} {req : Request}
    (hw : WellFormed r) (h : Tracks r) (hfree : r.used idx = false)
    (hmask : ∀ i, (r.setMask mask).used i = true ↔ i = idx ∨ r.used i = true) :
    Tracks ((r.defer idx mask).emit [.sent req, .deferred r.ureqs (r.callId + 1)]) := by
  have hawaiting : awaiting resultId
      ([.sent req, .deferred r.ureqs (r.callId + 1)] ++ r.log) =
        (r.callId + 1, r.ureqs) :: awaiting resultId r.log := by
    rfl
  constructor
  case slots =>
    intro n ureq
    show (n, ureq) ∈ awaiting resultId (_ ++ r.log) ↔
      ∃ i, (r.setMask mask).used i = true ∧ (r.defer idx mask).calls i = ⟨n, ureq⟩
    rw [hawaiting, List.mem_cons, h.slots]
    constructor
    · rintro (heq | ⟨i, hi, hcall⟩)
      · cases heq
        exact ⟨idx, (hmask idx).mpr (.inl rfl), Function.update_self ..⟩
      · have hne : i ≠ idx := by
          rintro rfl
          simp [hfree] at hi
        exact ⟨i, (hmask i).mpr (.inr hi), (Function.update_of_ne hne ..).trans hcall⟩
    · rintro ⟨i, hi, hcall⟩
      rcases defer_slot hfree hmask hi with ⟨-, heq⟩ | ⟨hold, heq⟩
      · rw [heq, ProxiedCall.mk.injEq] at hcall
        exact .inl (by rw [hcall.1, hcall.2])
      · exact .inr ⟨i, hold, heq ▸ hcall⟩
  case answers => exact h.answers
  case once => exact h.once
  case known => exact fun ureq hu => (h.known ureq hu).trans (Nat.lt_succ_self _)
  case completed =>
    intro n ureq hmem
    show (n, ureq) ∈ awaiting resultId (_ ++ r.log) ↔ ureq ∉ completions r.log
    rw [hawaiting, List.mem_cons]
    rcases hw.older hmem with ⟨rfl, rfl⟩ | ⟨hold, hlt, -⟩
    · exact iff_of_true (.inl rfl) fun hu => Nat.lt_irrefl _ (h.known _ hu)
    · have hne : (n, ureq) ≠ (r.callId + 1, r.ureqs) := by
        intro heq
        rw [Prod.mk.injEq] at heq
        omega
      rw [or_iff_right hne]
      exact h.completed n ureq hold

/-- The result for the call in a slot is due to the request there: no other
call awaits that id. -/
theorem Tracks.due_eq {msg result : Json} {n : Int} {idx ureq : ℕ} (h : Tracks r)
    (hw : WellFormed r) (hresult : msg.getEx (.ofString "result") = some result)
    (hid : RemoteBus.msgId msg = .int n) (hused : r.used idx = true)
    (hslot : r.calls idx = ⟨n, ureq⟩) : due r.log msg = properAnswer ureq result := by
  have hmem : (n, ureq) ∈ awaiting resultId r.log := (h.slots n ureq).mpr ⟨idx, hused, hslot⟩
  obtain ⟨⟨m, u⟩, hfind⟩ : ∃ p, (awaiting resultId r.log).find? (fun p => p.1 = n) = some p := by
    rw [← Option.isSome_iff_exists, List.find?_isSome]
    exact ⟨(n, ureq), hmem, by simp⟩
  have hm : m = n := by simpa using List.find?_some hfind
  obtain ⟨j, hj, hcallj⟩ := (h.slots m u).mp (List.mem_of_find?_eq_some hfind)
  have hj : j = idx := hw.distinct j idx hj hused (by rw [hcallj, hslot]; exact hm)
  have hu : u = ureq := by
    rw [hj, hslot, ProxiedCall.mk.injEq] at hcallj
    exact hcallj.2.symm
  simp only [due, hresult, hid, hfind, hu]

theorem Tracks.answer {msg result : Json} {n : Int} {idx : ℕ} {mask : BitVec maxProxiedCalls}
    (hw : WellFormed r) (h : Tracks r) (hresult : msg.getEx (.ofString "result") = some result)
    (hid : RemoteBus.msgId msg = .int n) (hused : r.used idx = true)
    (hcall : (r.calls idx).jsonrpcId = n) (hstatus : hasStatus result = true)
    (hmask : ∀ i, (r.setMask mask).used i = true ↔ i ≠ idx ∧ r.used i = true) :
    Tracks ((r.setMask mask).emit
      (RemoteBus.answer (r.calls idx).ureq result ++ [.received msg])) := by
  obtain ⟨ureq, hureq⟩ : ∃ ureq, (r.calls idx).ureq = ureq := ⟨_, rfl⟩
  have hslot : r.calls idx = ⟨n, ureq⟩ := by rw [← hcall, ← hureq]
  rw [hureq, answer_eq_properAnswer hstatus]
  have hlog : ((r.setMask mask).emit (properAnswer ureq result ++ [.received msg])).log =
      properAnswer ureq result ++ (.received msg :: r.log) := by
    simp [RemoteBus.emit, RemoteBus.setMask]
  have hsent : .deferred ureq n ∈ r.log := by
    have := hw.slots idx hused
    rwa [hslot] at this
  have hmem : (n, ureq) ∈ awaiting resultId r.log := (h.slots n ureq).mpr ⟨idx, hused, hslot⟩
  have hanswer : ∀ a ∈ properAnswer ureq result, a.isAnswer = true := by
    rw [← answer_eq_properAnswer hstatus]
    exact isAnswer_of_mem_answer
  have hawaiting : awaiting resultId (properAnswer ureq result ++ (.received msg :: r.log)) =
      (awaiting resultId r.log).filter fun p => p.1 ≠ n := by
    rw [← answer_eq_properAnswer hstatus]
    exact awaiting_answered (resultId_eq_some.mpr ⟨⟨result, hresult⟩, hid⟩)
  have hcompletions : completions (properAnswer ureq result ++ (.received msg :: r.log)) =
      ureq :: completions r.log := by
    rw [completions_append, completions_properAnswer]
    rfl
  have hopen : ureq ∉ completions r.log := (h.completed n ureq hsent).mp hmem
  constructor
  case slots =>
    intro m u
    show _ ↔ ∃ i, (r.setMask mask).used i = true ∧ r.calls i = ⟨m, u⟩
    rw [hlog, hawaiting, List.mem_filter, h.slots]
    constructor
    · rintro ⟨⟨i, hi, hcalli⟩, hne⟩
      refine ⟨i, (hmask i).mpr ⟨?_, hi⟩, hcalli⟩
      rintro rfl
      rw [hslot, ProxiedCall.mk.injEq] at hcalli
      simp [hcalli.1] at hne
    · rintro ⟨i, hi, hcalli⟩
      obtain ⟨hne, hi⟩ := (hmask i).mp hi
      refine ⟨⟨i, hi, hcalli⟩, decide_eq_true fun heq => hne ?_⟩
      exact hw.distinct i idx hi hused (by rw [hcalli, hslot]; exact heq)
  case answers =>
    rw [hlog, List.filter_append, List.filter_eq_self.mpr hanswer,
      properAnswers_append fun a ha m heq => by simpa [heq, Action.isAnswer] using hanswer a ha,
      properAnswers, h.due_eq hw hresult hid hused hslot, ← h.answers]
    rfl
  case once =>
    rw [hlog, hcompletions, List.nodup_cons]
    exact ⟨hopen, h.once⟩
  case known =>
    rw [hlog, hcompletions]
    intro u hu
    rcases List.mem_cons.mp hu with rfl | hu
    · exact (hw.sent _ _ hsent).2.2.1
    · exact h.known u hu
  case completed =>
    intro m u hmem'
    have hopens : ∀ a ∈ properAnswer ureq result ++ [.received msg], a.opens = none := by
      rw [← answer_eq_properAnswer hstatus]
      exact opens_answer
    have hold : .deferred u m ∈ r.log := (mem_deferred_append hopens).mp hmem'
    rw [hlog, hawaiting, hcompletions, List.mem_filter, List.mem_cons, not_or,
      h.completed m u hold, decide_eq_true_iff, and_comm, Ne, hw.paired u m ureq n hold hsent]

/-! ### Runs -/

/-- A reply to an outstanding call can be given to it: its id is not clamped,
and its result has a status. -/
def Answerable (r : RemoteBus) : Event → Prop
  | .receive (some msg) => ∀ result n idx, msg.getEx (.ofString "result") = some result →
      RemoteBus.msgId msg = .int n → r.findCall (Json.int n).getInt = some idx →
      (Json.int n).getInt = n ∧ hasStatus result = true
  | _ => True

theorem tracks_step {M : Allocator} {accepts : CString → Bool} {e : Event}
    (hw : WellFormed r) (h : Tracks r) (hg : Answerable r e)
    (hstep : step M accepts r e = .ok r') : Tracks r' := by
  cases step_effect hstep with
  | ignored e he => exact h
  | refused object method args hid hfull =>
      exact h.keep rfl (List.forall_mem_singleton.mpr rfl) (List.forall_mem_singleton.mpr rfl) rfl
        rfl (Nat.le_succ _) rfl rfl
  | deferred object method args idx mask req hid hstub hfree hmask =>
      exact .defer hw h hfree hmask
  | message msg r' hb hnot =>
      obtain ⟨acts, hlog, hacts⟩ := hb.entries
      have hnone : ∀ n, resultId msg = some n → ∀ p ∈ awaiting resultId r.log, p.1 ≠ n :=
        fun n => not_awaiting hw h hnot
      refine h.keep hlog (opens_message hacts) ?_ ?_ ?_ hb.ureqs.ge hb.calls hb.mask
      · refine List.forall_mem_append.mpr ⟨fun a ha => ?_, List.forall_mem_singleton.mpr rfl⟩
        exact isAnswer_background (hacts a ha)
      · rw [hlog, List.append_assoc,
          awaiting_append fun a ha => background_quiet (hacts a ha) resultId]
        exact outstanding_closes_none rfl hnone
      · rw [hlog, List.append_assoc, properAnswers_append fun a ha m heq => by
          simpa [heq, Action.background] using hacts a ha]
        show due r.log msg ++ properAnswers r.log = properAnswers r.log
        rw [due_eq_nil hnone, List.nil_append]
  | answered msg result n idx mask hresult hid hfind hmask =>
      obtain ⟨hint, hstatus⟩ := hg result n idx hresult hid hfind
      obtain ⟨hused, hcall⟩ := RemoteBus.findCall_eq_some hfind
      exact .answer hw h hresult hid hused (hcall.trans hint) hstatus hmask

theorem awaiting_established (h : Handshake) (reply : Json → Option Int) :
    awaiting reply h.established.log = [] := by
  obtain ⟨-, -, -, -, hlog⟩ := established_fresh h
  rw [← List.append_nil h.established.log,
    awaiting_append fun a ha => background_quiet (hlog a ha) reply]
  rfl

theorem tracks_established (h : Handshake) : Tracks h.established := by
  obtain ⟨hmask, -, -, -, hlog⟩ := established_fresh h
  have hused : ∀ i, h.established.used i = false := fun i => RemoteBus.used_eq_false_of_mask hmask
  have hanswers : h.established.log.filter Action.isAnswer = [] :=
    List.filter_eq_nil_iff.mpr fun a ha => by simp [isAnswer_background (hlog a ha)]
  have hcompletions : completions h.established.log = [] := by
    rw [← completions_filter, hanswers]
    rfl
  constructor
  case slots =>
    intro n ureq
    simp [awaiting_established h resultId, hused]
  case answers =>
    rw [hanswers, ← List.append_nil h.established.log, properAnswers_append fun a ha m heq => by
      simpa [heq, Action.background] using hlog a ha]
    rfl
  case once => simp [hcompletions]
  case known => simp [hcompletions]
  case completed =>
    intro n ureq hmem
    simpa [Action.background] using hlog _ hmem

theorem tracks_run {M : Allocator} {accepts : CString → Bool} {h : Handshake} {es : List Event}
    (hg : Guarded (step M accepts) Answerable h.established es)
    (hrun : run (step M accepts) h.established es = .ok r) : WellFormed r ∧ Tracks r :=
  run_invariant (fun r => WellFormed r ∧ Tracks r)
    (fun _ _ _ hi hg hstep => ⟨wellFormed_step hi.1 hstep, tracks_step hi.1 hi.2 hg hstep⟩)
    ⟨wellFormed_established h, tracks_established h⟩ hg hrun

end

/-- Replies reach the calls they belong to. -/
structure Routed (r : RemoteBus) : Prop where
  /-- While a call is outstanding the handshake is over. -/
  handshake : ∀ i, r.used i = true →
    r.waitingFor.login = false ∧ r.waitingFor.listen = false
  distinct : ∀ i j, r.used i = true → r.used j = true →
    (r.calls i).jsonrpcId = (r.calls j).jsonrpcId → i = j
  listId : ∀ i, r.used i = true → r.waitingFor.listId ≠ 0 →
    (r.calls i).jsonrpcId ≠ r.waitingFor.listId
  newSlot : ∀ idx r', r.wsuProxiedCallNew = some (idx, r') → r.used idx = false
  /-- A result under the id of a call is not taken for one of the handshake or
  of a `list`. -/
  taken : ∀ i ureq n msg, r.used i = true → .deferred ureq n ∈ r.log →
    resultId msg = some n → ¬ r.inHandshake ∧ r.isListReply (RemoteBus.msgId msg) = false
  /-- The local bus saw the answers of the results to the calls they are for,
  and no others. -/
  answers : r.log.filter Action.isAnswer = properAnswers r.log
  once : (completions r.log).Nodup

/-- In every run in which each result for an outstanding call is answerable,
replies reach the calls they belong to. -/
theorem routed_run {M : Allocator} {accepts : CString → Bool} {h : Handshake} {es : List Event}
    {r : RemoteBus} (hg : Guarded (step M accepts) Answerable h.established es)
    (hrun : run (step M accepts) h.established es = .ok r) : Routed r := by
  obtain ⟨hw, ht⟩ := tracks_run hg hrun
  have hover : ∀ i, r.used i = true → ¬ r.inHandshake := by
    intro i hi hh
    simp [(hw.handshake hh).2 i] at hi
  constructor
  case handshake =>
    intro i hi
    simpa [RemoteBus.inHandshake] using hover i hi
  case distinct => exact hw.distinct
  case listId =>
    intro i hi hlist
    exact (hw.sent _ _ (hw.slots i hi)).2.2.2.resolve_left hlist
  case newSlot =>
    intro idx r' hnew
    exact (RemoteBus.wsuProxiedCallNew_eq_some hnew).1
  case taken =>
    intro i ureq n msg hi hsent hn
    obtain ⟨hpos, hle, -, hlist⟩ := hw.sent ureq n hsent
    refine ⟨hover i hi, ?_⟩
    rw [(resultId_eq_some.mp hn).2, RemoteBus.isListReply,
      getInt_int hpos (hle.trans hw.callId.2)]
    rcases hlist with hzero | hne
    · simp [hzero]
    · simp [hne]
  case answers => exact ht.answers
  case once => exact ht.once

/-! ### Two runs -/

def resultMsg (n : Int) (result : Json) : Json :=
  .object [(.ofString "jsonrpc", .string (.ofString "2.0")), (.ofString "id", .int n),
    (.ofString "result", result)]

theorem answerable_resultMsg {n : Int} {result : Json} (hn : (Json.int n).getInt = n)
    (hstatus : hasStatus result = true) (r : RemoteBus) :
    Answerable r (.receive (some (resultMsg n result))) := by
  intro result' n' idx hresult hid _
  have hresult' : result = result' := Option.some.inj hresult
  have hid' : n = n' := Json.int.inj hid
  rw [← hresult', ← hid']
  exact ⟨hn, hstatus⟩

def oneObject : List Event :=
  [.receive (some (resultMsg 1 (.array [.int 0]))),
    .receive (some (resultMsg 2 (.array [.int 0,
      .object [(.ofString "system", .object [(.ofString "info", .object [])])]])))]

def systemInfo : Event := .call (.ofString "system") (.ofString "info") []

def outOfOrder : List Event :=
  oneObject ++ [systemInfo, systemInfo,
    .receive (some (resultMsg 4 (.array [.int 0, .object []]))),
    .receive (some (resultMsg 3 (.array [.int 2]))),
    .receive (some (resultMsg 4 (.array [.int 0])))]

theorem routed_run_out_of_order :
    ∃ r, run (step bumpAllocator acceptAll) (Handshake.established ⟨false, none⟩) outOfOrder =
      .ok r ∧ completions r.log = [0, 1] ∧ Routed r := by
  have hg : ∀ e ∈ outOfOrder, ∀ r, Answerable r e := by
    simp only [outOfOrder, oneObject, List.cons_append, List.nil_append, List.forall_mem_cons]
    exact ⟨answerable_resultMsg rfl rfl, answerable_resultMsg rfl rfl, fun _ => trivial,
      fun _ => trivial, answerable_resultMsg rfl rfl, answerable_resultMsg rfl rfl,
      answerable_resultMsg rfl rfl, by simp⟩
  obtain ⟨r, hrun, hcompleted⟩ : ∃ r, run (step bumpAllocator acceptAll)
      (Handshake.established ⟨false, none⟩) outOfOrder = .ok r ∧ completions r.log = [0, 1] :=
    ⟨_, rfl, rfl⟩
  exact ⟨r, hrun, hcompleted, routed_run (guarded_of_forall hg _) hrun⟩

/-- A result without a status: the slot is released, and the request is never
completed. -/
theorem result_without_status :
    ∃ r, run (step bumpAllocator acceptAll) (Handshake.established ⟨false, none⟩)
        (oneObject ++ [systemInfo, .receive (some (resultMsg 3 (.array [])))]) = .ok r ∧
      (∀ i, r.used i = false) ∧ completions r.log = [] ∧ ¬ Routed r := by
  refine ⟨_, rfl, fun i => ?_, rfl, fun h => ?_⟩
  · exact RemoteBus.used_eq_false_of_mask rfl
  · exact absurd (congrArg List.length h.answers) (by decide)

end Owsd.Proxy
