import Owsd.Dbus.Introspection

/-!
A list among the other requests of a client.

While a list waits for introspections, the client goes on sending requests,
and the replies to these come in between. They do not touch the queue of the
list: after any run it has made as many rounds as there were replies for it
(`listAt_run`), so it is answered when there was one for each object
(`answered_iff_replies`).
-/

namespace Owsd.Dbus.DbusClient

open Worklist

/-- The contexts have numbers of their own. These are of messages that came in
and, unless the context was freed, were not answered. -/
structure Distinct (c : DbusClient) : Prop where
  nodup : (c.rpcCallQ.map RequestCtx.num).Nodup
  below : ∀ r ∈ c.rpcCallQ, r.num < c.messages
  unanswered : ∀ r ∈ c.rpcCallQ, r.awaited ≠ .freed → r.num ∉ c.answered
  answered : ∀ n ∈ c.answered, n < c.messages

/-- The list `num` has this queue of objects, or it was answered when there
are none. -/
structure ListAt (c : DbusClient) (num : ℕ) (queue : List IntrospectionTarget) : Prop where
  distinct : Distinct c
  known : num < c.messages
  waits : ∀ cur later, queue = cur :: later → c.awaits num = some (.introspect cur later)
  done : queue = [] → num ∈ c.answered ∧ c.awaits num = none

/-- What the callback can make of a reply of the bus. It never gets through one
that is not well formed, and may not get through a document. -/
inductive Reported : Introspection → Introspected → Prop
  | error : Reported .error .error
  | nodes (root : XmlNode) :
      Reported (.document root) (.nodes (if isIntrospection root then subnodes root else []))
  | malformed : Reported .malformed .unreadable
  | unreadable (root : XmlNode) : Reported (.document root) .unreadable

/-- Replies for the list `num` are those of the bus. -/
def Truthful (bus : IntrospectionTarget → Introspection) (num : ℕ) (c : DbusClient) :
    DbusEvent → Prop
  | .introspectReply n reply => n = num → ∀ cur later,
      c.awaits num = some (.introspect cur later) → Reported (bus cur) reply
  | _ => True

/-- The event is a reply for the list `num`. -/
def isReplyTo (num : ℕ) : DbusEvent → Bool
  | .introspectReply n _ => n = num
  | _ => false

section
variable {b : Build} {c c' : DbusClient} {num m : ℕ} {awaited : Awaited}

/-! ### The queue of contexts -/

theorem exists_of_awaits (h : c.awaits num = some awaited) :
    ∃ r ∈ c.rpcCallQ, r.num = num ∧ r.awaited = awaited := by
  obtain ⟨r, hr, hawaited⟩ := Option.map_eq_some_iff.mp h
  exact ⟨r, List.mem_of_find?_eq_some hr, by simpa using List.find?_some hr, hawaited⟩

theorem Distinct.of_awaits (hd : Distinct c) (h : c.awaits num = some awaited) :
    num < c.messages ∧ (awaited ≠ .freed → num ∉ c.answered) := by
  obtain ⟨r, hr, rfl, rfl⟩ := exists_of_awaits h
  exact ⟨hd.below r hr, hd.unanswered r hr⟩

theorem listDel_ok (h : c.listDel m = .ok c') :
    c' = { c with rpcCallQ := c.rpcCallQ.eraseP fun r => r.num = m } := by
  have herase : ∀ q : List RequestCtx, (q.takeWhile fun r => r.num ≠ m) ++
      (q.dropWhile fun r => r.num ≠ m).tail = q.eraseP fun r => r.num = m := by
    intro q
    induction q with
    | nil => rfl
    | cons r q ih =>
        by_cases hr : r.num = m
        · simp [hr]
        · simpa [hr] using ih
  rw [listDel] at h
  split at h
  · cases h
  · cases h
    rw [herase]

theorem find?_eraseP (hne : num ≠ m) (q : List RequestCtx) :
    (q.eraseP fun r => r.num = m).find? (fun r => r.num = num) =
      q.find? fun r => r.num = num := by
  induction q with
  | nil => rfl
  | cons r q ih =>
      by_cases hr : r.num = m
      · have hnot : ¬ r.num = num := fun h => hne (h.symm.trans hr)
        rw [List.eraseP_cons_of_pos (by simpa using hr),
          List.find?_cons_of_neg (by simpa using hnot)]
      · by_cases hnum : r.num = num
        · simp [hnum, hne]
        · simpa [hr, hnum] using ih

theorem num_ne_of_mem_eraseP {q : List RequestCtx} (h : (q.map RequestCtx.num).Nodup) :
    ∀ r ∈ q.eraseP fun r => r.num = num, r.num ≠ num := by
  induction q with
  | nil => simp
  | cons r q ih =>
      obtain ⟨hnot, hnodup⟩ := List.nodup_cons.mp h
      by_cases hr : r.num = num
      · rw [List.eraseP_cons_of_pos (by simpa using hr)]
        rintro r' hr' heq
        exact hnot (List.mem_map.mpr ⟨r', hr', heq.trans hr.symm⟩)
      · rw [List.eraseP_cons_of_neg (by simpa using hr)]
        rintro r' hr'
        rcases List.mem_cons.mp hr' with rfl | hr'
        · exact hr
        · exact ih hnodup r' hr'

theorem awaits_setAwaited (hne : num ≠ m) (awaited : Awaited) :
    (c.setAwaited m awaited).awaits num = c.awaits num := by
  simp only [awaits, setAwaited]
  induction c.rpcCallQ with
  | nil => rfl
  | cons r q ih =>
      by_cases hr : r.num = m
      · have hnot : ¬ m = num := fun h => hne h.symm
        simpa [hr, hnot] using ih
      · by_cases hnum : r.num = num
        · simp [hnum, hne]
        · simpa [hr, hnum] using ih

theorem awaits_setAwaited_self (h : c.awaits num ≠ none) :
    (c.setAwaited num awaited).awaits num = some awaited := by
  simp only [awaits, setAwaited, ne_eq, Option.map_eq_none_iff] at h ⊢
  revert h
  induction c.rpcCallQ with
  | nil => exact fun h => absurd rfl h
  | cons r q ih =>
      intro h
      by_cases hr : r.num = num
      · simp [hr]
      · simpa [hr] using ih (by simpa [hr] using h)

theorem map_num_setAwaited :
    (c.setAwaited m awaited).rpcCallQ.map RequestCtx.num = c.rpcCallQ.map RequestCtx.num := by
  simp only [setAwaited, List.map_map]
  refine List.map_congr_left fun r _ => ?_
  simp only [Function.comp]
  split <;> rfl

/-- What becomes of the contexts when one is given something else to wait for. -/
theorem mem_setAwaited {r : RequestCtx} (hr : r ∈ (c.setAwaited m awaited).rpcCallQ) :
    ∃ r' ∈ c.rpcCallQ, r'.num = r.num ∧ (r = r' ∧ r.num ≠ m ∨ r.num = m ∧ r.awaited = awaited) := by
  obtain ⟨r', hr', rfl⟩ := List.mem_map.mp hr
  by_cases hnum : r'.num = m
  · rw [if_pos hnum]
    exact ⟨r', hr', rfl, .inr ⟨hnum, rfl⟩⟩
  · rw [if_neg hnum]
    exact ⟨r', hr', rfl, .inl ⟨rfl, hnum⟩⟩

theorem listAddTail_ok (h : c.listAddTail awaited = .ok c') :
    c' = { c with rpcCallQ := c.rpcCallQ ++ [{ num := c.messages, awaited := awaited }] } := by
  rw [listAddTail] at h
  split at h <;> cases h
  rfl

/-! ### Distinct contexts -/

theorem Distinct.finish (hd : Distinct c) (hm : m < c.messages)
    (h : (c.answer m).listDel m = .ok c') : Distinct c' := by
  rw [listDel_ok h]
  have hsub : (c.rpcCallQ.eraseP fun r => r.num = m).Sublist c.rpcCallQ := List.eraseP_sublist
  refine ⟨hd.nodup.sublist (hsub.map RequestCtx.num), fun r hr => hd.below r (hsub.subset hr),
    fun r hr hawaited hmem => ?_, fun n hn => ?_⟩
  · rcases List.mem_cons.mp hmem with heq | hmem
    · exact num_ne_of_mem_eraseP hd.nodup r hr heq
    · exact hd.unanswered r (hsub.subset hr) hawaited hmem
  · rcases List.mem_cons.mp hn with rfl | hn
    · exact hm
    · exact hd.answered n hn

theorem Distinct.free (hd : Distinct c) (hm : m < c.messages) :
    Distinct ((c.answer m).setAwaited m .freed) := by
  refine ⟨?_, fun r hr => ?_, fun r hr hawaited hmem => ?_, fun n hn => ?_⟩
  · rw [map_num_setAwaited]
    exact hd.nodup
  · obtain ⟨r', hr', hnum, -⟩ := mem_setAwaited hr
    exact hnum ▸ hd.below r' hr'
  · obtain ⟨r', hr', -, ⟨rfl, hne⟩ | ⟨-, hfreed⟩⟩ := mem_setAwaited hr
    · rcases List.mem_cons.mp hmem with heq | hmem
      · exact hne heq
      · exact hd.unanswered r hr' hawaited hmem
    · exact hawaited hfreed
  · rcases List.mem_cons.mp hn with rfl | hn
    · exact hm
    · exact hd.answered n hn

theorem Distinct.introspectListNext (hd : Distinct c) (hm : m < c.messages)
    (hopen : m ∉ c.answered) {targets : List IntrospectionTarget}
    (h : c.introspectListNext b m targets = .ok c') : Distinct c' := by
  cases targets with
  | nil => exact hd.finish hm h
  | cons cur later =>
      rw [introspectListNext_cons h]
      refine ⟨?_, fun r hr => ?_, fun r hr hawaited => ?_, hd.answered⟩
      · rw [map_num_setAwaited]
        exact hd.nodup
      · obtain ⟨r', hr', hnum, -⟩ := mem_setAwaited hr
        exact hnum ▸ hd.below r' hr'
      · obtain ⟨r', hr', -, ⟨rfl, -⟩ | ⟨rfl, -⟩⟩ := mem_setAwaited hr
        · exact hd.unanswered r hr' hawaited
        · exact hopen

/-- What a handler does to the queue: a context for the message is added, or
nothing. -/
theorem handleDbusRequest_ok {req : DbusRequest} {r : Handled × DbusClient}
    (h : c.handleDbusRequest b req = .ok r) :
    (∃ ctxs, r.2.rpcCallQ = c.rpcCallQ ++ ctxs ∧ ctxs.map RequestCtx.num <+: [c.messages] ∧
      (ctxs ≠ [] → r.1 = .served)) ∧ r.2.messages = c.messages ∧ r.2.answered = c.answered := by
  cases req with
  | call sent =>
      cases sent with
      | true =>
          obtain ⟨c₁, hadd, hr⟩ := bind_ok h
          cases hr
          rw [listAddTail_ok hadd]
          exact ⟨⟨_, rfl, List.prefix_refl _, fun _ => rfl⟩, rfl, rfl⟩
      | false =>
          cases h
          exact ⟨⟨[], by simp, List.nil_prefix, by simp⟩, rfl, rfl⟩
  | list sent =>
      obtain ⟨c₁, hlist, hr⟩ := bind_ok h
      cases hr
      have hsame : ∀ c₂, (if b.haveUbus then c.handleListUbus else c) = c₂ →
          c₂.rpcCallQ = c.rpcCallQ ∧ c₂.messages = c.messages ∧ c₂.answered = c.answered := by
        rintro c₂ rfl
        split <;> exact ⟨rfl, rfl, rfl⟩
      obtain ⟨hq, hm, ha⟩ := hsame _ rfl
      cases sent with
      | true =>
          rw [listAddTail_ok hlist]
          refine ⟨⟨[⟨c.messages, .listNames⟩], ?_, List.prefix_refl _, fun _ => rfl⟩, hm, ha⟩
          show _ ++ [_] = _
          rw [hq, hm]
      | false =>
          cases hlist
          exact ⟨⟨[], by rw [hq, List.append_nil], List.nil_prefix, by simp⟩, hm, ha⟩

/-- What a message does: a context for it is added, or it is answered, or
neither. -/
structure Received (c c' : DbusClient) : Prop where
  messages : c'.messages = c.messages + 1
  queue : ∃ ctxs, c'.rpcCallQ = c.rpcCallQ ++ ctxs ∧ ctxs.map RequestCtx.num <+: [c.messages] ∧
    (ctxs ≠ [] → c'.answered = c.answered)
  answered : ∀ n, n ∈ c'.answered → n ∈ c.answered ∨ n = c.messages
  kept : ∀ n ∈ c.answered, n ∈ c'.answered

theorem received_message {req : DbusRequest} (h : c.wsuOnMsgFromDbusClient b req = .ok c') :
    Received c c' := by
  rw [wsuOnMsgFromDbusClient] at h
  split at h
  · cases h
    exact ⟨rfl, ⟨[], by simp, List.nil_prefix, fun _ => rfl⟩, fun _ hn => .inl hn, fun _ hn => hn⟩
  · obtain ⟨c₁, hhandled, hc'⟩ := bind_ok h
    obtain ⟨⟨handled, c₂⟩, hr, hc₁⟩ := bind_ok hhandled
    cases hc'
    cases hc₁
    obtain ⟨⟨ctxs, hq, hnums, hserved⟩, hm, ha⟩ := handleDbusRequest_ok hr
    cases handled with
    | served =>
        exact ⟨congrArg (· + 1) hm, ⟨ctxs, hq, hnums, fun _ => ha⟩, fun n hn => .inl (ha ▸ hn),
          fun n hn => ha ▸ hn⟩
    | passedOn =>
        exact ⟨congrArg (· + 1) hm, ⟨ctxs, hq, hnums, fun _ => ha⟩, fun n hn => .inl (ha ▸ hn),
          fun n hn => ha ▸ hn⟩
    | failed =>
        refine ⟨congrArg (· + 1) hm, ⟨ctxs, hq, hnums, fun hne => ?_⟩, fun n hn => ?_,
          fun n hn => List.mem_cons_of_mem _ (ha ▸ hn)⟩
        · cases hserved hne
        rcases List.mem_cons.mp hn with rfl | hn
        · exact .inr hm
        · exact .inl (ha ▸ hn)

theorem num_eq_of_map {ctxs : List RequestCtx}
    (h : ctxs.map RequestCtx.num <+: [num]) : ∀ r ∈ ctxs, r.num = num := by
  intro r hr
  exact List.mem_singleton.mp (h.subset (List.mem_map_of_mem hr))

theorem Distinct.received (hd : Distinct c) (h : Received c c') : Distinct c' := by
  obtain ⟨ctxs, hq, hnums, hanswered⟩ := h.queue
  have hnew := num_eq_of_map hnums
  refine ⟨?_, fun r hr => ?_, fun r hr hawaited hmem => ?_, fun n hn => ?_⟩
  · rw [hq, List.map_append, List.nodup_append]
    refine ⟨hd.nodup, (List.nodup_singleton _).sublist hnums.sublist, ?_⟩
    rintro n hn n' hn' rfl
    obtain ⟨r, hr, rfl⟩ := List.mem_map.mp hn
    have hlt := hd.below r hr
    rw [List.mem_singleton.mp (hnums.subset hn')] at hlt
    exact Nat.lt_irrefl _ hlt
  · rw [h.messages]
    rw [hq] at hr
    rcases List.mem_append.mp hr with hr | hr
    · exact Nat.lt_succ_of_lt (hd.below r hr)
    · rw [hnew r hr]
      exact Nat.lt_succ_self _
  · rw [hq] at hr
    rcases List.mem_append.mp hr with hr | hr
    · rcases h.answered r.num hmem with hmem | heq
      · exact hd.unanswered r hr hawaited hmem
      · exact Nat.ne_of_lt (hd.below r hr) heq
    · rw [hanswered (List.ne_nil_of_mem hr), hnew r hr] at hmem
      exact Nat.lt_irrefl _ (hd.answered _ hmem)
  · rw [h.messages]
    rcases h.answered n hn with hn | rfl
    · exact Nat.lt_succ_of_lt (hd.answered n hn)
    · exact Nat.lt_succ_self _

theorem Distinct.step (hd : Distinct c) {e : DbusEvent} (h : step b c e = .ok c') :
    Distinct c' := by
  cases e with
  | message req => exact hd.received (received_message h)
  | callReply m =>
      simp only [DbusClient.step] at h
      split at h
      · next hawaits => exact hd.finish (hd.of_awaits hawaits).1 h
      · cases h
        exact hd
  | namesReply m names =>
      simp only [DbusClient.step] at h
      split at h
      · next hawaits =>
        obtain ⟨hm, hopen⟩ := hd.of_awaits hawaits
        cases names with
        | none =>
            cases h
            exact hd.free hm
        | some names => exact hd.introspectListNext hm (hopen (by simp)) h
      · cases h
        exact hd
  | introspectReply m reply =>
      simp only [DbusClient.step] at h
      split at h
      · next cur later hawaits =>
        obtain ⟨hm, hopen⟩ := hd.of_awaits hawaits
        obtain ⟨targets, hnext⟩ := exists_introspectListNext h
        exact hd.introspectListNext hm (hopen (by simp)) hnext
      · cases h
        exact hd
  | sessions n =>
      cases h
      exact ⟨hd.nodup, hd.below, hd.unanswered, hd.answered⟩

theorem distinct_connected {totalReqMax numActiveSes : ℕ} :
    Distinct (connected totalReqMax numActiveSes) := by
  constructor <;> simp [connected]

theorem distinct_run {totalReqMax numActiveSes : ℕ} {es : List DbusEvent}
    (h : run (step b) (connected totalReqMax numActiveSes) es = .ok c) : Distinct c :=
  run_invariant_of_step Distinct (fun _ _ _ hd hs => hd.step hs) distinct_connected h

/-! ### What other events leave alone -/

structure Apart (num : ℕ) (c c' : DbusClient) : Prop where
  awaits : c'.awaits num = c.awaits num
  answered : num ∈ c.answered → num ∈ c'.answered
  messages : c.messages ≤ c'.messages

theorem Apart.refl : Apart num c c := ⟨rfl, id, le_refl _⟩

theorem apart_finish (hne : num ≠ m) (h : (c.answer m).listDel m = .ok c') : Apart num c c' := by
  rw [listDel_ok h]
  refine ⟨?_, List.mem_cons_of_mem m, le_refl _⟩
  simp only [awaits, answer, find?_eraseP hne]

theorem apart_introspectListNext (hne : num ≠ m) {targets : List IntrospectionTarget}
    (h : c.introspectListNext b m targets = .ok c') : Apart num c c' := by
  cases targets with
  | nil => exact apart_finish hne h
  | cons cur later =>
      rw [introspectListNext_cons h]
      exact ⟨awaits_setAwaited hne _, id, le_refl _⟩

theorem Received.apart (h : Received c c') (hknown : num < c.messages) : Apart num c c' := by
  obtain ⟨ctxs, hq, hnums, -⟩ := h.queue
  refine ⟨?_, h.kept num, by rw [h.messages]; exact Nat.le_succ _⟩
  have hnot : ctxs.find? (fun r => r.num = num) = none := by
    rw [List.find?_eq_none]
    intro r hr heq
    have hnum : r.num = num := by simpa using heq
    exact Nat.ne_of_lt hknown (hnum.symm.trans (num_eq_of_map hnums r hr))
  simp only [awaits, hq, List.find?_append, hnot, Option.or_none]

/-- Events that are no replies to the list leave it alone. -/
theorem apart_step (hknown : num < c.messages) {e : DbusEvent} (he : isReplyTo num e = false)
    (hnames : c.awaits num ≠ some .listNames) (hcall : c.awaits num ≠ some .call)
    (h : step b c e = .ok c') : Apart num c c' := by
  cases e with
  | message req => exact (received_message h).apart hknown
  | callReply m =>
      simp only [step] at h
      split at h
      · next hawaits => exact apart_finish (fun heq => hcall (heq ▸ hawaits)) h
      · cases h
        exact .refl
  | namesReply m names =>
      simp only [step] at h
      split at h
      · next hawaits =>
        have hne : num ≠ m := fun heq => hnames (heq ▸ hawaits)
        cases names with
        | none =>
            cases h
            exact ⟨awaits_setAwaited hne _, List.mem_cons_of_mem m, le_refl _⟩
        | some names => exact apart_introspectListNext hne h
      · cases h
        exact .refl
  | introspectReply m reply =>
      simp only [step] at h
      split at h
      · obtain ⟨targets, hnext⟩ := exists_introspectListNext h
        exact apart_introspectListNext (fun heq => by simp [isReplyTo, heq] at he) hnext
      · cases h
        exact .refl
  | sessions n =>
      cases h
      exact ⟨rfl, id, le_refl _⟩

/-! ### Rounds -/

variable {bus : IntrospectionTarget → Introspection} {queue : List IntrospectionTarget}

theorem ListAt.awaits_ne (h : ListAt c num queue) :
    c.awaits num ≠ some .listNames ∧ c.awaits num ≠ some .call := by
  cases queue with
  | nil =>
      simp [(h.done rfl).2]
  | cons cur later =>
      simp [h.waits cur later rfl]

theorem ListAt.answered_iff (h : ListAt c num queue) : num ∈ c.answered ↔ queue = [] := by
  refine ⟨fun hmem => ?_, fun hq => (h.done hq).1⟩
  cases queue with
  | nil => rfl
  | cons cur later =>
      exact absurd hmem ((h.distinct.of_awaits (h.waits cur later rfl)).2 (by simp))

/-- A queue of objects is taken up by the context of the list. -/
theorem listAt_introspectListNext (hd : Distinct c) (hawaits : c.awaits num = some awaited)
    (hopen : awaited ≠ .freed) (h : c.introspectListNext b num queue = .ok c') :
    ListAt c' num queue := by
  obtain ⟨hknown, hnot⟩ := hd.of_awaits hawaits
  have hd' := hd.introspectListNext hknown (hnot hopen) h
  cases queue with
  | nil =>
      have hc' : (c.answer num).listDel num = .ok c' := h
      rw [listDel_ok hc'] at hd' ⊢
      refine ⟨hd', hknown, by simp, fun _ => ⟨List.mem_cons_self, ?_⟩⟩
      have hnone : (c.rpcCallQ.eraseP fun r => r.num = num).find? (fun r => r.num = num) =
          none := by
        rw [List.find?_eq_none]
        exact fun r hr => by simpa using num_ne_of_mem_eraseP hd.nodup r hr
      simp only [awaits, answer, hnone, Option.map_none]
  | cons cur later =>
      rw [introspectListNext_cons h] at hd' ⊢
      refine ⟨hd', hknown, fun cur' later' hq => ?_, by simp⟩
      cases hq
      exact awaits_setAwaited_self (by simp [hawaits])

/-- A reply that the callback gets through adds the objects below. -/
theorem wsdIntrospectCb_reported {cur : IntrospectionTarget} {later : List IntrospectionTarget}
    {reply : Introspected} (hreply : Reported (bus cur) reply)
    (h : c.wsdIntrospectCb b num cur later reply = .ok c') :
    c.introspectListNext b num (later ++ objectsBelow bus cur) = .ok c' := by
  rw [objectsBelow, documentOf]
  cases hreport : reply with
  | error =>
      rw [hreport] at hreply h
      generalize bus cur = doc at hreply ⊢
      cases hreply
      have hnext : c.introspectListNext b num later = .ok c' := h
      simpa using hnext
  | nodes names =>
      rw [hreport] at hreply h
      have hnext : c.introspectListNext b num (later ++ names.map fun node =>
          { cur with path := childPath cur.path node }) = .ok c' := h
      generalize bus cur = doc at hreply ⊢
      cases hreply with
      | nodes root => cases hroot : isIntrospection root <;> simpa [hroot] using hnext
  | unreadable =>
      rw [hreport] at h
      cases h

theorem listAt_reply (h : ListAt c num queue) {reply : Introspected}
    (htrue : Truthful bus num c (.introspectReply num reply))
    (hstep : step b c (.introspectReply num reply) = .ok c') :
    ListAt c' num (oneRound (objectsBelow bus) queue) := by
  simp only [step] at hstep
  cases queue with
  | nil =>
      rw [(h.done rfl).2] at hstep
      cases hstep
      exact h
  | cons cur later =>
      have hwaits := h.waits cur later rfl
      rw [hwaits] at hstep
      exact listAt_introspectListNext h.distinct hwaits (by simp)
        (wsdIntrospectCb_reported (htrue rfl cur later hwaits) hstep)

theorem listAt_step (h : ListAt c num queue) {e : DbusEvent} (htrue : Truthful bus num c e)
    (hstep : step b c e = .ok c') :
    ListAt c' num (rounds (objectsBelow bus) ([e].countP (isReplyTo num)) queue) := by
  cases he : isReplyTo num e with
  | false =>
      have hapart := apart_step h.known he h.awaits_ne.1 h.awaits_ne.2 hstep
      rw [List.countP_singleton, he]
      exact ⟨h.distinct.step hstep, Nat.lt_of_lt_of_le h.known hapart.messages,
        fun cur later hq => hapart.awaits.trans (h.waits cur later hq),
        fun hq => ⟨hapart.answered (h.done hq).1, hapart.awaits.trans (h.done hq).2⟩⟩
  | true =>
      rw [List.countP_singleton, he]
      cases e with
      | introspectReply m reply =>
          obtain rfl : m = num := by simpa [isReplyTo] using he
          exact listAt_reply h htrue hstep
      | message req => cases he
      | callReply m => cases he
      | namesReply m names => cases he
      | sessions n => cases he

/-- Whatever else the client does meanwhile, a list makes one round for each
reply to it. -/
theorem listAt_run (h : ListAt c num queue) {es : List DbusEvent}
    (hg : Guarded (step b) (Truthful bus num) c es) (hrun : run (step b) c es = .ok c') :
    ListAt c' num (rounds (objectsBelow bus) (es.countP (isReplyTo num)) queue) := by
  refine guarded_history
    (fun es c => ListAt c num (rounds (objectsBelow bus) (es.countP (isReplyTo num)) queue))
    h (fun es s e s' hi hg hs => ?_) hg hrun
  rw [List.countP_append, rounds_add]
  exact listAt_step hi hg hs

end

/-- A list is answered when there was a reply for each object. After any run of
a client that the program gets through, let a list get the names on the bus. Whatever requests the
client sends from then on and whatever replies to these come in between, the
list is answered exactly when the objects of the named services end at some
level and the replies for the list are at least as many as the objects above
it. -/
theorem answered_iff_replies {b : Build} {bus : IntrospectionTarget → Introspection}
    {totalReqMax numActiveSes : ℕ} {before es : List DbusEvent} {c c' : DbusClient} {num : ℕ}
    {names : List CString}
    (hbefore : run (step b) (connected totalReqMax numActiveSes) before = .ok c)
    (hwaits : c.awaits num = some .listNames)
    (hg : Guarded (step b) (Truthful bus num) c (.namesReply num (some names) :: es))
    (hrun : run (step b) c (.namesReply num (some names) :: es) = .ok c') :
    num ∈ c'.answered ↔ ∃ d, level (objectsBelow bus) d (namedTargets b names) = [] ∧
      (levels (objectsBelow bus) d (namedTargets b names)).length ≤
        es.countP (isReplyTo num) := by
  obtain ⟨c₁, hnames, hrest⟩ := run_cons_ok hrun
  have hstart : c.introspectListNext b num (namedTargets b names) = .ok c₁ := by
    simp only [step, hwaits] at hnames
    exact hnames
  have hat := listAt_introspectListNext (distinct_run hbefore) hwaits (by simp) hstart
  rw [(listAt_run hat (hg.2 c₁ hnames) hrest).answered_iff, rounds_eq_nil_iff]

def betweenReplies : List DbusEvent :=
  [.message (.call true), .introspectReply 0 (.nodes [.ofString "lamp"]), .callReply 1,
    .introspectReply 0 (.nodes [])]

theorem answered_iff_replies_lamp :
    let b : Build := ⟨false, .ofString "/wsd", strictLibrary⟩
    let es := .namesReply 0 (some [.ofString "wsd.lamp"]) :: betweenReplies
    ∃ c', run (step b) (connected 1024 1) (.message (.list true) :: es) = .ok c' ∧
      0 ∈ c'.answered ∧
      ∃ d, level (objectsBelow lampBus) d (namedTargets b [.ofString "wsd.lamp"]) = [] ∧
        (levels (objectsBelow lampBus) d (namedTargets b [.ofString "wsd.lamp"])).length ≤
          betweenReplies.countP (isReplyTo 0) := by
  intro b es
  let client (rpcQLen : BitVec 32) (rpcCallQ : List RequestCtx) (messages : ℕ)
      (answered : List ℕ) : DbusClient :=
    ⟨rpcQLen, rpcCallQ, 1024, 1, messages, answered, []⟩
  let top : Awaited := .introspect ⟨.ofString "wsd.lamp", .ofString "/wsd"⟩ []
  let lamp : Awaited := .introspect ⟨.ofString "wsd.lamp", .ofString "/wsd/lamp"⟩ []
  have h₁ : step b (connected 1024 1) (.message (.list true)) =
      .ok (client (0 + 1) [⟨0, .listNames⟩] 1 []) := rfl
  have h₂ : step b (client (0 + 1) [⟨0, .listNames⟩] 1 [])
      (.namesReply 0 (some [.ofString "wsd.lamp"])) =
      .ok (client (0 + 1) [⟨0, top⟩] 1 []) := rfl
  have h₃ : step b (client (0 + 1) [⟨0, top⟩] 1 []) (.message (.call true)) =
      .ok (client (0 + 1 + 1) [⟨0, top⟩, ⟨1, .call⟩] 2 []) := by
    rw [step, wsuOnMsgFromDbusClient, if_neg (by decide)]
    rfl
  have h₄ : step b (client (0 + 1 + 1) [⟨0, top⟩, ⟨1, .call⟩] 2 [])
      (.introspectReply 0 (.nodes [.ofString "lamp"])) =
      .ok (client (0 + 1 + 1) [⟨0, lamp⟩, ⟨1, .call⟩] 2 []) := rfl
  have h₅ : step b (client (0 + 1 + 1) [⟨0, lamp⟩, ⟨1, .call⟩] 2 []) (.callReply 1) =
      .ok (client (0 + 1 + 1) [⟨0, lamp⟩] 2 [1]) := rfl
  have h₆ : step b (client (0 + 1 + 1) [⟨0, lamp⟩] 2 [1]) (.introspectReply 0 (.nodes [])) =
      .ok (client (0 + 1 + 1) [] 2 [0, 1]) := rfl
  have hbefore : run (step b) (connected 1024 1) [.message (.list true)] =
      .ok (client (0 + 1) [⟨0, .listNames⟩] 1 []) := run_cons h₁ []
  have hrun : run (step b) (client (0 + 1) [⟨0, .listNames⟩] 1 []) es =
      .ok (client (0 + 1 + 1) [] 2 [0, 1]) := by
    rw [run_cons h₂, betweenReplies, run_cons h₃, run_cons h₄, run_cons h₅, run_cons h₆, run]
  have hg : Guarded (step b) (Truthful lampBus 0) (client (0 + 1) [⟨0, .listNames⟩] 1 []) es := by
    refine .cons trivial h₂ (.cons trivial h₃ (.cons ?_ h₄ (.cons trivial h₅
      (.cons ?_ h₆ trivial))))
    · rintro - cur later hwaits
      cases hwaits
      exact .nodes _
    · rintro - cur later hwaits
      cases hwaits
      exact .nodes _
  refine ⟨_, (run_cons h₁ es).trans hrun, List.mem_cons_self, ?_⟩
  exact (answered_iff_replies hbefore rfl hg hrun).mp List.mem_cons_self

end Owsd.Dbus.DbusClient
