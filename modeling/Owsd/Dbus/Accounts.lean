import Owsd.Dbus.ListProgress

/-!
What becomes of the requests of a client on D-Bus.

A request is refused for the quota, handed on to ubus, answered at once when
nobody takes it, or waits for D-Bus. In any order of requests and replies
each one is answered at most once, and one that D-Bus took waits until it is
answered (`accounted_run`). A list whose first message could not be sent is
the exception: it is counted as taken and forgotten.
-/

namespace Owsd.Dbus.DbusClient

def requests (es : List DbusEvent) : List DbusRequest :=
  es.filterMap fun e =>
    match e with
    | .message req => some req
    | _ => none

/-- D-Bus owes the request an answer. -/
def Waiting (c : DbusClient) (n : ℕ) : Prop := ∃ r ∈ c.rpcCallQ, r.num = n ∧ r.awaited ≠ .freed

/-- D-Bus has nothing to do with the request: ubus has it, or nobody has. -/
def Elsewhere (b : Build) : DbusRequest → Prop
  | .call sent => sent = false ∧ b.haveUbus = true
  | .list sent => sent = false

inductive Booked (b : Build) (req : DbusRequest) (c c' : DbusClient) : Prop
  | refused : c'.rpcCallQ = c.rpcCallQ → c'.answered = c.answered →
      c'.refused = c.messages :: c.refused → Booked b req c c'
  | taken (awaited : Awaited) : awaited ≠ .freed → ¬Elsewhere b req →
      c'.rpcCallQ = c.rpcCallQ ++ [⟨c.messages, awaited⟩] → c'.answered = c.answered →
      c'.refused = c.refused → Booked b req c c'
  | elsewhere : Elsewhere b req → c'.rpcCallQ = c.rpcCallQ → c'.answered = c.answered →
      c'.refused = c.refused → Booked b req c c'
  | failed : ¬Elsewhere b req → c'.rpcCallQ = c.rpcCallQ →
      c'.answered = c.messages :: c.answered → c'.refused = c.refused → Booked b req c c'

inductive Settled (c c' : DbusClient) : Prop
  | same : c'.rpcCallQ = c.rpcCallQ → c'.answered = c.answered → Settled c c'
  /-- The context waits for something else. -/
  | moved (m : ℕ) (awaited : Awaited) : awaited ≠ .freed → Waiting c m →
      c'.rpcCallQ = (c.setAwaited m awaited).rpcCallQ → c'.answered = c.answered → Settled c c'
  /-- The request was answered, and its context is gone or freed. -/
  | answered (m : ℕ) : Waiting c m → c'.answered = m :: c.answered →
      (c'.rpcCallQ = c.rpcCallQ.eraseP (fun r => r.num = m) ∨
        c'.rpcCallQ = (c.setAwaited m .freed).rpcCallQ) → Settled c c'

section
variable {b : Build} {c c' : DbusClient} {n m : ℕ} {awaited : Awaited}

theorem waiting_of_awaits (h : c.awaits m = some awaited) (hopen : awaited ≠ .freed) :
    Waiting c m := by
  obtain ⟨r, hr, hnum, hawaited⟩ := exists_of_awaits h
  exact ⟨r, hr, hnum, hawaited ▸ hopen⟩

theorem booked_message {req : DbusRequest} (h : c.wsuOnMsgFromDbusClient b req = .ok c') :
    Booked b req c c' ∧ c'.messages = c.messages + 1 := by
  rw [wsuOnMsgFromDbusClient] at h
  split at h
  · cases h
    exact ⟨.refused rfl rfl rfl, rfl⟩
  · obtain ⟨c₁, hhandled, hc'⟩ := bind_ok h
    obtain ⟨⟨handled, c₂⟩, hr, hc₁⟩ := bind_ok hhandled
    cases hc'
    cases hc₁
    cases req with
    | call sent =>
        cases sent with
        | true =>
            obtain ⟨c₃, hadd, hr⟩ := bind_ok hr
            cases hr
            rw [listAddTail_ok hadd]
            exact ⟨.taken .call (by simp) (by simp [Elsewhere]) rfl rfl rfl, rfl⟩
        | false =>
            cases hr
            cases hubus : b.haveUbus with
            | true => exact ⟨.elsewhere ⟨rfl, hubus⟩ rfl rfl rfl, rfl⟩
            | false => exact ⟨.failed (by simp [Elsewhere, hubus]) rfl rfl rfl, rfl⟩
    | list sent =>
        obtain ⟨c₃, hlist, hr⟩ := bind_ok hr
        cases hr
        have hsame : ∀ c₄, (if b.haveUbus then c.handleListUbus else c) = c₄ →
            c₄.rpcCallQ = c.rpcCallQ ∧ c₄.messages = c.messages ∧ c₄.answered = c.answered ∧
              c₄.refused = c.refused := by
          rintro c₄ rfl
          split <;> exact ⟨rfl, rfl, rfl, rfl⟩
        obtain ⟨hq, hm, ha, hrf⟩ := hsame _ rfl
        cases sent with
        | true =>
            rw [listAddTail_ok hlist]
            refine ⟨.taken .listNames (by simp) (by simp [Elsewhere]) ?_ ha hrf,
              congrArg (· + 1) hm⟩
            show _ ++ [_] = _
            rw [hq, hm]
        | false =>
            cases hlist
            exact ⟨.elsewhere rfl hq ha hrf, congrArg (· + 1) hm⟩

theorem settled_introspectListNext (hwaits : Waiting c m) {targets : List IntrospectionTarget}
    (h : c.introspectListNext b m targets = .ok c') :
    Settled c c' ∧ c'.messages = c.messages ∧ c'.refused = c.refused := by
  cases targets with
  | nil =>
      have hc' : (c.answer m).listDel m = .ok c' := h
      rw [listDel_ok hc']
      exact ⟨.answered m hwaits rfl (.inl rfl), rfl, rfl⟩
  | cons cur later =>
      rw [introspectListNext_cons h]
      exact ⟨.moved m _ (by simp) hwaits rfl rfl, rfl, rfl⟩

theorem settled_step {e : DbusEvent} (he : ∀ req, e ≠ .message req) (h : step b c e = .ok c') :
    Settled c c' ∧ c'.messages = c.messages ∧ c'.refused = c.refused := by
  cases e with
  | message req => exact absurd rfl (he req)
  | callReply m =>
      simp only [step] at h
      split at h
      · next hawaits =>
        have hc' : (c.answer m).listDel m = .ok c' := h
        rw [listDel_ok hc']
        exact ⟨.answered m (waiting_of_awaits hawaits (by simp)) rfl (.inl rfl), rfl, rfl⟩
      · cases h
        exact ⟨.same rfl rfl, rfl, rfl⟩
  | namesReply m names =>
      simp only [step] at h
      split at h
      · next hawaits =>
        have hwaits := waiting_of_awaits hawaits (by simp)
        cases names with
        | none =>
            cases h
            exact ⟨.answered m hwaits rfl (.inr rfl), rfl, rfl⟩
        | some names => exact settled_introspectListNext hwaits h
      · cases h
        exact ⟨.same rfl rfl, rfl, rfl⟩
  | introspectReply m reply =>
      simp only [step] at h
      split at h
      · next hawaits =>
        obtain ⟨targets, hnext⟩ := exists_introspectListNext h
        exact settled_introspectListNext (waiting_of_awaits hawaits (by simp)) hnext
      · cases h
        exact ⟨.same rfl rfl, rfl, rfl⟩
  | sessions n =>
      cases h
      exact ⟨.same rfl rfl, rfl, rfl⟩

/-! ### Who waits -/

theorem waiting_setAwaited (hopen : awaited ≠ .freed) (hwaits : Waiting c m) :
    (∃ r ∈ (c.setAwaited m awaited).rpcCallQ, r.num = n ∧ r.awaited ≠ .freed) ↔ Waiting c n := by
  constructor
  · rintro ⟨r, hr, rfl, hawaited⟩
    obtain ⟨r', hr', -, ⟨rfl, -⟩ | ⟨hnum, -⟩⟩ := mem_setAwaited hr
    · exact ⟨r, hr', rfl, hawaited⟩
    · exact hnum ▸ hwaits
  · rintro ⟨r, hr, rfl, hawaited⟩
    refine ⟨_, List.mem_map_of_mem hr, ?_⟩
    split
    · exact ⟨rfl, hopen⟩
    · exact ⟨rfl, hawaited⟩

theorem waiting_eraseP (hnodup : (c.rpcCallQ.map RequestCtx.num).Nodup) :
    (∃ r ∈ c.rpcCallQ.eraseP (fun r => r.num = m), r.num = n ∧ r.awaited ≠ .freed) ↔
      n ≠ m ∧ Waiting c n := by
  constructor
  · rintro ⟨r, hr, rfl, hawaited⟩
    exact ⟨num_ne_of_mem_eraseP hnodup r hr, r, List.mem_of_mem_eraseP hr, rfl, hawaited⟩
  · rintro ⟨hne, r, hr, rfl, hawaited⟩
    exact ⟨r, (List.mem_eraseP_of_neg (by simpa using hne)).mpr hr, rfl, hawaited⟩

theorem waiting_free :
    (∃ r ∈ (c.setAwaited m .freed).rpcCallQ, r.num = n ∧ r.awaited ≠ .freed) ↔
      n ≠ m ∧ Waiting c n := by
  constructor
  · rintro ⟨r, hr, rfl, hawaited⟩
    obtain ⟨r', hr', -, ⟨rfl, hne⟩ | ⟨-, hfreed⟩⟩ := mem_setAwaited hr
    · exact ⟨hne, r, hr', rfl, hawaited⟩
    · exact absurd hfreed hawaited
  · rintro ⟨hne, r, hr, rfl, hawaited⟩
    refine ⟨_, List.mem_map_of_mem hr, ?_⟩
    rw [if_neg hne]
    exact ⟨rfl, hawaited⟩

end

/-- The account of one request. It waits while D-Bus has it and it was not
answered; what was answered was neither refused nor handed on. -/
structure Account (b : Build) (c : DbusClient) (n : ℕ) (req : DbusRequest) : Prop where
  waiting : Waiting c n ↔ n ∉ c.answered ∧ n ∉ c.refused ∧ ¬Elsewhere b req
  answered : n ∈ c.answered → n ∉ c.refused ∧ ¬Elsewhere b req

structure Accounted (b : Build) (es : List DbusEvent) (c : DbusClient) : Prop where
  distinct : Distinct c
  numbered : c.messages = (requests es).length
  once : c.answered.Nodup
  refused : ∀ n ∈ c.refused, n < c.messages
  account : ∀ n req, (requests es)[n]? = some req → Account b c n req

section
variable {b : Build} {c c' : DbusClient} {es : List DbusEvent} {n : ℕ}

theorem not_waiting_messages (hd : Distinct c) : ¬Waiting c c.messages := by
  rintro ⟨r, hr, hnum, -⟩
  exact Nat.ne_of_lt (hd.below r hr) hnum

/-- A message opens an account and leaves the others alone. -/
theorem Booked.account {req req' : DbusRequest} (hb : Booked b req c c')
    (h : n < c.messages) (hac : Account b c n req') : Account b c' n req' := by
  have hne : n ≠ c.messages := Nat.ne_of_lt h
  have hcons : ∀ l : List ℕ, n ∈ c.messages :: l ↔ n ∈ l := by
    intro l
    rw [List.mem_cons]
    exact or_iff_right hne
  cases hb with
  | refused hq ha hrf =>
      refine ⟨?_, ?_⟩
      · rw [Waiting, hq, ha, hrf, hcons]
        exact hac.waiting
      · rw [ha, hrf, hcons]
        exact hac.answered
  | taken awaited _ _ hq ha hrf =>
      refine ⟨?_, ?_⟩
      · rw [ha, hrf, ← hac.waiting, Waiting, Waiting, hq]
        constructor
        · rintro ⟨r, hr, hnum, hawaited⟩
          rcases List.mem_append.mp hr with hr | hr
          · exact ⟨r, hr, hnum, hawaited⟩
          · rw [List.mem_singleton.mp hr] at hnum
            exact absurd hnum.symm hne
        · rintro ⟨r, hr, hnum, hawaited⟩
          exact ⟨r, List.mem_append_left _ hr, hnum, hawaited⟩
      · rw [ha, hrf]
        exact hac.answered
  | elsewhere _ hq ha hrf =>
      refine ⟨?_, ?_⟩
      · rw [Waiting, hq, ha, hrf]
        exact hac.waiting
      · rw [ha, hrf]
        exact hac.answered
  | failed _ hq ha hrf =>
      refine ⟨?_, ?_⟩
      · rw [Waiting, hq, ha, hrf, hcons]
        exact hac.waiting
      · rw [ha, hrf, hcons]
        exact hac.answered

theorem Booked.opens {req : DbusRequest} (hb : Booked b req c c') (hd : Distinct c)
    (hrefused : ∀ n ∈ c.refused, n < c.messages) : Account b c' c.messages req := by
  have hwaits := not_waiting_messages hd
  have hanswered : c.messages ∉ c.answered := fun h => Nat.lt_irrefl _ (hd.answered _ h)
  have hrefused : c.messages ∉ c.refused := fun h => Nat.lt_irrefl _ (hrefused _ h)
  cases hb with
  | refused hq ha hrf =>
      refine ⟨?_, ?_⟩
      · rw [Waiting, hq, ha, hrf]
        exact iff_of_false hwaits fun h => h.2.1 List.mem_cons_self
      · rw [ha]
        exact fun h => absurd h hanswered
  | taken awaited hopen hhere hq ha hrf =>
      refine ⟨?_, ?_⟩
      · rw [Waiting, hq, ha, hrf]
        refine iff_of_true ⟨⟨c.messages, awaited⟩, ?_, rfl, hopen⟩ ⟨hanswered, hrefused, hhere⟩
        exact List.mem_append_right _ (List.mem_singleton_self _)
      · rw [ha]
        exact fun h => absurd h hanswered
  | elsewhere hgone hq ha hrf =>
      refine ⟨?_, ?_⟩
      · rw [Waiting, hq]
        exact iff_of_false hwaits fun h => h.2.2 hgone
      · rw [ha]
        exact fun h => absurd h hanswered
  | failed hhere hq ha hrf =>
      refine ⟨?_, ?_⟩
      · rw [Waiting, hq, ha]
        exact iff_of_false hwaits fun h => h.1 List.mem_cons_self
      · rw [hrf]
        exact fun _ => ⟨hrefused, hhere⟩

theorem Booked.once {req : DbusRequest} (hb : Booked b req c c') (hd : Distinct c)
    (h : c.answered.Nodup) : c'.answered.Nodup := by
  cases hb with
  | refused _ ha _ => rwa [ha]
  | taken _ _ _ _ ha _ => rwa [ha]
  | elsewhere _ _ ha _ => rwa [ha]
  | failed _ _ ha _ =>
      rw [ha, List.nodup_cons]
      exact ⟨fun hmem => Nat.lt_irrefl _ (hd.answered _ hmem), h⟩

theorem Booked.refused_lt {req : DbusRequest} (hb : Booked b req c c')
    (h : ∀ n ∈ c.refused, n < c.messages) : ∀ n ∈ c'.refused, n < c.messages + 1 := by
  have hold : ∀ n ∈ c.refused, n < c.messages + 1 := fun n hn => Nat.lt_succ_of_lt (h n hn)
  cases hb with
  | refused _ _ hrf =>
      rw [hrf]
      intro n hn
      rcases List.mem_cons.mp hn with rfl | hn
      · exact Nat.lt_succ_self _
      · exact hold n hn
  | taken _ _ _ _ _ hrf => rwa [hrf]
  | elsewhere _ _ _ hrf => rwa [hrf]
  | failed _ _ _ hrf => rwa [hrf]

theorem accounted_message {req : DbusRequest} (h : Accounted b es c)
    (hstep : c.wsuOnMsgFromDbusClient b req = .ok c') :
    Accounted b (es ++ [.message req]) c' := by
  obtain ⟨hb, hm⟩ := booked_message hstep
  have hreq : requests (es ++ [.message req]) = requests es ++ [req] := by
    rw [requests, List.filterMap_append]
    rfl
  refine ⟨h.distinct.received (received_message hstep), ?_, hb.once h.distinct h.once, ?_, ?_⟩
  · rw [hm, hreq, List.length_append, h.numbered]
    rfl
  · rw [hm]
    exact hb.refused_lt h.refused
  · intro n req' hget
    rw [hreq] at hget
    by_cases hlt : n < c.messages
    · rw [List.getElem?_append_left (h.numbered ▸ hlt)] at hget
      exact hb.account hlt (h.account n req' hget)
    · rw [List.getElem?_append_right (h.numbered ▸ Nat.not_lt.mp hlt),
        List.getElem?_singleton] at hget
      split at hget
      · next heq =>
        cases hget
        have hnum : n = c.messages := by
          have := h.numbered
          omega
        exact hnum ▸ hb.opens h.distinct h.refused
      · cases hget

theorem Settled.account {req : DbusRequest} (hs : Settled c c') (hd : Distinct c)
    (hrf : c'.refused = c.refused) (hac : Account b c n req) : Account b c' n req := by
  cases hs with
  | same hq ha =>
      refine ⟨?_, ?_⟩
      · rw [Waiting, hq, ha, hrf]
        exact hac.waiting
      · rw [ha, hrf]
        exact hac.answered
  | moved m awaited hopen hwaits hq ha =>
      refine ⟨?_, ?_⟩
      · rw [Waiting, hq, ha, hrf, waiting_setAwaited hopen hwaits]
        exact hac.waiting
      · rw [ha, hrf]
        exact hac.answered
  | answered m hwaits ha hq =>
      have hiff : Waiting c' n ↔ n ≠ m ∧ Waiting c n := by
        rcases hq with hq | hq
        · rw [Waiting, hq, waiting_eraseP hd.nodup]
        · rw [Waiting, hq, waiting_free]
      refine ⟨?_, ?_⟩
      · rw [hiff, ha, hrf, hac.waiting, List.mem_cons, not_or, and_assoc]
      · rw [ha, hrf]
        intro hmem
        rcases List.mem_cons.mp hmem with rfl | hmem
        · exact (hac.waiting.mp hwaits).2
        · exact hac.answered hmem

theorem accounted_settled {e : DbusEvent} (h : Accounted b es c) (he : ∀ req, e ≠ .message req)
    (hstep : step b c e = .ok c') : Accounted b (es ++ [e]) c' := by
  obtain ⟨hs, hm, hrf⟩ := settled_step he hstep
  have hreq : requests (es ++ [e]) = requests es := by
    rw [requests, List.filterMap_append]
    cases e with
    | message req => exact absurd rfl (he req)
    | _ => exact List.append_nil _
  have hopen : ∀ m, Waiting c m → m ∉ c.answered := by
    rintro m ⟨r, hr, rfl, hawaited⟩
    exact h.distinct.unanswered r hr hawaited
  refine ⟨h.distinct.step hstep, ?_, ?_, ?_, ?_⟩
  · rw [hm, hreq, h.numbered]
  · cases hs with
    | same _ ha => exact ha ▸ h.once
    | moved _ _ _ _ _ ha => exact ha ▸ h.once
    | answered m hwaits ha _ =>
        rw [ha, List.nodup_cons]
        exact ⟨hopen m hwaits, h.once⟩
  · rw [hrf, hm]
    exact h.refused
  · intro n req hget
    rw [hreq] at hget
    exact hs.account h.distinct hrf (h.account n req hget)

end

/-- Every request on D-Bus is accounted for. In every run of a client, in any
order of requests and replies, no request is answered twice; one that was
answered was neither refused for the quota nor handed on; and one that was not
answered waits for D-Bus, unless it was refused, ubus has it, or it is a list
whose first message could not be sent. -/
theorem accounted_run {b : Build} {totalReqMax numActiveSes : ℕ} {es : List DbusEvent}
    {c : DbusClient} (hrun : run (step b) (connected totalReqMax numActiveSes) es = .ok c) :
    c.answered.Nodup ∧ ∀ n req, (requests es)[n]? = some req →
      (Waiting c n ↔ n ∉ c.answered ∧ n ∉ c.refused ∧ ¬Elsewhere b req) ∧
        (n ∈ c.answered → n ∉ c.refused ∧ ¬Elsewhere b req) := by
  have hall : Accounted b es c := by
    refine run_history (Accounted b) ?_ (fun es s e s' _ h hstep => ?_) hrun
    · exact ⟨distinct_connected, rfl, List.nodup_nil, by simp [connected], by simp [requests]⟩
    · cases e with
      | message req => exact accounted_message h hstep
      | _ => exact accounted_settled h (by simp) hstep
  exact ⟨hall.once, fun n req hget => ⟨(hall.account n req hget).waiting,
    (hall.account n req hget).answered⟩⟩

/-- A call that was answered. -/
theorem accounted_run_call :
    ∃ c, run (step ⟨false, .ofString "/wsd", strictLibrary⟩) (connected 1024 1)
        [.message (.call true), .callReply 0] = .ok c ∧ c.answered = [0] ∧ ¬Waiting c 0 := by
  obtain ⟨c, hrun, hanswered⟩ : ∃ c,
      run (step ⟨false, .ofString "/wsd", strictLibrary⟩) (connected 1024 1)
        [.message (.call true), .callReply 0] = .ok c ∧ c.answered = [0] := ⟨_, rfl, rfl⟩
  refine ⟨c, hrun, hanswered, fun hwaits => ?_⟩
  have haccount := (accounted_run hrun).2 0 (.call true) rfl
  exact (haccount.1.mp hwaits).1 (hanswered ▸ List.mem_cons_self)

end Owsd.Dbus.DbusClient
