import Owsd.Server.Faults
import Owsd.Server.Queues

/-!
The subscriptions behind events on their way.

An event waits for its access check with a bare reference to the subscription
it is for. Closing a connection cancels the checks before it destroys the
subscriptions; `unsubscribe` destroys subscriptions and leaves the checks
alone. As long as no `unsubscribe` hits a subscription with a check pending,
the references hold in every run, and no notification is ever built from a
destroyed subscription.
-/

namespace Owsd.Server

open Rpc

/-- Every pending check of an event finds its subscription registered, for
the client that has the check in its queue. -/
def State.EventsLive (s : State) : Prop :=
  ∀ w c, s.clients w = some c → ∀ k ∈ c.accessCheckQ, ∀ t, k.ctx = .event t →
    ∃ info, s.findSub t.info = some info ∧ info.wsi = w

/-- No notification was queued for a subscription after it was destroyed. -/
def State.NotifiesLive (s : State) : Prop :=
  ∀ later w sub notif past, s.log = later ++ .notify w sub notif :: past →
    .destroySub sub ∉ past

/-- An `unsubscribe` that is handled ends no subscription for which a check
of an event is pending. -/
def KeepsAwaited (s : State) : Event → Prop
  | .message w blob _ a =>
      ∀ c args, s.clients w = some c → c.rpcQLen.toNat ≤ s.reqMax →
        parseRequest a.scalarAttrs blob = some (.ok (.unsub args)) →
        ∀ k ∈ c.accessCheckQ, ∀ t, k.ctx = .event t →
          ∀ info ∈ s.listenList, info.num = t.info → unsubMatches w args info = false
  | _ => True

/-! ### The register of subscriptions -/

/-- `listen_list` and the call queues agree, and what was destroyed is not
registered any more. -/
structure State.Registered (s : State) : Prop where
  older : ∀ info ∈ s.listenList, info.num < s.steps
  distinct : ∀ a ∈ s.listenList, ∀ b ∈ s.listenList, a.num = b.num → a = b
  owned : ∀ w c, s.clients w = some c → ∀ info ∈ s.listenList,
    .sub info.num ∈ c.rpcCallQ → info.wsi = w
  destroyed : ∀ n, .destroySub n ∈ s.log → n < s.steps ∧ ∀ info ∈ s.listenList, info.num ≠ n
  notified : Each (fun past a => ∀ w n notif, a = .notify w n notif → .destroySub n ∉ past) s.log

def Action.Unrelated : Action → Prop
  | .notify _ _ _ => False
  | .destroySub _ => False
  | _ => True

theorem State.Registered.notifiesLive {s : State} (h : s.Registered) : s.NotifiesLive :=
  fun _ w sub notif _ hlog => h.notified.at hlog w sub notif rfl

theorem State.mem_of_findSub {s : State} {n : ℕ} {info : SubInfo} (h : s.findSub n = some info) :
    info ∈ s.listenList ∧ info.num = n :=
  ⟨List.mem_of_find?_eq_some h, by simpa using List.find?_some h⟩

/-- Two subscriptions do not share a number, so a registered one is what its
number leads to. -/
theorem State.Registered.findSub {s : State} (h : s.Registered) {info : SubInfo}
    (hinfo : info ∈ s.listenList) : s.findSub info.num = some info := by
  cases hf : s.findSub info.num with
  | none => simpa using List.find?_eq_none.mp hf info hinfo
  | some info' =>
      obtain ⟨hmem, hnum⟩ := State.mem_of_findSub hf
      rw [h.distinct info' hmem info hinfo hnum]

theorem State.Registered.remove {s t : State} {p : SubInfo → Bool} (h : s.Registered)
    (acts : List Action) (hsteps : t.steps = s.steps + 1)
    (hlist : t.listenList = s.listenList.filter p)
    (hlog : t.log = acts ++ s.log) (hacts : ∀ w n notif, .notify w n notif ∉ acts)
    (hgone : ∀ n, .destroySub n ∈ acts → n < s.steps ∧ ∀ info ∈ s.listenList, p info = true →
      info.num ≠ n)
    (hqueues : ∀ w c, t.clients w = some c →
      ∀ m, .sub m ∈ c.rpcCallQ → ∃ c₀, s.clients w = some c₀ ∧ .sub m ∈ c₀.rpcCallQ) :
    t.Registered := by
  have hsub : ∀ info ∈ t.listenList, info ∈ s.listenList ∧ p info = true := by
    rw [hlist]
    exact fun info hinfo => List.mem_filter.mp hinfo
  constructor
  · rw [hsteps]
    exact fun info hinfo => Nat.lt_succ_of_lt (h.older info (hsub info hinfo).1)
  · exact fun a ha b hb => h.distinct a (hsub a ha).1 b (hsub b hb).1
  · intro w c hc info hinfo hm
    obtain ⟨c₀, hc₀, hm₀⟩ := hqueues w c hc _ hm
    exact h.owned w c₀ hc₀ info (hsub info hinfo).1 hm₀
  · rw [hsteps, hlog]
    intro n hn
    rcases List.mem_append.mp hn with hn | hn
    · refine ⟨Nat.lt_succ_of_lt (hgone n hn).1, fun info hinfo => ?_⟩
      exact (hgone n hn).2 info (hsub info hinfo).1 (hsub info hinfo).2
    · refine ⟨Nat.lt_succ_of_lt (h.destroyed n hn).1, fun info hinfo => ?_⟩
      exact (h.destroyed n hn).2 info (hsub info hinfo).1
  · rw [hlog]
    refine h.notified.append _ ?_
    rintro a ha past w n notif rfl
    exact absurd ha (hacts w n notif)

/-- The steps that leave the register alone: the queues lose elements at
most, and what happens has nothing to do with subscriptions. -/
theorem State.Registered.keep {s t : State} (h : s.Registered) (acts : List Action)
    (hsteps : t.steps = s.steps + 1) (hlist : t.listenList = s.listenList)
    (hlog : t.log = acts ++ s.log) (hacts : ∀ a ∈ acts, a.Unrelated)
    (hqueues : ∀ w c, t.clients w = some c →
      ∀ m, .sub m ∈ c.rpcCallQ → ∃ c₀, s.clients w = some c₀ ∧ .sub m ∈ c₀.rpcCallQ) :
    t.Registered := by
  refine h.remove (p := fun _ => true) acts hsteps (by simpa using hlist) hlog ?_ ?_ hqueues
  · exact fun w n notif hmem => hacts _ hmem
  · exact fun n hmem => (hacts _ hmem).elim

/-- A session whose queue of requests lost subscriptions at most. -/
theorem fewer_subs {s : State} {w : Wsi} {c c' : ClientSession} (hc : s.clients w = some c)
    (h : ∀ m, .sub m ∈ c'.rpcCallQ → .sub m ∈ c.rpcCallQ) :
    ∀ w' c'', Function.update s.clients w (some c') w' = some c'' →
      ∀ m, .sub m ∈ c''.rpcCallQ → ∃ c₀, s.clients w' = some c₀ ∧ .sub m ∈ c₀.rpcCallQ :=
  forall_update (fun _ c' _ hc' _ hm => ⟨c', hc', hm⟩) fun m hm => ⟨c, hc, h m hm⟩

theorem registered_subscribed {s : State} {w : Wsi} {c c' : ClientSession}
    {args : UbusrpcBlobSub} {blob resp : List Attr} (hc : s.clients w = some c)
    (hi : s.Registered) (hn : s.Numbered) :
    { (((s.emit [.reply w s.steps resp, .received w s.steps blob]).setListenList
        (s.listenList ++ [SubInfo.mk s.steps w args])).setClient w
        { c' with rpcCallQ := c.rpcCallQ ++ [WsRequest.sub s.steps] }) with
      steps := s.steps + 1 }.Registered := by
  have hnew : ∀ info ∈ s.listenList, info.num ≠ s.steps :=
    fun info hinfo => (hi.older info hinfo).ne
  constructor
  · intro info hinfo
    rcases List.mem_append.mp hinfo with hinfo | hinfo
    · exact Nat.lt_succ_of_lt (hi.older info hinfo)
    · rw [List.mem_singleton.mp hinfo]
      exact Nat.lt_succ_self _
  · intro a ha b hb hab
    rcases List.mem_append.mp ha with ha | ha
    · rcases List.mem_append.mp hb with hb | hb
      · exact hi.distinct a ha b hb hab
      · rw [List.mem_singleton.mp hb] at hab
        exact absurd hab (hnew a ha)
    · rcases List.mem_append.mp hb with hb | hb
      · rw [List.mem_singleton.mp ha] at hab
        exact absurd hab.symm (hnew b hb)
      · rw [List.mem_singleton.mp ha, List.mem_singleton.mp hb]
  · refine forall_update ?_ ?_
    · intro w' c'' hww hc'' info hinfo hm
      rcases List.mem_append.mp hinfo with hinfo | hinfo
      · exact hi.owned w' c'' hc'' info hinfo hm
      · rw [List.mem_singleton.mp hinfo] at hm
        exact absurd ((hn w' c'' hc'').subs _ hm) (lt_irrefl _)
    · intro info hinfo hm
      rcases List.mem_append.mp hinfo with hinfo | hinfo
      · rcases List.mem_append.mp hm with hm | hm
        · exact hi.owned w c hc info hinfo hm
        · exact absurd (by simpa using hm) (hnew info hinfo)
      · rw [List.mem_singleton.mp hinfo]
  · intro n hdes
    have hdes : .destroySub n ∈ s.log := by simpa using hdes
    obtain ⟨hlt, hne⟩ := hi.destroyed n hdes
    refine ⟨Nat.lt_succ_of_lt hlt, fun info hinfo => ?_⟩
    rcases List.mem_append.mp hinfo with hinfo | hinfo
    · exact hne info hinfo
    · rw [List.mem_singleton.mp hinfo]
      exact hlt.ne'
  · exact hi.notified.append [_, _] (by simp)

theorem registered_message {s t : State} {w : Wsi} {c : ClientSession} {x : ScalarAttrs}
    {blob : List Attr} (hc : s.clients w = some c)
    (h : MessageEffect s w c x blob t) (hi : s.Registered) (hn : s.Numbered) :
    { t with steps := s.steps + 1 }.Registered := by
  cases h with
  | unheard =>
      refine hi.keep [_] rfl rfl rfl (by simp [Action.Unrelated]) ?_
      exact fun w' c' hc' m hm => ⟨c', hc', hm⟩
  | answered hs _ =>
      refine hi.keep [_, _] rfl rfl rfl (by simp [Action.Unrelated]) ?_
      exact fewer_subs hc fun m hm => hs.rpcCallQ ▸ hm
  | subscribed => exact registered_subscribed hc hi hn
  | @unsubscribed c' args resp _ _ hs _ =>
      refine hi.remove _ rfl rfl (State.log_emit s _) ?_ ?_ ?_
      · simp
      · intro n hdes
        have hdes : ∃ info, (info ∈ s.listenList ∧ unsubMatches w args info = true) ∧
            info.num = n := by simpa using hdes
        obtain ⟨info, ⟨hinfo, hmatch⟩, rfl⟩ := hdes
        refine ⟨hi.older info hinfo, fun info' hinfo' hkept heq => ?_⟩
        rw [hi.distinct info' hinfo' info hinfo heq, hmatch] at hkept
        cases hkept
      · exact fewer_subs hc fun m hm =>
          hs.rpcCallQ ▸ (ClientSession.sub_mem_unlinkSubs.mp hm).1
  | callFailed _ hs =>
      refine hi.keep [_, _, _, _] rfl rfl rfl (by simp [Action.Unrelated]) ?_
      exact fewer_subs hc fun m hm => hs.rpcCallQ ▸ hm
  | callStarted _ _ hq _ _ _ _ _ _ _ _ _ _ =>
      refine hi.keep [_, _] rfl rfl rfl (by simp [Action.Unrelated]) ?_
      exact fewer_subs hc fun m hm => by simpa [hq] using hm

theorem registered_effect {s t : State} {e : Event} (h : Effect s e t) (hi : s.Registered)
    (hn : s.Numbered) : { t with steps := s.steps + 1 }.Registered := by
  cases h with
  | idle =>
      exact hi.keep [] rfl rfl rfl (by simp) fun w' c' hc' m hm => ⟨c', hc', hm⟩
  | opened hnone =>
      refine hi.keep [] rfl rfl rfl (by simp) ?_
      exact forall_update (fun _ c' _ hc' _ hm => ⟨c', hc', hm⟩) (by simp)
  | message hc hm => exact registered_message hc hm hi hn
  | callData hc _ _ _ =>
      exact hi.keep [_] rfl rfl rfl (by simp [Action.Unrelated])
        (fewer_subs hc fun m hm => hm)
  | eventData hc _ _ =>
      exact hi.keep [] rfl rfl rfl (by simp) (fewer_subs hc fun m hm => hm)
  | callInvoked hc _ _ _ _ _ _ =>
      exact hi.keep [_, _] rfl rfl rfl (by simp [Action.Unrelated])
        (fewer_subs hc fun m hm => ClientSession.sub_mem_updateCall.mp hm)
  | callRefused hc _ _ _ =>
      exact hi.keep [_, _, _] rfl rfl rfl (by simp [Action.Unrelated])
        (fewer_subs hc fun m hm => ClientSession.sub_mem_unlinkCall.mp hm)
  | @callLost w c k ctx status _ attempt hc _ _ _ _ _ _ hattempt =>
      rcases hattempt with rfl | ⟨params, rfl⟩
      · exact hi.keep [_, _, _] rfl rfl rfl (by simp [Action.Unrelated])
          (fewer_subs hc fun m hm => ClientSession.sub_mem_unlinkCall.mp hm)
      · exact hi.keep [_, _, _, _] rfl rfl rfl (by simp [Action.Unrelated])
          (fewer_subs hc fun m hm => ClientSession.sub_mem_unlinkCall.mp hm)
  | @eventDelivered w c k ev info _ hc hk hctx hinfo =>
      obtain ⟨hmem, -⟩ := State.mem_of_findSub hinfo
      have hkeep : { (s.setClient w (c.unlinkCheck k.num)) with
          steps := s.steps + 1 }.Registered :=
        hi.keep [] rfl rfl rfl (by simp) (fewer_subs hc fun m hm => hm)
      -- The subscription is registered, so it was never destroyed.
      refine ⟨hkeep.older, hkeep.distinct, hkeep.owned, fun n hdes => ?_, ?_⟩
      · exact hkeep.destroyed n (by simpa using hdes)
      · refine ⟨by simp, ⟨?_, hi.notified⟩⟩
        rintro w' n notif ⟨rfl, rfl, rfl⟩ hdes
        exact (hi.destroyed _ hdes).2 info hmem rfl
  | eventDropped hc _ _ =>
      exact hi.keep [_] rfl rfl rfl (by simp [Action.Unrelated])
        (fewer_subs hc fun m hm => hm)
  | retdata hc =>
      exact hi.keep [] rfl rfl rfl (by simp)
        (fewer_subs hc fun m hm => ClientSession.sub_mem_updateCall.mp hm)
  | invokeCompleted hc _ _ =>
      exact hi.keep [_, _] rfl rfl rfl (by simp [Action.Unrelated])
        (fewer_subs hc fun m hm => ClientSession.sub_mem_unlinkCall.mp hm)
  | eventStarted _ hc =>
      exact hi.keep [] rfl rfl rfl (by simp) (fewer_subs hc fun m hm => hm)
  | eventFailed =>
      exact hi.keep [_] rfl rfl rfl (by simp [Action.Unrelated])
        fun w' c' hc' m hm => ⟨c', hc', hm⟩
  | @swept w c now hc =>
      refine hi.keep _ rfl rfl (State.log_emit s _) ?_
        (fewer_subs hc fun m hm => (List.mem_filter.mp hm).1)
      intro a ha
      obtain ⟨n, rfl⟩ := mem_sweptActions ha
      trivial
  | @closed w c _ hc hd =>
      obtain rfl := wsuPeerDeinit_ok hd
      refine hi.remove _ rfl rfl (State.log_emit _ _) ?_ ?_ ?_
      · intro w' n notif hmem
        rcases mem_deinitActions (List.mem_reverse.mp hmem) with h | h | h
        all_goals simp at h
      · intro n hdes
        have hsub : .sub n ∈ c.rpcCallQ := by
          simpa using mem_deinitActions (List.mem_reverse.mp hdes)
        refine ⟨(hn w c hc).subs n hsub, fun info _ hkept heq => ?_⟩
        rw [Bool.not_eq_true', List.any_eq_false] at hkept
        exact hkept _ hsub (by simp [heq])
      · exact forall_drop fun w' c' _ hc' m hm => ⟨c', hc', hm⟩

/-! ### The events on their way -/

/-- `EventsLive` in terms of membership. -/
def State.Awaited (s : State) : Prop :=
  ∀ w c, s.clients w = some c → ∀ k ∈ c.accessCheckQ, ∀ t, k.ctx = .event t →
    ∃ info ∈ s.listenList, info.num = t.info ∧ info.wsi = w

theorem State.Awaited.eventsLive {s : State} (h : s.Awaited) (hr : s.Registered) :
    s.EventsLive := by
  intro w c hc k hk t ht
  obtain ⟨info, hinfo, hnum, hwsi⟩ := h w c hc k hk t ht
  exact ⟨info, hnum ▸ hr.findSub hinfo, hwsi⟩

/-- A check of the event is pending for the client on `w`. -/
def State.WaitsFor (s : State) (w : Wsi) (ev : EvNotif) : Prop :=
  ∃ c, s.clients w = some c ∧ ∃ k ∈ c.accessCheckQ, k.ctx = .event ev

/-- One session was replaced by one whose queue of checks has no new events
in it. -/
theorem waits_update {s t : State} {w : Wsi} {c c' : ClientSession} (hc : s.clients w = some c)
    (hclients : t.clients = Function.update s.clients w (some c'))
    (h : ∀ k ∈ c'.accessCheckQ, ∀ ev, k.ctx = .event ev →
      ∃ k₀ ∈ c.accessCheckQ, k₀.ctx = .event ev) (w' : Wsi) (ev : EvNotif) :
    t.WaitsFor w' ev → s.WaitsFor w' ev := by
  rintro ⟨c₁, hc₁, k, hk, hev⟩
  rw [hclients] at hc₁
  revert w' c₁
  refine forall_update (fun w' c₁ _ hc₁ hk => ⟨c₁, hc₁, k, hk, hev⟩) fun hk => ?_
  exact ⟨c, hc, h k hk ev hev⟩

theorem waits_message {s t : State} {w : Wsi} {c : ClientSession} {x : ScalarAttrs}
    {blob : List Attr} (hc : s.clients w = some c)
    (h : MessageEffect s w c x blob t) (w' : Wsi) (ev : EvNotif) :
    t.WaitsFor w' ev → s.WaitsFor w' ev := by
  cases h with
  | unheard => exact id
  | answered hs _ =>
      refine waits_update hc rfl ?_ w' ev
      exact fun k hk ev hev => ⟨k, hs.accessCheckQ ▸ hk, hev⟩
  | subscribed _ _ hs =>
      refine waits_update hc rfl ?_ w' ev
      exact fun k hk ev hev => ⟨k, hs.accessCheckQ ▸ hk, hev⟩
  | unsubscribed _ _ _ hs _ =>
      refine waits_update hc rfl ?_ w' ev
      exact fun k hk ev hev => ⟨k, hs.accessCheckQ ▸ hk, hev⟩
  | callFailed _ hs =>
      refine waits_update hc rfl ?_ w' ev
      exact fun k hk ev hev => ⟨k, hs.accessCheckQ ▸ hk, hev⟩
  | @callStarted c' args ctx k _ _ _ hchecks _ _ _ _ _ _ _ hkctx _ =>
      refine waits_update hc rfl (fun k' hk' ev hev => ?_) w' ev
      rw [hchecks, List.mem_append, List.mem_singleton] at hk'
      rcases hk' with hk' | rfl
      · exact ⟨k', hk', hev⟩
      · rw [hkctx] at hev
        cases hev

/-- The event has just come, for a subscription of the client on `w`. -/
def Arrives (s : State) (e : Event) (w : Wsi) (ev : EvNotif) : Prop :=
  ∃ sub type msg a, e = .busEvent sub type msg a ∧
    ∃ info ∈ s.listenList, info.num = ev.info ∧ info.wsi = w

theorem waits_effect {s t : State} {e : Event} (h : Effect s e t) (w : Wsi) (ev : EvNotif) :
    t.WaitsFor w ev → s.WaitsFor w ev ∨ Arrives s e w ev := by
  have hsession : ∀ {w₀ : Wsi} {c c' : ClientSession}, s.clients w₀ = some c →
      t.clients = Function.update s.clients w₀ (some c') →
      (∀ k ∈ c'.accessCheckQ, ∀ ev, k.ctx = .event ev →
        ∃ k₀ ∈ c.accessCheckQ, k₀.ctx = .event ev) → t.WaitsFor w ev →
      s.WaitsFor w ev ∨ Arrives s e w ev :=
    fun hc hclients hq hw => .inl (waits_update hc hclients hq w ev hw)
  -- A completed check leaves the queue; data is written to one that stays.
  have hunlinked : ∀ {w₀ : Wsi} {c c' : ClientSession} {n : ℕ}, s.clients w₀ = some c →
      t.clients = Function.update s.clients w₀ (some c') →
      c'.accessCheckQ = (c.unlinkCheck n).accessCheckQ → t.WaitsFor w ev →
      s.WaitsFor w ev ∨ Arrives s e w ev := by
    intro w₀ c c' n hc hclients hq
    refine hsession hc hclients fun k hk ev hev => ?_
    rw [hq] at hk
    exact ⟨k, (ClientSession.mem_unlinkCheck.mp hk).1, hev⟩
  have hwritten : ∀ {w₀ : Wsi} {c : ClientSession} {n : ℕ} {b : Bool}, s.clients w₀ = some c →
      t.clients = Function.update s.clients w₀ (some (c.updateCheck n b)) → t.WaitsFor w ev →
      s.WaitsFor w ev ∨ Arrives s e w ev := by
    intro w₀ c n b hc hclients
    refine hsession hc hclients fun k hk ev hev => ?_
    obtain ⟨k', hk', -, hctx⟩ := ClientSession.exists_of_mem_updateCheck hk
    exact ⟨k', hk', hctx.trans hev⟩
  cases h with
  | idle => exact .inl
  | opened _ =>
      rintro ⟨c₁, hc₁, k, hk, hev⟩
      exact .inl (forall_update (P := fun w' c' => k ∈ c'.accessCheckQ → s.WaitsFor w' ev)
        (fun w' c' _ hc' hk => ⟨c', hc', k, hk, hev⟩)
        (fun hk => absurd hk List.not_mem_nil) w c₁ hc₁ hk)
  | message hc hm => exact fun hw => .inl (waits_message hc hm w ev hw)
  | callData hc _ _ _ => exact hwritten hc rfl
  | eventData hc _ _ => exact hwritten hc rfl
  | callInvoked hc _ _ _ _ _ _ => exact hunlinked hc rfl rfl
  | callRefused hc _ _ _ => exact hunlinked hc rfl rfl
  | callLost _ hc _ _ _ _ _ _ _ => exact hunlinked hc rfl rfl
  | eventDelivered hc _ _ _ => exact hunlinked hc rfl rfl
  | eventDropped hc _ _ => exact hunlinked hc rfl rfl
  | retdata hc => exact hsession hc rfl fun k hk ev hev => ⟨k, hk, hev⟩
  | invokeCompleted hc _ _ => exact hsession hc rfl fun k hk ev hev => ⟨k, hk, hev⟩
  | @eventStarted sub info c type msg a session result hinfo hc =>
      rintro ⟨c₁, hc₁, k, hk, hev⟩
      refine forall_update (P := fun w' c' => k ∈ c'.accessCheckQ →
        s.WaitsFor w' ev ∨ Arrives s (.busEvent sub type msg a) w' ev)
        (fun w' c' _ hc' hk => .inl ⟨c', hc', k, hk, hev⟩) (fun hk => ?_) w c₁ hc₁ hk
      rcases List.mem_append.mp hk with hk | hk
      · exact .inl ⟨c, hc, k, hk, hev⟩
      · rw [List.mem_singleton.mp hk] at hev
        cases hev
        exact .inr ⟨_, _, _, _, rfl, info, (State.mem_of_findSub hinfo).1, rfl, rfl⟩
  | eventFailed => exact .inl
  | swept hc => exact hsession hc rfl fun k hk ev hev => ⟨k, hk, hev⟩
  | closed hc hd =>
      obtain rfl := wsuPeerDeinit_ok hd
      rintro ⟨c₁, hc₁, k, hk, hev⟩
      exact .inl (forall_drop (P := fun w' c' => k ∈ c'.accessCheckQ → s.WaitsFor w' ev)
        (fun w' c' _ hc' hk => ⟨c', hc', k, hk, hev⟩) w c₁ hc₁ hk)

/-- A subscription stays on the list, unless its client ends it or goes. -/
theorem listed_effect {s t : State} {e : Event} (h : Effect s e t) (hr : s.Registered)
    {info : SubInfo} (hinfo : info ∈ s.listenList) :
    info ∈ t.listenList ∨ t.clients info.wsi = none ∨
      ∃ blob now a c args, e = .message info.wsi blob now a ∧ s.clients info.wsi = some c ∧
        c.rpcQLen.toNat ≤ s.reqMax ∧
        parseRequest a.scalarAttrs blob = some (.ok (.unsub args)) ∧
        unsubMatches info.wsi args info = true := by
  cases h with
  | @message w c blob now a _ hc hm =>
      cases hm with
      | subscribed => exact .inl (List.mem_append_left _ hinfo)
      | @unsubscribed c' args resp hquota hreq _ _ =>
          cases hmatch : unsubMatches w args info with
          | false => exact .inl (List.mem_filter.mpr ⟨hinfo, by simp [hmatch]⟩)
          | true =>
              have hwsi : info.wsi = w := by
                simp only [unsubMatches, Bool.and_eq_true, decide_eq_true_eq] at hmatch
                exact hmatch.1
              subst hwsi
              exact .inr (.inr ⟨blob, now, a, c, args, rfl, hc, hquota, hreq, hmatch⟩)
      | unheard => exact .inl hinfo
      | answered => exact .inl hinfo
      | callFailed => exact .inl hinfo
      | callStarted => exact .inl hinfo
  | @closed w c _ hc hd =>
      obtain rfl := wsuPeerDeinit_ok hd
      by_cases hw : info.wsi = w
      · exact .inr (.inl (by simp [hw]))
      · refine .inl (List.mem_filter.mpr ⟨hinfo, ?_⟩)
        -- A subscription in the queue of the closed client would be its own.
        rw [Bool.not_eq_true', List.any_eq_false]
        intro r hrq
        cases r with
        | call ctx => simp
        | sub n =>
            simp only [decide_eq_true_eq]
            rintro rfl
            exact hw (hr.owned w c hc info hinfo hrq)
  | idle => exact .inl hinfo
  | opened => exact .inl hinfo
  | callData => exact .inl hinfo
  | eventData => exact .inl hinfo
  | callInvoked => exact .inl hinfo
  | callRefused => exact .inl hinfo
  | callLost => exact .inl hinfo
  | eventDelivered => exact .inl hinfo
  | eventDropped => exact .inl hinfo
  | retdata => exact .inl hinfo
  | invokeCompleted => exact .inl hinfo
  | eventStarted => exact .inl hinfo
  | eventFailed => exact .inl hinfo
  | swept => exact .inl hinfo

theorem awaited_effect {s t : State} {e : Event} (h : Effect s e t) (hi : s.Awaited)
    (hr : s.Registered) (hg : KeepsAwaited s e) : t.Awaited := by
  intro w c hc k hk ev hev
  have hwaits : t.WaitsFor w ev := ⟨c, hc, k, hk, hev⟩
  have hold := waits_effect h w ev hwaits
  obtain ⟨info, hinfo, hnum, rfl⟩ : ∃ info ∈ s.listenList, info.num = ev.info ∧ info.wsi = w := by
    rcases hold with ⟨c₀, hc₀, k₀, hk₀, hev₀⟩ | ⟨_, _, _, _, -, hnew⟩
    · exact hi w c₀ hc₀ k₀ hk₀ ev hev₀
    · exact hnew
  rcases listed_effect h hr hinfo with hstays | hgone | ⟨blob, now, a, c₀, args, rfl, hc₀, hq, hreq,
    hmatch⟩
  · exact ⟨info, hstays, hnum, rfl⟩
  · rw [hc] at hgone
    cases hgone
  · -- A message brings no event, so the event waited before.
    rcases hold with ⟨c₁, hc₁, k₁, hk₁, hev₁⟩ | ⟨_, _, _, _, heq, -⟩
    · have hsame : c₁ = c₀ := Option.some.inj (hc₁.symm.trans hc₀)
      subst hsame
      rw [hg c₁ args hc₀ hq hreq k₁ hk₁ ev hev₁ info hinfo hnum] at hmatch
      cases hmatch
    · cases heq

/-! ### Runs -/

theorem awaited_run {cfg : Config} {n : ℕ} {es : List Event} {s : State}
    (hg : Guarded (step cfg) KeepsAwaited (init n) es)
    (hrun : run (step cfg) (init n) es = .ok s) :
    s.Numbered ∧ s.Registered ∧ s.Awaited := by
  refine run_invariant (fun s => s.Numbered ∧ s.Registered ∧ s.Awaited)
    ?_ ⟨numbered_init n, ?_, ?_⟩ hg hrun
  · rintro s e s' ⟨hn, hr, ha⟩ hg h
    refine ⟨numbered_step hn h, ?_⟩
    obtain ⟨t, ht, rfl⟩ := step_effect h
    exact ⟨registered_effect ht hr hn, fun w c hc => awaited_effect ht ha hr hg w c hc⟩
  · exact ⟨by simp [init], by simp [init], by simp [init], by simp [init], trivial⟩
  · intro w c hc
    cases hc

theorem no_destroyedSub {s : State} {e : Event} {f : Fault} (hi : s.EventsLive)
    (h : Faulty s e f) : f ≠ .destroyedSub := by
  cases h with
  | startCheck hf => rcases hf with rfl | rfl <;> simp
  | scalarAttrs => simp
  | absentId => simp
  | typeOutOfRange => simp
  | destroyedCall => simp
  | destroyedSub hc hk hctx hnone =>
      obtain ⟨info, hinfo, -⟩ := hi _ _ hc _ hk _ hctx
      simp [hnone] at hinfo
  | destroyedCheck => simp

/-- In every run in which no `unsubscribe` ends a subscription with an event
waiting for its check, the pending checks of events find their subscriptions
in every state reached, no notification follows the end of its subscription,
and no completed check reads a destroyed one. -/
theorem eventsLive_run {cfg : Config} {n : ℕ} {es : List Event}
    (hg : Guarded (step cfg) KeepsAwaited (init n) es) :
    (∀ s, run (step cfg) (init n) es = .ok s → s.EventsLive ∧ s.NotifiesLive) ∧
      run (step cfg) (init n) es ≠ .error .destroyedSub := by
  constructor
  · intro s hs
    obtain ⟨-, hr, ha⟩ := awaited_run hg hs
    exact ⟨ha.eventsLive hr, hr.notifiesLive⟩
  · intro hf
    obtain ⟨pre, e, post, t, -, hgpre, hpre, -, hstep⟩ := run_error hg hf
    obtain ⟨-, hr, ha⟩ := awaited_run hgpre hpre
    exact no_destroyedSub (ha.eventsLive hr) (step_fault hstep) rfl

/-- A subscription to the event `net`, and its end. -/
def netMessage (method : CString) : List Attr :=
  requestMessage method [.string (.ofString "s"), .string (.ofString "net")]

/-- The event is delivered before the subscription ends. -/
theorem eventsLive_run_in_order :
    Guarded (step plainConfig) KeepsAwaited (init 512)
      [.established 0, sends (netMessage (.ofString "subscribe")),
        .busEvent 1 (.ofString "net") [] willing,
        .checkData 0 2 [(.ofString "access", .int8 1)], .checkComplete 0 2 0 willingInvoke,
        sends (netMessage (.ofString "unsubscribe"))] ∧
    run (step plainConfig) (init 512)
      [.established 0, sends (netMessage (.ofString "subscribe")),
        .busEvent 1 (.ofString "net") [] willing,
        .checkData 0 2 [(.ofString "access", .int8 1)], .checkComplete 0 2 0 willingInvoke,
        sends (netMessage (.ofString "unsubscribe"))] ≠ .error .destroyedSub := by
  have hg : Guarded (step plainConfig) KeepsAwaited (init 512)
      [.established 0, sends (netMessage (.ofString "subscribe")),
        .busEvent 1 (.ofString "net") [] willing,
        .checkData 0 2 [(.ofString "access", .int8 1)], .checkComplete 0 2 0 willingInvoke,
        sends (netMessage (.ofString "unsubscribe"))] := by
    refine .cons trivial rfl (.cons ?_ rfl (.cons trivial rfl (.cons trivial rfl
      (.cons trivial rfl (.cons ?_ rfl trivial)))))
    · intro c args hc _ _ k hk
      cases hc
      cases hk
    · intro c args hc _ _ k hk
      cases hc
      cases hk
  exact ⟨hg, (eventsLive_run hg).2⟩

/-- The subscription ends while an event for it waits for its check. The
check stays in the queue, and when rpcd allows the event, the notification is
built from the destroyed subscription. -/
theorem unsubscribe_strands_event :
    (∃ s, run (step plainConfig) (init 512)
      [.established 0, sends (netMessage (.ofString "subscribe")),
        .busEvent 1 (.ofString "net") [] willing,
        sends (netMessage (.ofString "unsubscribe"))] = .ok s ∧ ¬ s.EventsLive) ∧
    run (step plainConfig) (init 512)
      [.established 0, sends (netMessage (.ofString "subscribe")),
        .busEvent 1 (.ofString "net") [] willing,
        sends (netMessage (.ofString "unsubscribe")),
        .checkData 0 2 [(.ofString "access", .int8 1)],
        .checkComplete 0 2 0 willingInvoke] = .error .destroyedSub := by
  refine ⟨⟨_, rfl, fun h => ?_⟩, rfl⟩
  obtain ⟨info, hinfo, -⟩ := h 0 _ rfl ⟨2, .event ⟨.ofString "net", [], 1⟩, true, false⟩
    (List.mem_singleton.mpr rfl) _ rfl
  cases hinfo

end Owsd.Server
