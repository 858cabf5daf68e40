import Owsd.Basis.Outlasting
import Owsd.Server.Custody
import Owsd.Server.Subscriptions

/-!
Subscriptions and their history.

All subscriptions are on one list, in the order in which they were made, and
each is in the queue of its client too. What a client has subscribed to is
what its requests say: every subscription that was registered and that
neither an `unsubscribe` of the client nor its close came after. The runs
here are those of subscribing clients, without calls and without events from
the bus.
-/

namespace Owsd.Server

open Rpc

/-! ### What requests say -/

def subscribeRequest (x : ScalarAttrs) (blob : List Attr) : Option UbusrpcBlobSub :=
  match parseRequest x blob with
  | some (.ok (.sub args)) => some args
  | _ => none

def unsubscribeRequest (x : ScalarAttrs) (blob : List Attr) : Option UbusrpcBlobSub :=
  match parseRequest x blob with
  | some (.ok (.unsub args)) => some args
  | _ => none

/-- Whether the client on `w` is connected after the event, if it was so
before or not. -/
def Event.connects (w : Wsi) (up : Bool) : Event → Bool
  | .established w' => up || w' = w
  | .closed w' => up && w' ≠ w
  | _ => up

/-- The subscription that the client on `w` made, if it is connected and ubus
registers it. -/
def Event.subscribes (w : Wsi) (up : Bool) : Event → Option UbusrpcBlobSub
  | .message w' blob _ a =>
      if up && w' = w && a.register = 0 then subscribeRequest a.scalarAttrs blob else none
  | _ => none

/-- The event ends the subscription of the client on `w`: it is an
`unsubscribe` of its pattern, or the close of the connection. -/
def Event.unsubscribes (w : Wsi) (e : Event) (sub : UbusrpcBlobSub) : Bool :=
  match e with
  | .message w' blob _ a =>
      w' = w && (unsubscribeRequest a.scalarAttrs blob).any fun args =>
        args.pattern = sub.pattern
  | .closed w' => w' = w
  | _ => false

/-- The subscriptions of the client on `w` that were made in the course of
the events and have not ended. -/
def subscriptions (w : Wsi) (es : List Event) : List UbusrpcBlobSub :=
  outlasting (Event.connects w) (Event.subscribes w) (Event.unsubscribes w) false es

/-- Subscribing clients come and go, send requests that are neither calls nor
lists of objects, or anything that is no request, and their sweepers tick. -/
def Event.Subscribing : Event → Prop
  | .established _ => True
  | .closed _ => True
  | .percallCleaner _ _ => True
  | .message _ blob _ a => (∀ args, parseRequest a.scalarAttrs blob ≠ some (.ok (.call args))) ∧
      ¬LeadsOut a.scalarAttrs blob ∧
      ∀ args, parseRequest a.scalarAttrs blob ≠ some (.ok (.list args))
  | _ => False

/-! ### The books -/

/-- What the client on `w` is subscribed to. -/
def State.subsOf (s : State) (w : Wsi) : List UbusrpcBlobSub :=
  (s.listenList.filter fun info => info.wsi = w).map SubInfo.sub

/-- The entry of a subscription in the answer to `subscribe-list`. -/
def subEntry (sub : UbusrpcBlobSub) : Attr :=
  ([], .table [(.ofString "pattern", .string sub.pattern),
    (.ofString "ubus_rpc_session", .string sub.sid)])

/-- The session of a client but for its session id: the count, and the two
queues. -/
def ClientSession.books (c : ClientSession) : BitVec 32 × List WsRequest × List AccessCheck :=
  (c.rpcQLen, c.rpcCallQ, c.accessCheckQ)

structure State.SameBooks (s s' : State) : Prop where
  listenList : s'.listenList = s.listenList
  sessions : ∀ w, (s'.clients w).map ClientSession.books = (s.clients w).map ClientSession.books

/-- The client on `w` has one more subscription, on the list and in its
queue. -/
structure State.Subscribed (s s' : State) (w : Wsi) (args : UbusrpcBlobSub) : Prop where
  listenList : s'.listenList = s.listenList ++ [⟨s.steps, w, args⟩]
  other : ∀ w', w' ≠ w → s'.clients w' = s.clients w'
  queue : (s'.clients w).map ClientSession.books = (s.clients w).map fun c =>
    (c.rpcQLen, c.rpcCallQ ++ [.sub s.steps], c.accessCheckQ)

/-- The subscriptions of the client on `w` to the pattern are gone from the
list and from its queue, and nothing else was done. -/
structure State.Unsubscribed (s s' : State) (w : Wsi) (pattern : CString) : Prop where
  listenList : s'.listenList = s.listenList.filter fun info =>
    ¬(info.wsi = w ∧ info.sub.pattern = pattern)
  other : ∀ w', w' ≠ w → s'.clients w' = s.clients w'
  queue : (s'.clients w).map ClientSession.books = (s.clients w).map fun c =>
    (c.rpcQLen, c.rpcCallQ.filter fun r => ¬∃ info ∈ s.listenList,
      (info.wsi = w ∧ info.sub.pattern = pattern) ∧ r.item = .sub info.num, c.accessCheckQ)

theorem State.SameBooks.session {s t : State} {w : Wsi} {c c' : ClientSession}
    (hc : s.clients w = some c) (hlist : t.listenList = s.listenList)
    (hclients : t.clients = Function.update s.clients w (some c')) (hbooks : c'.books = c.books) :
    s.SameBooks t := by
  refine ⟨hlist, fun w' => ?_⟩
  by_cases hw : w' = w
  · subst hw
    simp [hclients, hc, hbooks]
  · simp [hclients, hw]

/-! ### One request -/

section

variable (cfg : Config) (now : Timespec) (a : MessageAnswers) {s : State} {w : Wsi}
  {c : ClientSession} {blob : List Attr}

/-- A `subscribe-list` is answered with the subscriptions of the client. -/
theorem step_subList {args : UbusrpcBlobSub} (hc : s.clients w = some c)
    (hq : c.rpcQLen.toNat ≤ s.reqMax)
    (hreq : parseRequest a.scalarAttrs blob = some (.ok (.subList args))) :
    ∃ s', step cfg s (.message w blob now a) = .ok s' ∧ s.SameBooks s' ∧
      s'.log = .reply w s.steps (jsonrpcRespUbus (jsonrpcId blob) 0
        (some (.array ((s.subsOf w).map subEntry)))) :: .received w s.steps blob :: s.log := by
  rw [step_handled cfg now a hc hq hreq]
  simp only [handleRequest, ubusrpcHandleSubList]
  refine ⟨_, rfl, .session hc rfl rfl ?_, ?_⟩
  · exact Prod.ext (BitVec.sub_add_cancel c.rpcQLen 1) rfl
  · rw [State.subsOf, List.map_map]
    rfl

/-- A subscription that ubus does not register is answered with its
status. -/
theorem step_sub_refused {args : UbusrpcBlobSub} (hc : s.clients w = some c)
    (hq : c.rpcQLen.toNat ≤ s.reqMax)
    (hreq : parseRequest a.scalarAttrs blob = some (.ok (.sub args)))
    (hregister : a.register ≠ 0) :
    ∃ s', step cfg s (.message w blob now a) = .ok s' ∧ s.SameBooks s' ∧
      s'.log = .reply w s.steps (jsonrpcRespUbus (jsonrpcId blob) a.register none) ::
        .received w s.steps blob :: s.log := by
  rw [step_handled cfg now a hc hq hreq]
  simp only [handleRequest, ubusrpcHandleSub, if_pos hregister]
  refine ⟨_, rfl, .session hc rfl rfl ?_, rfl⟩
  exact Prod.ext (BitVec.sub_add_cancel c.rpcQLen 1) rfl

theorem step_sub {args : UbusrpcBlobSub} (hc : s.clients w = some c)
    (hq : c.rpcQLen.toNat ≤ s.reqMax)
    (hreq : parseRequest a.scalarAttrs blob = some (.ok (.sub args)))
    (hregister : a.register = 0) :
    ∃ s', step cfg s (.message w blob now a) = .ok s' ∧ s.Subscribed s' w args := by
  rw [step_handled cfg now a hc hq hreq]
  simp only [handleRequest, ubusrpcHandleSub, if_neg (not_not_intro hregister)]
  refine ⟨_, rfl, rfl, fun w' hw => ?_, ?_⟩
  · simp [State.setClient, State.setListenList, State.emit, hw]
  · simp only [hc, Option.map_some, State.setClient, Function.update_self]
    exact congrArg some (Prod.ext (BitVec.sub_add_cancel c.rpcQLen 1) rfl)

theorem unsubMatches_iff {args : UbusrpcBlobSub} {info : SubInfo} :
    unsubMatches w args info = true ↔ info.wsi = w ∧ info.sub.pattern = args.pattern := by
  rw [unsubMatches, Bool.and_eq_true, decide_eq_true_eq, decide_eq_true_eq,
    eq_comm (a := args.pattern)]

/-- The queue without what an `unsubscribe` unlinks from it. -/
theorem rpcCallQ_unsub (s : State) (w : Wsi) (c : ClientSession) (args : UbusrpcBlobSub) :
    (c.unlinkSubs (s.listenList.filter (unsubMatches w args))).rpcCallQ =
      c.rpcCallQ.filter fun r => ¬∃ info ∈ s.listenList,
        (info.wsi = w ∧ info.sub.pattern = args.pattern) ∧ r.item = .sub info.num := by
  refine List.filter_congr fun r _ => ?_
  rw [Bool.eq_iff_iff]
  cases r with
  | call ctx => simp [WsRequest.item]
  | sub n =>
      simp only [Bool.not_eq_true', List.any_eq_false, List.mem_filter, unsubMatches_iff,
        decide_eq_true_eq, WsRequest.item, Item.sub.injEq]
      constructor
      · rintro h ⟨info, hinfo, hmatch, hn⟩
        exact h info ⟨hinfo, hmatch⟩ hn.symm
      · rintro h info ⟨hinfo, hmatch⟩ hn
        exact h ⟨info, hinfo, hmatch, hn.symm⟩

theorem step_unsub {args : UbusrpcBlobSub} (hc : s.clients w = some c)
    (hq : c.rpcQLen.toNat ≤ s.reqMax)
    (hreq : parseRequest a.scalarAttrs blob = some (.ok (.unsub args))) :
    ∃ s', step cfg s (.message w blob now a) = .ok s' ∧ s.Unsubscribed s' w args.pattern ∧
      s'.log = .reply w s.steps (jsonrpcRespUbus (jsonrpcId blob)
          (if (s.listenList.filter (unsubMatches w args)).isEmpty then ubusStatusNoData
            else ubusStatusOk) none) ::
        (((s.listenList.filter (unsubMatches w args)).map fun elem =>
          Action.destroySub elem.num).reverse ++ .received w s.steps blob :: s.log) := by
  rw [step_handled cfg now a hc hq hreq]
  simp only [handleRequest, ubusrpcHandleUnsub]
  refine ⟨_, rfl, ⟨?_, fun w' hw => ?_, ?_⟩, ?_⟩
  · refine List.filter_congr fun info _ => ?_
    rw [Bool.eq_iff_iff, Bool.not_eq_true', ← Bool.not_eq_true, unsubMatches_iff, decide_eq_true_eq]
  · simp [State.setClient, State.setListenList, State.emit, hw]
  · simp only [hc, Option.map_some, ← rpcCallQ_unsub, State.setClient, Function.update_self]
    exact congrArg some (Prod.ext (BitVec.sub_add_cancel c.rpcQLen 1) rfl)
  · simp [State.emit, State.setListenList, State.setClient]

end

/-! ### Every event -/

/-- No call and no check is in progress. -/
def State.Quiet (s : State) : Prop :=
  ∀ w c, s.clients w = some c →
    c.rpcQLen = 0 ∧ c.accessCheckQ = [] ∧ ∀ ctx, .call ctx ∉ c.rpcCallQ

structure State.Booked (s s' : State) (e : Event) : Prop where
  quiet : s'.Quiet
  connected : ∀ w, (s'.clients w).isSome = e.connects w (s.clients w).isSome
  subs : ∀ w, s'.subsOf w =
    book (Event.subscribes w) (Event.unsubscribes w) (s.clients w).isSome (s.subsOf w) e

section

variable {s s' : State} {w : Wsi} {e : Event}

theorem mem_subsOf {sub : UbusrpcBlobSub} :
    sub ∈ s.subsOf w ↔ ∃ info ∈ s.listenList, info.wsi = w ∧ info.sub = sub := by
  simp [State.subsOf, and_assoc]

theorem subsOf_of_none (hk : s.Kept) (hc : s.clients w = none) : s.subsOf w = [] := by
  rw [List.eq_nil_iff_forall_not_mem]
  intro sub hsub
  obtain ⟨info, hinfo, rfl, -⟩ := mem_subsOf.mp hsub
  have hlive := hk.listed info hinfo
  simp [State.live, hc] at hlive

theorem State.Quiet.within (hq : s.Quiet) {c : ClientSession} (hc : s.clients w = some c) :
    c.rpcQLen.toNat ≤ s.reqMax := by
  simp [(hq w c hc).1]

/-- The books of every client are those of a quiet one, with subscriptions
more or less. -/
theorem State.Quiet.of_books (hq : s.Quiet)
    (h : ∀ w c', s'.clients w = some c' → ∃ c, s.clients w = some c ∧
      c'.rpcQLen = c.rpcQLen ∧ c'.accessCheckQ = c.accessCheckQ ∧
      ∀ ctx, .call ctx ∈ c'.rpcCallQ → .call ctx ∈ c.rpcCallQ) : s'.Quiet := by
  intro w c' hc'
  obtain ⟨c, hc, hlen, hchecks, hcalls⟩ := h w c' hc'
  obtain ⟨hlen₀, hchecks₀, hcalls₀⟩ := hq w c hc
  exact ⟨hlen.trans hlen₀, hchecks.trans hchecks₀, fun ctx hctx => hcalls₀ ctx (hcalls ctx hctx)⟩

theorem State.SameBooks.quiet (h : s.SameBooks s') (hq : s.Quiet) : s'.Quiet := by
  refine hq.of_books fun w c' hc' => ?_
  have hbooks := h.sessions w
  rw [hc', Option.map_some, eq_comm, Option.map_eq_some_iff] at hbooks
  obtain ⟨c, hc, heq⟩ := hbooks
  simp only [ClientSession.books, Prod.mk.injEq] at heq
  obtain ⟨hlen, hcalls, hchecks⟩ := heq
  exact ⟨c, hc, hlen.symm, hchecks.symm, fun ctx hctx => hcalls ▸ hctx⟩

/-- An event that does nothing to the books, and that says nothing about
them either. -/
theorem State.SameBooks.booked (h : s.SameBooks s') (hq : s.Quiet)
    (hconnects : ∀ w, e.connects w (s.clients w).isSome = (s.clients w).isSome)
    (hadds : ∀ w, e.subscribes w (s.clients w).isSome = none)
    (hends : ∀ w, ∀ sub ∈ s.subsOf w, e.unsubscribes w sub = false) : s.Booked s' e where
  quiet := h.quiet hq
  connected := fun w => by
    rw [hconnects w, ← Option.isSome_map (f := ClientSession.books), h.sessions w,
      Option.isSome_map]
  subs := fun w => by
    have hkept : (s.subsOf w).filter (fun sub => !e.unsubscribes w sub) = s.subsOf w :=
      List.filter_eq_self.mpr fun sub hsub => by rw [hends w sub hsub, Bool.not_false]
    rw [book, hadds w, hkept, State.subsOf, h.listenList, Option.toList_none, List.append_nil,
      State.subsOf]

/-- A message that is about the subscriptions of its client only. -/
theorem booked_message {blob : List Attr} {now : Timespec} {a : MessageAnswers}
    {c : ClientSession} {queue : List WsRequest} (hq : s.Quiet) (hc : s.clients w = some c)
    (hother : ∀ w', w' ≠ w → s'.clients w' = s.clients w')
    (hqueue : (s'.clients w).map ClientSession.books = some (c.rpcQLen, queue, c.accessCheckQ))
    (hcalls : ∀ ctx, .call ctx ∈ queue → .call ctx ∈ c.rpcCallQ)
    (hown : s'.subsOf w =
      book (Event.subscribes w) (Event.unsubscribes w) true (s.subsOf w) (.message w blob now a))
    (hsubs : ∀ w', w' ≠ w → s'.subsOf w' = s.subsOf w') :
    s.Booked s' (.message w blob now a) := by
  obtain ⟨c', hc', hbooks⟩ := Option.map_eq_some_iff.mp hqueue
  simp only [ClientSession.books, Prod.mk.injEq] at hbooks
  obtain ⟨hlen, rfl, hchecks⟩ := hbooks
  refine ⟨hq.of_books fun w' d' hd' => ?_, fun w' => ?_, fun w' => ?_⟩
  · by_cases hw : w' = w
    · subst hw
      obtain rfl : c' = d' := by simpa [hc'] using hd'
      exact ⟨c, hc, hlen, hchecks, hcalls⟩
    · exact ⟨d', hother w' hw ▸ hd', rfl, rfl, fun _ hctx => hctx⟩
  · by_cases hw : w' = w
    · simp [hw, hc, hc', Event.connects]
    · simp [hother w' hw, Event.connects]
  · by_cases hw : w' = w
    · subst hw
      rw [hown, hc, Option.isSome_some]
    · rw [hsubs w' hw]
      simp [book, Event.subscribes, Event.unsubscribes, Ne.symm hw]

theorem State.Subscribed.booked {blob : List Attr} {now : Timespec} {a : MessageAnswers}
    {args : UbusrpcBlobSub} {c : ClientSession} (h : s.Subscribed s' w args) (hq : s.Quiet)
    (hc : s.clients w = some c)
    (hreq : parseRequest a.scalarAttrs blob = some (.ok (.sub args)))
    (hregister : a.register = 0) : s.Booked s' (.message w blob now a) := by
  have hqueue := h.queue
  rw [hc, Option.map_some] at hqueue
  refine booked_message hq hc h.other hqueue (by simp) ?_ fun w' hw => ?_
  · simp [State.subsOf, h.listenList, book, Event.subscribes, Event.unsubscribes,
      subscribeRequest, unsubscribeRequest, hreq, hregister]
  · simp [State.subsOf, h.listenList, hw.symm]

theorem State.Unsubscribed.booked {blob : List Attr} {now : Timespec} {a : MessageAnswers}
    {args : UbusrpcBlobSub} {c : ClientSession} (h : s.Unsubscribed s' w args.pattern)
    (hq : s.Quiet) (hc : s.clients w = some c)
    (hreq : parseRequest a.scalarAttrs blob = some (.ok (.unsub args))) :
    s.Booked s' (.message w blob now a) := by
  have hqueue := h.queue
  rw [hc, Option.map_some] at hqueue
  refine booked_message hq hc h.other hqueue (fun ctx hctx => List.mem_of_mem_filter hctx) ?_
    fun w' hw => ?_
  · simp only [book, Event.subscribes, Event.unsubscribes, subscribeRequest, unsubscribeRequest,
      hreq, State.subsOf, h.listenList, List.filter_map, List.filter_filter, ite_self,
      Option.toList_none, List.append_nil, Option.any_some]
    congr 1
    refine List.filter_congr fun info _ => ?_
    by_cases hwsi : info.wsi = w
    · simp [hwsi, eq_comm]
    · simp [hwsi]
  · rw [State.subsOf, h.listenList, List.filter_filter, State.subsOf]
    congr 1
    refine List.filter_congr fun info _ => ?_
    by_cases hwsi : info.wsi = w'
    · simp [hwsi, hw]
    · simp [hwsi]

theorem booked_subscribing_message {cfg : Config} {blob : List Attr} {now : Timespec}
    {a : MessageAnswers} (hk : s.Kept) (hq : s.Quiet)
    (he : (Event.message w blob now a).Subscribing) :
    ∃ s', step cfg s (.message w blob now a) = .ok s' ∧ s.Booked s' (.message w blob now a) := by
  cases hc : s.clients w with
  | none =>
      -- nobody there who could have sent it
      refine ⟨{ s with steps := s.steps + 1 }, by simp [step, handle, withClient, hc], ?_⟩
      refine State.SameBooks.booked ⟨rfl, fun _ => rfl⟩ hq (fun _ => rfl) (fun w' => ?_)
        fun w' sub hsub => ?_
      · by_cases hw : w = w'
        · simp [Event.subscribes, ← hw, hc]
        · simp [Event.subscribes, hw]
      · by_cases hw : w = w'
        · simp [← hw, subsOf_of_none hk hc] at hsub
        · simp [Event.unsubscribes, hw]
  | some c =>
      have hin := hq.within hc
      rcases hreq : parseRequest a.scalarAttrs blob with _ | (code | req)
      · exact absurd (parseRequest_none_iff.mp hreq) he.2.1
      · refine ⟨_, step_refused cfg now a hc hin hreq,
          State.SameBooks.booked ⟨rfl, fun _ => rfl⟩ hq (fun _ => rfl) (fun w' => ?_)
            fun w' sub _ => ?_⟩
        · simp [Event.subscribes, subscribeRequest, hreq]
        · simp [Event.unsubscribes, unsubscribeRequest, hreq]
      · cases req with
        | call args => exact absurd hreq (he.1 args)
        | list args => exact absurd hreq (he.2.2 args)
        | sub args =>
            by_cases hregister : a.register = 0
            · obtain ⟨s', hs', hsub⟩ := step_sub cfg now a hc hin hreq hregister
              exact ⟨s', hs', hsub.booked hq hc hreq hregister⟩
            · obtain ⟨s', hs', hsame, -⟩ := step_sub_refused cfg now a hc hin hreq hregister
              refine ⟨s', hs', hsame.booked hq (fun _ => rfl) (fun w' => ?_) fun w' sub _ => ?_⟩
              · simp [Event.subscribes, hregister]
              · simp [Event.unsubscribes, unsubscribeRequest, hreq]
        | subList args =>
            obtain ⟨s', hs', hsame, -⟩ := step_subList cfg now a hc hin hreq
            refine ⟨s', hs', hsame.booked hq (fun _ => rfl) (fun w' => ?_) fun w' sub _ => ?_⟩
            · simp [Event.subscribes, subscribeRequest, hreq]
            · simp [Event.unsubscribes, unsubscribeRequest, hreq]
        | unsub args =>
            obtain ⟨s', hs', hgone, -⟩ := step_unsub cfg now a hc hin hreq
            exact ⟨s', hs', hgone.booked hq hc hreq⟩

theorem sweep_quiet {c : ClientSession} (hcalls : ∀ ctx, .call ctx ∉ c.rpcCallQ)
    (now : Timespec) : c.rpcCallQ.filter (isStale now) = [] := by
  rw [List.filter_eq_nil_iff]
  intro r hr
  cases r with
  | call ctx => exact absurd hr (hcalls ctx)
  | sub n => simp [isStale]

theorem booked_sweep {cfg : Config} {now : Timespec} (hq : s.Quiet) :
    ∃ s', step cfg s (.percallCleaner w now) = .ok s' ∧ s.Booked s' (.percallCleaner w now) := by
  obtain ⟨s', hs', hsame⟩ : ∃ s', step cfg s (.percallCleaner w now) = .ok s' ∧
      s.SameBooks s' := by
    cases hc : s.clients w with
    | none =>
        refine ⟨{ s with steps := s.steps + 1 }, by simp [step, handle, withClient, hc], ?_⟩
        exact ⟨rfl, fun _ => rfl⟩
    | some c =>
        have hnone := sweep_quiet (hq w c hc).2.2 now
        have hall : c.rpcCallQ.filter (fun r => !isStale now r) = c.rpcCallQ := by
          rw [List.filter_eq_self]
          intro r hr
          simpa using List.filter_eq_nil_iff.mp hnone r hr
        simp only [step, handle, withClient, hc, wsubusPercallCleanStale]
        refine ⟨_, rfl, .session hc rfl rfl ?_⟩
        simp [ClientSession.books, hnone, hall]
  exact ⟨s', hs', hsame.booked hq (fun _ => rfl) (fun _ => rfl) fun _ _ _ => rfl⟩

theorem booked_established {cfg : Config} (hq : s.Quiet) :
    ∃ s', step cfg s (.established w) = .ok s' ∧ s.Booked s' (.established w) := by
  cases hc : s.clients w with
  | some c =>
      refine ⟨{ s with steps := s.steps + 1 }, by simp [step, handle, hc], ?_⟩
      refine State.SameBooks.booked ⟨rfl, fun _ => rfl⟩ hq (fun w' => ?_) (fun _ => rfl)
        fun _ _ _ => rfl
      by_cases hw : w = w'
      · simp [Event.connects, ← hw, hc]
      · simp [Event.connects, hw]
  | none =>
      refine ⟨{ wsuPeerInit s w with steps := s.steps + 1 }, by simp [step, handle, hc], ?_⟩
      refine ⟨fun w' c hc' => ?_, fun w' => ?_, fun w' => ?_⟩
      · by_cases hw : w' = w
        · subst hw
          obtain rfl : { rpcQLen := 0, rpcCallQ := [], accessCheckQ := [], sid := [] } = c := by
            simpa [wsuPeerInit, State.setClient] using hc'
          simp
        · exact hq w' c (by simpa [wsuPeerInit, State.setClient, hw] using hc')
      · by_cases hw : w' = w
        · simp [wsuPeerInit, State.setClient, Event.connects, hw]
        · simp [wsuPeerInit, State.setClient, Event.connects, hw, Ne.symm hw]
      · simp [State.subsOf, wsuPeerInit, State.setClient, book, Event.subscribes,
          Event.unsubscribes]

theorem booked_closed {cfg : Config} (hk : s.Kept) (hq : s.Quiet) :
    ∃ s', step cfg s (.closed w) = .ok s' ∧ s.Booked s' (.closed w) := by
  cases hc : s.clients w with
  | none =>
      refine ⟨{ s with steps := s.steps + 1 }, by simp [step, handle, withClient, hc], ?_⟩
      refine State.SameBooks.booked ⟨rfl, fun _ => rfl⟩ hq (fun w' => ?_) (fun _ => rfl)
        fun w' sub hsub => ?_
      · by_cases hw : w = w'
        · simp [Event.connects, ← hw, hc]
        · simp [Event.connects, hw]
      · by_cases hw : w = w'
        · simp [← hw, subsOf_of_none hk hc] at hsub
        · simp [Event.unsubscribes, hw]
  | some c =>
      obtain ⟨u, hu⟩ : ∃ u, wsuPeerDeinit s w c = .ok u := by
        simp only [wsuPeerDeinit, (hq w c hc).2.1, List.any_nil]
        exact ⟨_, rfl⟩
      have hother := (turn_closed hc hu).other
      refine ⟨{ u with steps := s.steps + 1 }, by simp [step, handle, withClient, hc, hu], ?_⟩
      refine ⟨fun w' c' hc' => ?_, fun w' => ?_, fun w' => ?_⟩
      · by_cases hw : w' = w
        · simp [hw, clients_closed hu] at hc'
        · exact hq w' c' (hother w' hw ▸ hc')
      · by_cases hw : w' = w
        · simp [hw, clients_closed hu, Event.connects]
        · simp [hother w' hw, Event.connects, Ne.symm hw]
      · have hlist := listenList_closed hk hc hu
        by_cases hw : w = w'
        · simp [State.subsOf, hlist, book, Event.subscribes, Event.unsubscribes, hw]
        · simp only [State.subsOf, hlist, List.filter_filter, book, Event.subscribes,
            Event.unsubscribes, hw, decide_false, Bool.not_false, List.filter_true,
            Option.toList_none, List.append_nil]
          congr 1
          refine List.filter_congr fun info _ => ?_
          by_cases hwsi : info.wsi = w'
          · simp [hwsi, Ne.symm hw]
          · simp [hwsi]

theorem booked_step (cfg : Config) (hk : s.Kept) (hq : s.Quiet) (he : e.Subscribing) :
    ∃ s', step cfg s e = .ok s' ∧ s.Booked s' e := by
  cases e with
  | established w => exact booked_established hq
  | message w blob now a => exact booked_subscribing_message hk hq he
  | percallCleaner w now => exact booked_sweep hq
  | closed w => exact booked_closed hk hq
  | checkData w check msg => exact he.elim
  | checkComplete w check status a => exact he.elim
  | deferral w check a => exact he.elim
  | invokeData w call msg => exact he.elim
  | invokeComplete w call status => exact he.elim
  | busEvent sub type msg a => exact he.elim

end

/-! ### Runs -/

/-- Subscribing clients bring about no fault, and the list has what their
events say. -/
theorem booked_run {cfg : Config} {s : State} {es : List Event} (hn : s.Numbered) (hk : s.Kept)
    (hq : s.Quiet) (hes : ∀ e ∈ es, e.Subscribing) :
    ∃ t, run (step cfg) s es = .ok t ∧ t.Quiet ∧ ∀ w, t.subsOf w =
      bookAll (Event.connects w) (Event.subscribes w) (Event.unsubscribes w)
        (s.clients w).isSome (s.subsOf w) es := by
  induction es generalizing s with
  | nil => exact ⟨s, rfl, hq, fun _ => rfl⟩
  | cons e es ih =>
      obtain ⟨u, hu, hbooked⟩ := booked_step cfg hk hq (hes e List.mem_cons_self)
      obtain ⟨t, ht, hquiet, hsubs⟩ := ih (numbered_step hn hu) (kept_step hn hk hu)
        hbooked.quiet fun d hd => hes d (List.mem_cons_of_mem e hd)
      refine ⟨t, (run_cons hu es).trans ht, hquiet, fun w => ?_⟩
      rw [hsubs w, bookAll, hbooked.subs w, hbooked.connected w]

/-- How the server, in a state, keeps the subscriptions of the client on `w`,
which are those given. -/
structure Bookkeeping (cfg : Config) (s : State) (w : Wsi) (subs : List UbusrpcBlobSub) :
    Prop where
  /-- `subscribe-list` returns them all. -/
  list : ∀ blob now a args, parseRequest a.scalarAttrs blob = some (.ok (.subList args)) →
    ∃ s', step cfg s (.message w blob now a) = .ok s' ∧ s.SameBooks s' ∧
      s'.log = .reply w s.steps (jsonrpcRespUbus (jsonrpcId blob) 0
        (some (.array (subs.map subEntry)))) :: .received w s.steps blob :: s.log
  /-- `unsubscribe` ends those to its pattern. -/
  ends : ∀ blob now a args, parseRequest a.scalarAttrs blob = some (.ok (.unsub args)) →
    (∃ sub ∈ subs, sub.pattern = args.pattern) →
    ∃ s', step cfg s (.message w blob now a) = .ok s' ∧ s.Unsubscribed s' w args.pattern ∧
      s'.log = .reply w s.steps (jsonrpcRespUbus (jsonrpcId blob) 0 none) ::
        (((s.listenList.filter (unsubMatches w args)).map fun elem =>
          Action.destroySub elem.num).reverse ++ .received w s.steps blob :: s.log)
  /-- If there are none it does nothing. -/
  endsNone : ∀ blob now a args, parseRequest a.scalarAttrs blob = some (.ok (.unsub args)) →
    (∀ sub ∈ subs, sub.pattern ≠ args.pattern) →
    ∃ s', step cfg s (.message w blob now a) = .ok s' ∧ s.SameBooks s' ∧
      s'.log = .reply w s.steps (jsonrpcRespUbus (jsonrpcId blob) 5 none) ::
        .received w s.steps blob :: s.log
  /-- A subscription that ubus refuses is none. -/
  refuses : ∀ blob now a args, parseRequest a.scalarAttrs blob = some (.ok (.sub args)) →
    a.register ≠ 0 →
    ∃ s', step cfg s (.message w blob now a) = .ok s' ∧ s.SameBooks s' ∧
      s'.log = .reply w s.steps (jsonrpcRespUbus (jsonrpcId blob) a.register none) ::
        .received w s.steps blob :: s.log

theorem State.Unsubscribed.same {s s' : State} {w : Wsi} {pattern : CString}
    (h : s.Unsubscribed s' w pattern) (hnone : ∀ sub ∈ s.subsOf w, sub.pattern ≠ pattern) :
    s.SameBooks s' := by
  have hall : ∀ info ∈ s.listenList, ¬(info.wsi = w ∧ info.sub.pattern = pattern) := by
    rintro info hinfo ⟨hw, hp⟩
    exact hnone info.sub (mem_subsOf.mpr ⟨info, hinfo, hw, rfl⟩) hp
  refine ⟨?_, fun w' => ?_⟩
  · rw [h.listenList, List.filter_eq_self]
    exact fun info hinfo => decide_eq_true (hall info hinfo)
  · by_cases hw : w' = w
    · subst hw
      rw [h.queue]
      refine congrArg (fun f => (s.clients w').map f) (funext fun c => ?_)
      have hkept : c.rpcCallQ.filter (fun r => ¬∃ info ∈ s.listenList,
          (info.wsi = w' ∧ info.sub.pattern = pattern) ∧ r.item = .sub info.num) =
          c.rpcCallQ := by
        rw [List.filter_eq_self]
        refine fun r _ => decide_eq_true ?_
        rintro ⟨info, hinfo, hmatch, -⟩
        exact hall info hinfo hmatch
      rw [hkept, ClientSession.books]
    · rw [h.other w' hw]

theorem bookkeeping_of_quiet {cfg : Config} {s : State} {w : Wsi} {c : ClientSession}
    (hq : s.Quiet) (hc : s.clients w = some c) : Bookkeeping cfg s w (s.subsOf w) where
  list := fun _ now a _ hreq => step_subList cfg now a hc (hq.within hc) hreq
  ends := by
    rintro blob now a args hreq ⟨sub, hsub, hp⟩
    obtain ⟨info, hinfo, hw, rfl⟩ := mem_subsOf.mp hsub
    obtain ⟨s', hs', hgone, hlog⟩ := step_unsub cfg now a hc (hq.within hc) hreq
    have hsome : (s.listenList.filter (unsubMatches w args)).isEmpty = false :=
      List.isEmpty_eq_false_iff_exists_mem.mpr
        ⟨info, List.mem_filter.mpr ⟨hinfo, unsubMatches_iff.mpr ⟨hw, hp⟩⟩⟩
    rw [hsome] at hlog
    exact ⟨s', hs', hgone, hlog⟩
  endsNone := by
    intro blob now a args hreq hnone
    obtain ⟨s', hs', hgone, hlog⟩ := step_unsub cfg now a hc (hq.within hc) hreq
    have hempty : s.listenList.filter (unsubMatches w args) = [] := by
      rw [List.filter_eq_nil_iff]
      intro info hinfo hmatch
      obtain ⟨hw, hp⟩ := unsubMatches_iff.mp hmatch
      exact hnone info.sub (mem_subsOf.mpr ⟨info, hinfo, hw, rfl⟩) hp
    rw [hempty] at hlog
    exact ⟨s', hs', hgone.same hnone, hlog⟩
  refuses := fun _ now a _ hreq hregister =>
    step_sub_refused cfg now a hc (hq.within hc) hreq hregister

theorem quiet_init (n : ℕ) : (init n).Quiet := by
  intro w c hc
  cases hc

/-- Whatever the clients subscribed to and gave up, in whatever order, and
whoever left in between: the server knows the subscriptions of every client
from the events. -/
theorem bookkeeping_run (cfg : Config) (n : ℕ) {es : List Event}
    (hes : ∀ e ∈ es, e.Subscribing) :
    ∃ s, run (step cfg) (init n) es = .ok s ∧
      ∀ w c, s.clients w = some c → Bookkeeping cfg s w (subscriptions w es) := by
  obtain ⟨s, hs, hquiet, hsubs⟩ :=
    booked_run (numbered_init n) (kept_init n) (quiet_init n) hes
  refine ⟨s, hs, fun w c hc => ?_⟩
  have hlist : s.subsOf w = subscriptions w es := by
    rw [hsubs w, bookAll_eq]
    rfl
  rw [← hlist]
  exact bookkeeping_of_quiet hquiet hc

/-- Two clients subscribe to the same event, the first one twice. The second
takes its subscription back. -/
def sharedPattern : List Event :=
  [.established 0, .established 1, sends (netMessage (.ofString "subscribe")),
    .message 1 (netMessage (.ofString "subscribe")) ⟨0, 0⟩ ⟨willing, fun _ => some [], 0, 0, []⟩,
    sends (netMessage (.ofString "subscribe")), .percallCleaner 0 ⟨60, 0⟩,
    .message 1 (netMessage (.ofString "unsubscribe")) ⟨0, 0⟩ ⟨willing, fun _ => some [], 0, 0, []⟩]

theorem bookkeeping_run_sharedPattern :
    subscriptions 0 sharedPattern =
        [⟨.ofString "s", .ofString "net"⟩, ⟨.ofString "s", .ofString "net"⟩] ∧
      subscriptions 1 sharedPattern = [] ∧
      ∃ s, run (step plainConfig) (init 1024) sharedPattern = .ok s ∧
        ∀ w c, s.clients w = some c →
          Bookkeeping plainConfig s w (subscriptions w sharedPattern) := by
  have hsub : parseRequest (fun _ => some []) (netMessage (.ofString "subscribe")) =
      some (.ok (.sub ⟨.ofString "s", .ofString "net"⟩)) := rfl
  have hunsub : parseRequest (fun _ => some []) (netMessage (.ofString "unsubscribe")) =
      some (.ok (.unsub ⟨.ofString "s", .ofString "net"⟩)) := rfl
  have hes : ∀ e ∈ sharedPattern, e.Subscribing := by
    simp [sharedPattern, sends, Event.Subscribing, ← parseRequest_none_iff, hsub, hunsub]
  exact ⟨rfl, rfl, bookkeeping_run plainConfig 1024 hes⟩

end Owsd.Server
