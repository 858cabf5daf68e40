import Owsd.Server.Faults
import Owsd.Server.History

/-!
What a client and the bus get to see of the messages.

The life cycle of messages, read off the log of a whole run: no method is
invoked without a granted check of the same call, a denied call is answered
once and never invoked, and a response carries the id of its request. The
last has one exception, a `list` without an id.
-/

namespace Owsd.Server

open Rpc

theorem filter_history {m : ℕ} {p : Action → Bool} (hp : ∀ a, p a = true → a.message = some m)
    (log : List Action) : (history m log).filter p = log.filter p := by
  rw [history, List.filter_filter]
  refine List.filter_congr fun a _ => ?_
  cases hpa : p a with
  | false => rfl
  | true => simp [hp a hpa]

/-- The completion of the check of the call `m`. -/
def completes (m : ℕ) : Action → Bool
  | .checkDone n _ _ => n = m
  | _ => false

/-- A part of rpcd's answer to the check of the call `m`. -/
def informs (m : ℕ) : Action → Bool
  | .checkData n _ => n = m
  | _ => false

/-- Every invocation follows exactly one completion of the check of its call,
which allowed it, and which was started for the session, object and method of
the invocation, those of the message. -/
def State.InvokesGranted (s : State) : Prop :=
  ∀ later m sid object method params past,
    s.log = later ++ .invoke m sid object method params :: past →
    ∃ status, past.filter (completes m) = [.checkDone m status true] ∧
      ∃ mid early w blob x args, past = mid ++ .checkDone m status true :: early ∧
        .checkStart m sid object method ∈ early ∧ .received w m blob ∈ early ∧
        parseRequest x blob = some (.ok (.call args)) ∧ args.sid = sid ∧
        args.object = object ∧ args.method = method

/-- A part of rpcd's answer says yes: the first of its members that is called
`access` and is a boolean is true. -/
def GrantsAccess (data : List Attr) : Prop :=
  ∃ before v after, data = before ++ (.ofString "access", .int8 v) :: after ∧ v ≠ 0 ∧
    ∀ u, (.ofString "access", .int8 u) ∉ before

/-- A check that rpcd decided was granted on the word of the last part of its
answer and a final status OK. -/
def State.GrantsFounded (s : State) : Prop :=
  ∀ later m st past, s.log = later ++ .checkDone m (some st) true :: past →
    st = ubusStatusOk ∧ ∃ data, (past.filter (informs m)).head? = some (.checkData m data) ∧
      GrantsAccess data

/-- A call whose check was refused or could not be started is never invoked
and gets exactly one reply. -/
def State.DeniedAnswered (s : State) : Prop :=
  ∀ m, Life.Denied m s.log →
    (∀ sid object method params, .invoke m sid object method params ∉ s.log) ∧
      ∃ w blob, .received w m blob ∈ s.log ∧
        s.log.filter (Life.answers m) = [.reply w m (permissionDenied (jsonrpcId blob))]

theorem type_int8_iff {b : Blob} : (b.type == .int8) = true ↔ ∃ v, b = .int8 v := by
  cases b
  all_goals simp [Blob.type]

theorem partAccess_iff {data : List Attr} : partAccess data = true ↔ GrantsAccess data := by
  let access : Attr → Bool := fun pos => pos.1 = .ofString "access" && pos.2.type == .int8
  have haccess : ∀ pos, access pos = true ↔ ∃ v, pos = (.ofString "access", .int8 v) := by
    rintro ⟨name, value⟩
    simp only [access, Bool.and_eq_true, decide_eq_true_eq, type_int8_iff, Prod.mk.injEq,
      exists_and_left]
  have hfind : partAccess data = true ↔
      ∃ v, data.find? access = some (.ofString "access", .int8 v) ∧ v ≠ 0 := by
    rw [partAccess]
    cases hpos : data.find? access with
    | none => simp [access] at hpos ⊢
    | some pos =>
        obtain ⟨v, rfl⟩ := (haccess pos).mp (List.find?_some hpos)
        simp
  rw [hfind]
  constructor
  · rintro ⟨v, hv, hne⟩
    obtain ⟨-, before, after, rfl, hnone⟩ := List.find?_eq_some_iff_append.mp hv
    refine ⟨before, v, after, rfl, hne, fun u hu => ?_⟩
    have := hnone _ hu
    rw [(haccess _).mpr ⟨u, rfl⟩] at this
    cases this
  · rintro ⟨before, v, after, rfl, hne, hnone⟩
    refine ⟨v, List.find?_eq_some_iff_append.mpr ⟨(haccess _).mpr ⟨v, rfl⟩, before, after, rfl,
      fun pos hpos => ?_⟩, hne⟩
    cases hpos' : access pos with
    | false => rfl
    | true =>
        obtain ⟨u, rfl⟩ := (haccess pos).mp hpos'
        exact absurd hpos (hnone u)

theorem filter_completes_waitingHistory {m : ℕ} {w : Wsi} {blob : List Attr}
    {args : UbusrpcBlobCall} (data : List (List Attr)) :
    (Life.waitingHistory m w blob args data).filter (completes m) = [] := by
  rw [List.filter_eq_nil_iff]
  intro a ha
  rcases Life.mem_waitingHistory ha with ⟨d, rfl⟩ | rfl | rfl
  all_goals simp [completes]

theorem filter_informs_waitingHistory {m : ℕ} {w : Wsi} {blob : List Attr}
    {args : UbusrpcBlobCall} (data : List (List Attr)) :
    (Life.waitingHistory m w blob args data).filter (informs m) = data.map (.checkData m) := by
  rw [Life.waitingHistory, List.filter_append, List.filter_eq_self.mpr]
  · simp [informs]
  · intro a ha
    obtain ⟨d, -, rfl⟩ := List.mem_map.mp ha
    simp [informs]

section

variable {cfg : Config} {n : ℕ} {es : List Event} {s : State}

theorem tracks_of_run (hrun : run (step cfg) (init n) es = .ok s) : s.Tracks :=
  (tracks_run (numbered_init n) (tracks_init n) hrun).2

theorem founded_of_run (hrun : run (step cfg) (init n) es = .ok s) {later past : List Action}
    {a : Action} {m : ℕ} (hlog : s.log = later ++ a :: past) (ha : a.message = some m) :
    Life.Founded m (history m past) a := by
  obtain ⟨stage, hat⟩ := tracks_of_run hrun m
  have hsplit : history m s.log = history m later ++ a :: history m past := by
    rw [hlog, history_append]
    simp [history, ha]
  exact hat.life.founded.at hsplit

theorem invokesGranted_run (hrun : run (step cfg) (init n) es = .ok s) : s.InvokesGranted := by
  intro later m sid object method params past hlog
  obtain ⟨w, blob, args, data, status, ⟨x, hreq⟩, h₁, h₂, h₃, hpast⟩ :=
    founded_of_run hrun hlog rfl
  refine ⟨status, ?_, ?_⟩
  · have hp : ∀ a, completes m a = true → a.message = some m := by
      intro a ha
      cases a
      all_goals simp_all [completes, Action.message]
    rw [← filter_history hp, hpast]
    simp [completes, filter_completes_waitingHistory]
  · obtain ⟨mid, early, hsplit, -, -, hearly⟩ := List.filter_eq_cons_iff.mp hpast
    have hmem : ∀ a ∈ Life.waitingHistory m w blob args data, a ∈ early :=
      fun a ha => (mem_history.mp (hearly ▸ ha)).1
    refine ⟨mid, early, w, blob, x, args, hsplit, hmem _ ?_, hmem _ ?_, hreq, h₁, h₂, h₃⟩
    · simp [Life.waitingHistory, h₁, h₂, h₃]
    · simp [Life.waitingHistory]

theorem grantsFounded_run (hrun : run (step cfg) (init n) es = .ok s) : s.GrantsFounded := by
  intro later m st past hlog
  obtain ⟨w, blob, args, data, hg, hpast⟩ := founded_of_run hrun hlog rfl
  obtain ⟨hok, hlast⟩ := hg st rfl
  refine ⟨hok, ?_⟩
  have hp : ∀ a, informs m a = true → a.message = some m := by
    intro a ha
    cases a
    all_goals simp_all [informs, Action.message]
  rw [← filter_history hp, hpast, filter_informs_waitingHistory]
  cases data with
  | nil => cases hlast
  | cons d data => exact ⟨d, rfl, partAccess_iff.mp (by simpa using hlast)⟩

theorem deniedAnswered_run (hrun : run (step cfg) (init n) es = .ok s) : s.DeniedAnswered := by
  intro m hd
  obtain ⟨stage, hat⟩ := tracks_of_run hrun m
  have hd' : Life.Denied m (history m s.log) := by
    simpa [Life.Denied, mem_history, Action.message] using hd
  obtain ⟨hno, w, blob, hmem, hfilter⟩ := hat.life.denied hd'
  refine ⟨fun sid object method params hmem => ?_, w, blob, (mem_history.mp hmem).1, ?_⟩
  · exact hno m sid object method params (mem_history.mpr ⟨hmem, rfl⟩)
  · have hp : ∀ a, Life.answers m a = true → a.message = some m := by
      intro a ha
      cases a
      all_goals simp_all [Life.answers, Action.message]
    rw [← filter_history hp, hfilter]

/-- In every state that a run of any number of clients reaches, every
invocation was granted, every grant by rpcd was founded on its answer, and
every denied call was answered and not invoked. -/
theorem calls_checked (hrun : run (step cfg) (init n) es = .ok s) :
    s.InvokesGranted ∧ s.DeniedAnswered ∧ s.GrantsFounded :=
  ⟨invokesGranted_run hrun, deniedAnswered_run hrun, grantsFounded_run hrun⟩

end

/-- A call that rpcd grants in two parts, and then is invoked. -/
theorem calls_checked_two_parts :
    ∃ s, run (step plainConfig) (init 512)
        [.established 0, sends callMessage, .checkData 0 1 [],
          .checkData 0 1 [(.ofString "access", .int8 1)],
          .checkComplete 0 1 0 willingInvoke] = .ok s ∧
      (∃ later past, s.log = later ++ .invoke 1 (.ofString "s") (.ofString "router")
        (.ofString "info") [(.ofString "ubus_rpc_session", .string (.ofString "s"))] :: past) ∧
      s.InvokesGranted ∧ s.DeniedAnswered ∧ s.GrantsFounded :=
  ⟨_, rfl, ⟨[], _, rfl⟩, calls_checked (rfl : run (step plainConfig) (init 512)
    [.established 0, sends callMessage, .checkData 0 1 [],
      .checkData 0 1 [(.ofString "access", .int8 1)],
      .checkComplete 0 1 0 willingInvoke] = .ok _)⟩

/-! ### Ids -/

theorem log_message {s t : State} {w : Wsi} {c : ClientSession} {x : ScalarAttrs}
    {blob : List Attr} (h : MessageEffect s w c x blob t) :
    s.log <:+ t.log ∧ .received w s.steps blob ∈ t.log := by
  cases h with
  | unheard _ => exact ⟨⟨[_], rfl⟩, by simp⟩
  | answered _ _ => exact ⟨⟨[_, _], rfl⟩, by simp⟩
  | subscribed _ _ _ => exact ⟨⟨[_, _], rfl⟩, by simp⟩
  | unsubscribed _ _ _ _ _ => exact ⟨⟨_, (State.log_emit s _).symm⟩, by simp⟩
  | callFailed _ _ => exact ⟨⟨[_, _, _, _], rfl⟩, by simp⟩
  | callStarted => exact ⟨⟨[_, _], rfl⟩, by simp⟩

theorem log_effect {s t : State} {e : Event} (h : Effect s e t) : s.log <:+ t.log := by
  cases h with
  | idle => exact List.suffix_rfl
  | opened _ => exact List.suffix_rfl
  | message _ hm => exact (log_message hm).1
  | callData => exact ⟨[_], rfl⟩
  | eventData => exact List.suffix_rfl
  | callInvoked => exact ⟨[_, _], rfl⟩
  | callRefused => exact ⟨[_, _, _], rfl⟩
  | callLost => exact (List.suffix_append _ _).trans (List.suffix_append [_, _] _)
  | eventDelivered => exact ⟨[_, _], rfl⟩
  | eventDropped => exact ⟨[_], rfl⟩
  | retdata => exact List.suffix_rfl
  | invokeCompleted => exact ⟨[_, _], rfl⟩
  | eventStarted => exact List.suffix_rfl
  | eventFailed => exact ⟨[_], rfl⟩
  | swept => exact ⟨_, (State.log_emit s _).symm⟩
  | closed hc hd =>
      obtain rfl := wsuPeerDeinit_ok hd
      exact ⟨_, rfl⟩

theorem log_run {cfg : Config} {s s' : State} {es : List Event}
    (hrun : run (step cfg) s es = .ok s') : s.log <:+ s'.log := by
  refine run_invariant_of_step (fun t => s.log <:+ t.log) ?_ List.suffix_rfl hrun
  intro t e t' ht h
  obtain ⟨u, hu, rfl⟩ := step_effect h
  have hgrows := log_effect hu
  exact ht.trans hgrows

/-- A message that was received is the origin of the replies to it, in every
state reached from there. -/
theorem reply_of_received {s : State} (ht : s.Tracks) {w w' : Wsi} {m : ℕ}
    {blob resp : List Attr} (hreceived : .received w m blob ∈ s.log)
    (hreply : .reply w' m resp ∈ s.log) : w' = w ∧ IsResponse (jsonrpcId blob) resp := by
  obtain ⟨stage, hat⟩ := ht m
  have hmem : .received w m blob ∈ history m s.log := mem_history.mpr ⟨hreceived, rfl⟩
  rcases hat.life.origin with hnil | ⟨w₀, blob₀, ho⟩
  · rw [hnil] at hmem
    cases hmem
  · obtain ⟨rfl, rfl⟩ := (ho.received w blob).mp hmem
    exact ho.reply w' resp (mem_history.mpr ⟨hreply, rfl⟩)

theorem lookupId_of_isResponse {blob resp : List Attr}
    (h : IsResponse (jsonrpcId blob) resp) :
    lookupId resp = some (((jsonrpcId blob).map (·.2)).getD .unspec) := by
  obtain ⟨rest, rfl⟩ := h
  rw [lookupId_resp fun id hid => jsonrpcId_name hid]
  cases jsonrpcId blob with
  | none => rfl
  | some id => rfl

theorem step_list_absentId {cfg : Config} {s : State} {w : Wsi} {c : ClientSession}
    {blob : List Attr} {now : Timespec} {a : MessageAnswers} {args : UbusrpcBlobList}
    (hc : s.clients w = some c) (hquota : c.rpcQLen.toNat ≤ s.reqMax)
    (hreq : parseRequest a.scalarAttrs blob = some (.ok (.list args)))
    (hid : jsonrpcId blob = none) :
    step cfg s (.message w blob now a) = .error .absentId := by
  rw [step_handled cfg now a hc hquota hreq]
  simp only [handleRequest, hid, ubusrpcHandleList]
  rfl

/-- A message is handled without reading an absent id, and all responses to
it, at once or later, go to its client and carry its id or, if it has none,
null; except that an admitted `list` without an id faults. -/
theorem response_id_iff {cfg : Config} {n : ℕ} {es : List Event} {s : State} {w : Wsi}
    {c : ClientSession} {blob : List Attr} {now : Timespec} {a : MessageAnswers}
    (hrun : run (step cfg) (init n) es = .ok s) (hc : s.clients w = some c) :
    (step cfg s (.message w blob now a) ≠ .error .absentId ∧
      ∀ later s', run (step cfg) s (.message w blob now a :: later) = .ok s' →
        ∀ w' resp, .reply w' s.steps resp ∈ s'.log →
          w' = w ∧ lookupId resp = some (((jsonrpcId blob).map (·.2)).getD .unspec)) ↔
    ¬ (c.rpcQLen.toNat ≤ s.reqMax ∧
      (∃ args, parseRequest a.scalarAttrs blob = some (.ok (.list args))) ∧
      jsonrpcId blob = none) := by
  constructor
  · rintro ⟨hok, -⟩ ⟨hquota, ⟨args, hreq⟩, hid⟩
    exact hok (step_list_absentId hc hquota hreq hid)
  · intro hcond
    constructor
    · intro hfault
      cases step_fault hfault with
      | startCheck hf => simp at hf
      | absentId hc' hquota hreq hid =>
          obtain rfl : c = _ := Option.some.inj (hc.symm.trans hc')
          exact hcond ⟨hquota, ⟨_, hreq⟩, hid⟩
    · intro later s' hs' w' resp hreply
      obtain ⟨hn, ht⟩ := tracks_run (numbered_init n) (tracks_init n) hrun
      have ht' := (tracks_run hn ht hs').2
      -- The message is in the log from the step that took it in.
      obtain ⟨t, hstep, hrest⟩ := run_cons_ok hs'
      have hreceived : .received w s.steps blob ∈ t.log := by
        obtain ⟨u, hu, rfl⟩ := step_message hc hstep
        have hlog := (log_message hu).2
        exact hlog
      obtain ⟨rfl, hresp⟩ := reply_of_received ht' ((log_run hrest).subset hreceived) hreply
      exact ⟨rfl, lookupId_of_isResponse hresp⟩

/-- A call with an id. -/
theorem response_id_iff_call :
    ∃ s c, run (step plainConfig) (init 512) [.established 0] = .ok s ∧
      s.clients 0 = some c ∧
      ((step plainConfig s (sends callMessage) ≠ .error .absentId ∧
        ∀ later s', run (step plainConfig) s (sends callMessage :: later) = .ok s' →
          ∀ w' resp, .reply w' s.steps resp ∈ s'.log → w' = 0 ∧
            lookupId resp = some (((jsonrpcId callMessage).map (·.2)).getD .unspec)) ↔
      ¬ (c.rpcQLen.toNat ≤ s.reqMax ∧
        (∃ args, parseRequest (fun _ => some []) callMessage = some (.ok (.list args))) ∧
        jsonrpcId callMessage = none)) :=
  ⟨_, _, rfl, rfl, response_id_iff
    (rfl : run (step plainConfig) (init 512) [.established 0] = .ok _) rfl⟩

/-- The first thing a client sends is a `list` without an id. -/
theorem list_without_id :
    run (step plainConfig) (init 512)
      [.established 0,
        sends [(.ofString "jsonrpc", .string (.ofString "2.0")),
          (.ofString "method", .string (.ofString "list")),
          (.ofString "params", .array [([], .string (.ofString "s")),
            ([], .string (.ofString "*"))])]] = .error .absentId := rfl

end Owsd.Server
