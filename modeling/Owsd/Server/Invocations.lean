import Owsd.Rpc.Documented
import Owsd.Server.Observations

/-!
What a call is invoked with.

The arguments of a call pass through three hands: the parser copies them out
of the message, the access check may append the session id, and just before
the invoke the name of the interface may be appended for the default session.
Between the three the call waits in a queue. `State.Waiting` says what waits
there, `step_waiting` and `step_invoke` what one step does to it, and over a
run every invocation is traced back to the message and the check that it came
from (`traced_run`).

When rpcd is asked, it is asked about the arguments as they are then, before
the name of the interface is appended.
-/

namespace Owsd.Server

open Rpc

def sessionTag (sid : CString) : Attr := (.ofString "ubus_rpc_session", .string sid)

/-- The tag of the invoke, the name of the interface. -/
def listenTag (vc : VhContext) : Attr := (.ofString "_owsd_listen", .string vc.name)

def rpcdQuestion (sid object method : CString) (args : List Attr) : List Attr :=
  [sessionTag sid, (.ofString "object", .string object), (.ofString "function", .string method),
    (.ofString "params", .table args)]

/-- Event `m` is the message of the client on `w` with the call `A`, whose
access check was started with the result `r`; `a` is what the libraries
answered. -/
def CheckedCall (cfg : Config) (es : List Event) (m : ℕ) (w : Wsi) (a : MessageAnswers)
    (A : UbusrpcBlobCall) (r : CheckStart) : Prop :=
  ∃ blob now, es[m]? = some (.message w blob now a) ∧
    parseRequest a.scalarAttrs blob = some (.ok (.call A)) ∧
    wsubusAccessCheckCall cfg w a.check A.sid A.object A.method A.paramsBuf (.call m) = .ok r

/-- The arguments that are invoked are those of the call and owsd's own tags.
If the check was put to rpcd, it was asked about the object and the method of
the call, with the arguments `told`. -/
structure Tagged (vc : VhContext) (A : UbusrpcBlobCall) (r : CheckStart)
    (told invoked : List Attr) : Prop where
  noListen : ∀ cur ∈ A.paramsBuf, cur.1 ≠ .ofString "_owsd_listen"
  args : invoked = A.paramsBuf ++ (if r.rpcdAsked.isSome then [sessionTag A.sid] else []) ++
    (if A.sid = ubusDefaultSid then [listenTag vc] else [])
  noSession : r.rpcdAsked.isSome → ∀ cur ∈ A.paramsBuf, cur.1 ≠ .ofString "ubus_rpc_session"
  asked : ∀ q ∈ r.rpcdAsked, q = rpcdQuestion A.sid A.object A.method told

/-- Every call that was invoked was asked for by a client, with the same
session, object and method, and its arguments are tagged; rpcd was told what
`told` makes of them. -/
def State.InvokesAsked (cfg : Config) (es : List Event) (told : List Attr → List Attr)
    (s : State) : Prop :=
  ∀ m sid object method params, .invoke m sid object method params ∈ s.log →
    ∃ w a A r, CheckedCall cfg es m w a A r ∧ sid = A.sid ∧ object = A.object ∧
      method = A.method ∧ Tagged (cfg.vhost w) A r (told params) params

/-- No checker before rpcd decides about the call. -/
def LeftToRpcd (cfg : Config) (w : Wsi) (a : CheckAnswers) (m : ℕ) (A : UbusrpcBlobCall) :
    Prop :=
  (∃ x, extCheck cfg w A.sid A.object (some (.call m)) = .ok x ∧ x.res = .next) ∧
    wsuExtRestrictInterface a.rawText (cfg.vhost w) A.object A.method (some A.paramsBuf) = .next

/-- A call that is left to rpcd and brings its own `ubus_rpc_session` is never
invoked, and answered with a refusal. -/
def State.RefusesSpoofed (cfg : Config) (n : ℕ) (es : List Event) (s : State) : Prop :=
  ∀ pre post w blob now a t c A, es = pre ++ .message w blob now a :: post →
    run (step cfg) (init n) pre = .ok t → t.clients w = some c →
    c.rpcQLen.toNat ≤ t.reqMax → parseRequest a.scalarAttrs blob = some (.ok (.call A)) →
    LeftToRpcd cfg w a.check pre.length A →
    (∃ cur ∈ A.paramsBuf, cur.1 = .ofString "ubus_rpc_session") →
    (∀ sid object method params, .invoke pre.length sid object method params ∉ s.log) ∧
      s.log.filter (Life.answers pre.length) =
        [.reply w pre.length (permissionDenied (jsonrpcId blob))]

/-! ### The parser -/

theorem callParse_noListen {x : ScalarAttrs} {blob : Blob} {A : UbusrpcBlobCall}
    (h : ubusrpcBlobCallParse x blob = some (.ok A)) :
    ∀ cur ∈ A.paramsBuf, cur.1 ≠ .ofString "_owsd_listen" := by
  simp only [ubusrpcBlobCallParse] at h
  split at h
  · obtain ⟨members, -, h⟩ := Option.map_eq_some_iff.mp h
    split at h
    · cases h
    · next hany =>
      cases h
      intro cur hcur heq
      exact hany (List.any_eq_true.mpr ⟨cur, hcur, by simp [heq]⟩)
  · cases h
  · cases h
  · cases h
  · cases h

theorem parseRequest_noListen {x : ScalarAttrs} {blob : List Attr} {A : UbusrpcBlobCall}
    (h : parseRequest x blob = some (.ok (.call A))) :
    ∀ cur ∈ A.paramsBuf, cur.1 ≠ .ofString "_owsd_listen" := by
  simp only [parseRequest] at h
  split at h
  · cases h
  · next req _ =>
    rcases ubusrpcBlobParse_cases x req.method req.params with
      ⟨-, hp⟩ | ⟨-, hp⟩ | ⟨-, hp⟩ | ⟨-, hp⟩ | ⟨-, hp⟩ | ⟨-, hp⟩
    · obtain ⟨parsed, hparsed, hreq⟩ := Option.map_eq_some_iff.mp (hp ▸ h)
      obtain ⟨args, rfl, heq⟩ := parseParams_ok hreq
      cases heq
      exact callParse_noListen hparsed
    · obtain ⟨args, -, heq⟩ := parseParams_ok (Option.some.inj (hp ▸ h))
      cases heq
    · obtain ⟨args, -, heq⟩ := parseParams_ok (Option.some.inj (hp ▸ h))
      cases heq
    · obtain ⟨args, -, heq⟩ := parseParams_ok (Option.some.inj (hp ▸ h))
      cases heq
    · obtain ⟨args, -, heq⟩ := parseParams_ok (Option.some.inj (hp ▸ h))
      cases heq
    · rw [hp] at h
      cases h

/-! ### The access check -/

section

variable {cfg : Config} {w : Wsi} {m : ℕ} {sid object method : CString} {args : List Attr}

/-- A client that brings its own session id is not put to rpcd. -/
theorem viaSession_spoofed (a : CheckAnswers)
    (h : ∃ cur ∈ args, cur.1 = .ofString "ubus_rpc_session") :
    (wsubusAccessCheckViaSession a sid none object method (some args)).outcome = .failed := by
  obtain ⟨cur, hcur, hname⟩ := h
  have hany : ((some args).getD []).any fun cur => cur.1 = .ofString "ubus_rpc_session" :=
    List.any_eq_true.mpr ⟨cur, hcur, by simp [hname]⟩
  rw [wsubusAccessCheckViaSession, if_pos hany]

theorem viaSession_started {a : CheckAnswers}
    (h : (wsubusAccessCheckViaSession a sid none object method (some args)).outcome ≠ .failed) :
    (∀ cur ∈ args, cur.1 ≠ .ofString "ubus_rpc_session") ∧
      (wsubusAccessCheckViaSession a sid none object method (some args)).args =
        some (args ++ [sessionTag sid]) ∧
      (wsubusAccessCheckViaSession a sid none object method (some args)).rpcdAsked =
        some (rpcdQuestion sid object method (args ++ [sessionTag sid])) := by
  refine ⟨fun cur hcur hname => h (viaSession_spoofed a ⟨cur, hcur, hname⟩), ?_⟩
  revert h
  simp only [wsubusAccessCheckViaSession]
  split
  · exact fun h => absurd rfl h
  · split
    · exact fun h => absurd rfl h
    · exact fun _ => ⟨rfl, rfl⟩

/-- A check that was started leaves the arguments alone, or it is put to rpcd
and appends its tag. -/
theorem accessCheckCall_started {a : CheckAnswers} {r : CheckStart}
    (h : wsubusAccessCheckCall cfg w a sid object method args (.call m) = .ok r)
    (hstarted : r.outcome ≠ .failed) :
    (r.rpcdAsked = none ∧ r.args = some args) ∨
      ((∀ cur ∈ args, cur.1 ≠ .ofString "ubus_rpc_session") ∧
        r.args = some (args ++ [sessionTag sid]) ∧
        r.rpcdAsked = some (rpcdQuestion sid object method (args ++ [sessionTag sid]))) := by
  simp only [wsubusAccessCheckCall, wsubusAccessCheck] at h
  split at h
  · cases h
  · next x hx =>
    obtain ⟨hobject, hfrom⟩ := extCheck_call hx
    split at h
    · cases h
      exact .inl ⟨rfl, rfl⟩
    · cases h
      exact .inl ⟨rfl, rfl⟩
    · rw [hfrom, if_neg Bool.false_ne_true] at h
      cases h
      rw [hobject] at hstarted ⊢
      revert hstarted
      simp only [wsubusAccessCheckNext]
      split
      · exact fun _ => .inl ⟨rfl, rfl⟩
      · exact fun _ => .inl ⟨rfl, rfl⟩
      · exact fun hstarted => .inr (viaSession_started hstarted)

/-- A call that is left to rpcd and brings its own session id. -/
theorem accessCheckCall_spoofed (a : CheckAnswers) {A : UbusrpcBlobCall}
    (hleft : LeftToRpcd cfg w a m A)
    (h : ∃ cur ∈ A.paramsBuf, cur.1 = .ofString "ubus_rpc_session") :
    ∃ r, wsubusAccessCheckCall cfg w a A.sid A.object A.method A.paramsBuf (.call m) = .ok r ∧
      r.outcome = .failed := by
  obtain ⟨⟨x, hx, hnext⟩, hrestrict⟩ := hleft
  obtain ⟨hobject, hfrom⟩ := extCheck_call hx
  simp only [wsubusAccessCheckCall, wsubusAccessCheck, hx, hnext, hfrom, if_neg Bool.false_ne_true,
    hobject]
  refine ⟨_, rfl, ?_⟩
  simp only [wsubusAccessCheckNext, hrestrict]
  exact viaSession_spoofed a h

theorem doCheckThenDoCall_checked {a : CheckAnswers} {A args' : UbusrpcBlobCall}
    {k : AccessCheck} {q : Subject}
    (h : wsubusCallDoCheckThenDoCall cfg w a m A = .ok (some (args', k, q))) :
    ∃ r, wsubusAccessCheckCall cfg w a A.sid A.object A.method A.paramsBuf (.call m) = .ok r ∧
      r.outcome ≠ .failed ∧ args' = { A with paramsBuf := r.args.getD [] } := by
  simp only [wsubusCallDoCheckThenDoCall] at h
  split at h
  · cases h
  · split at h
    · cases h
    · next r hr =>
      split at h
      · next hout =>
        cases h
        exact ⟨r, hr, by simp [hout], rfl⟩
      · next hout =>
        cases h
        exact ⟨r, hr, by simp [hout], rfl⟩
      · cases h

end

/-! ### The invoke -/

/-- The arguments a waiting call is invoked with. -/
def listenTagged (vc : VhContext) (args : UbusrpcBlobCall) : List Attr :=
  args.paramsBuf ++ if args.sid = ubusDefaultSid then [listenTag vc] else []

theorem doCall_invoked {vc : VhContext} {a : InvokeAnswers} {args : UbusrpcBlobCall} {ok : Bool}
    {params : List Attr} (h : wsubusCallDoCall vc a args = .invoked ok params) :
    params = listenTagged vc args := by
  simp only [wsubusCallDoCall] at h
  split at h
  · cases h
  · split at h
    · cases h
    · cases h
      rw [listenTagged]
      split
      · rfl
      · rw [List.append_nil]

theorem tagged_of_started {cfg : Config} {w : Wsi} {m : ℕ} {a : CheckAnswers}
    {A : UbusrpcBlobCall} {r : CheckStart}
    (hlisten : ∀ cur ∈ A.paramsBuf, cur.1 ≠ .ofString "_owsd_listen")
    (hr : wsubusAccessCheckCall cfg w a A.sid A.object A.method A.paramsBuf (.call m) = .ok r)
    (hstarted : r.outcome ≠ .failed) :
    Tagged (cfg.vhost w) A r (r.args.getD [])
      (listenTagged (cfg.vhost w) { A with paramsBuf := r.args.getD [] }) := by
  rcases accessCheckCall_started hr hstarted with ⟨hnone, hargs⟩ | ⟨hno, hargs, hasked⟩
  · refine ⟨hlisten, ?_, ?_, ?_⟩
    · simp [listenTagged, hnone, hargs]
    · simp [hnone]
    · simp [hnone]
  · refine ⟨hlisten, ?_, fun _ => hno, ?_⟩
    · simp [listenTagged, hasked, hargs]
    · simp [hasked, hargs]

def withoutListen (params : List Attr) : List Attr :=
  params.filter fun cur => cur.1 ≠ .ofString "_owsd_listen"

/-- Neither the client nor the check sets the tag of the invoke. -/
theorem withoutListen_listenTagged {vc : VhContext} {args : UbusrpcBlobCall}
    (h : ∀ cur ∈ args.paramsBuf, cur.1 ≠ .ofString "_owsd_listen") :
    withoutListen (listenTagged vc args) = args.paramsBuf := by
  have hargs : args.paramsBuf.filter (fun cur => cur.1 ≠ .ofString "_owsd_listen") =
      args.paramsBuf := List.filter_eq_self.mpr fun cur hcur => by simp [h cur hcur]
  rw [withoutListen, listenTagged, List.filter_append, hargs]
  split
  · simp [listenTag]
  · simp

theorem started_noListen {cfg : Config} {w : Wsi} {m : ℕ} {a : CheckAnswers}
    {A : UbusrpcBlobCall} {r : CheckStart}
    (hlisten : ∀ cur ∈ A.paramsBuf, cur.1 ≠ .ofString "_owsd_listen")
    (hr : wsubusAccessCheckCall cfg w a A.sid A.object A.method A.paramsBuf (.call m) = .ok r)
    (hstarted : r.outcome ≠ .failed) :
    ∀ cur ∈ r.args.getD [], cur.1 ≠ .ofString "_owsd_listen" := by
  rcases accessCheckCall_started hr hstarted with ⟨-, hargs⟩ | ⟨-, hargs, -⟩
  · rw [hargs]
    exact hlisten
  · rw [hargs]
    intro cur hcur
    rcases List.mem_append.mp hcur with hcur | hcur
    · exact hlisten cur hcur
    · rw [List.mem_singleton.mp hcur]
      show CString.ofString "ubus_rpc_session" ≠ CString.ofString "_owsd_listen"
      decide

/-! ### Steps -/

/-- The call `m` of the client on `w` waits to be invoked, with the
arguments `args`. -/
def State.Waiting (s : State) (w : Wsi) (m : ℕ) (args : UbusrpcBlobCall) : Prop :=
  ∃ c ctx, s.clients w = some c ∧ .call ctx ∈ c.rpcCallQ ∧ ctx.invokeReq = false ∧
    ctx.num = m ∧ ctx.callArgs = args

def invocations (log : List Action) : List Action :=
  log.filter fun
    | .invoke .. => true
    | _ => false

theorem invoke_mem_invocations {log : List Action} {m : ℕ} {sid object method : CString}
    {params : List Attr} :
    .invoke m sid object method params ∈ invocations log ↔
      .invoke m sid object method params ∈ log := by
  simp [invocations]

theorem invocations_append_of_destroys {acts log : List Action}
    (h : ∀ a ∈ acts, ∃ n, a = .destroyNotif n ∨ a = .destroyCall n ∨ a = .destroySub n) :
    invocations (acts ++ log) = invocations log := by
  have hnone : invocations acts = [] := by
    refine List.filter_eq_nil_iff.mpr fun a ha => ?_
    obtain ⟨n, rfl | rfl | rfl⟩ := h a ha
    · simp
    · simp
    · simp
  rw [invocations, List.filter_append]
  exact congrArg (· ++ invocations log) hnone

theorem invocations_message {s t : State} {w : Wsi} {c : ClientSession} {x : ScalarAttrs}
    {blob : List Attr} (h : MessageEffect s w c x blob t) :
    invocations t.log = invocations s.log := by
  cases h with
  | unheard _ => rfl
  | answered _ _ => rfl
  | subscribed _ _ _ => rfl
  | @unsubscribed _ args _ _ _ _ _ =>
      have hgone : invocations (((s.listenList.filter (unsubMatches w args)).map fun elem =>
          Action.destroySub elem.num).reverse ++ .received w s.steps blob :: s.log) =
          invocations (.received w s.steps blob :: s.log) := by
        apply invocations_append_of_destroys
        intro a ha
        obtain ⟨elem, -, rfl⟩ := List.mem_map.mp (List.mem_reverse.mp ha)
        exact ⟨elem.num, .inr (.inr rfl)⟩
      rw [State.log_setClient, State.log_setListenList, State.log_emit, List.cons_append,
        List.append_assoc]
      exact hgone
  | callFailed _ _ => rfl
  | callStarted => rfl

theorem handle_cases {cfg : Config} {s t : State} {e : Event} (h : handle cfg s e = .ok t) :
    (∃ w c k status allow a, s.clients w = some c ∧ k ∈ c.accessCheckQ ∧
      completeCheck cfg s w c k status allow a = .ok t) ∨
    invocations t.log = invocations s.log := by
  cases e with
  | established w =>
      simp only [handle] at h
      split at h
      · cases h
        exact .inr rfl
      · cases h
        exact .inr rfl
  | message w blob now a =>
      rcases withClient_ok h with rfl | ⟨c, hc, h⟩
      · exact .inr rfl
      · exact .inr (invocations_message (onMsg_effect hc h))
  | checkData w check msg =>
      rcases withCheck_ok h with rfl | ⟨c, k, -, -, -, -, h⟩
      · exact .inr rfl
      · cases h
        simp only [wsubusAccessCheckOnRet]
        split
        · exact .inr rfl
        · exact .inr rfl
  | checkComplete w check status a =>
      rcases withCheck_ok h with rfl | ⟨c, k, hc, hk, -, -, h⟩
      · exact .inr rfl
      · exact .inl ⟨w, c, k, _, _, a, hc, hk, h⟩
  | deferral w check a =>
      rcases withCheck_ok h with rfl | ⟨c, k, hc, hk, -, -, h⟩
      · exact .inr rfl
      · exact .inl ⟨w, c, k, _, _, a, hc, hk, h⟩
  | invokeData w call msg =>
      rcases withInvoked_ok h with rfl | ⟨c, ctx, -, -, -, h⟩
      · exact .inr rfl
      · cases h
        exact .inr rfl
  | invokeComplete w call status =>
      rcases withInvoked_ok h with rfl | ⟨c, ctx, -, -, -, h⟩
      · exact .inr rfl
      · cases h
        exact .inr rfl
  | busEvent sub type msg a =>
      simp only [handle] at h
      split at h
      · cases h
        exact .inr rfl
      · rcases withClient_ok h with rfl | ⟨c, -, h⟩
        · exact .inr rfl
        · simp only [wsubusSubCb] at h
          repeat' split at h
          all_goals cases h
          all_goals exact .inr rfl
  | percallCleaner w now =>
      rcases withClient_ok h with rfl | ⟨c, -, h⟩
      · exact .inr rfl
      · cases h
        right
        apply invocations_append_of_destroys
        intro a ha
        obtain ⟨n, rfl⟩ := mem_sweptActions ha
        exact ⟨n, .inr (.inl rfl)⟩
  | closed w =>
      rcases withClient_ok h with rfl | ⟨c, -, h⟩
      · exact .inr rfl
      · obtain rfl := wsuPeerDeinit_ok h
        right
        apply invocations_append_of_destroys
        intro a ha
        rcases mem_deinitActions (List.mem_reverse.mp ha) with ⟨n, rfl⟩ | ⟨n, rfl⟩ | ⟨n, rfl, -⟩
        · exact ⟨n, .inl rfl⟩
        · exact ⟨n, .inr (.inl rfl)⟩
        · exact ⟨n, .inr (.inr rfl)⟩

theorem completeCheck_invoke {cfg : Config} {s t : State} {w : Wsi} {c : ClientSession}
    {k : AccessCheck} {status : Option Int} {allow : Bool} {a : InvokeAnswers} {m : ℕ}
    {sid object method : CString} {params : List Attr}
    (h : completeCheck cfg s w c k status allow a = .ok t)
    (hmem : .invoke m sid object method params ∈ t.log) :
    .invoke m sid object method params ∈ s.log ∨
      ∃ ctx, k.ctx = .call ctx.num ∧ .call ctx ∈ c.rpcCallQ ∧ m = ctx.num ∧
        sid = ctx.callArgs.sid ∧ object = ctx.callArgs.object ∧ method = ctx.callArgs.method ∧
        params = listenTagged (cfg.vhost w) ctx.callArgs := by
  simp only [completeCheck] at h
  split at h
  · next num hctx =>
    obtain ⟨ctx, rfl, hfind, ⟨-, rfl⟩ | ⟨-, rfl⟩ | ⟨ok, params', -, hdo, rfl⟩⟩ :=
      accessOnCompleted_ok h
    · exact .inl (by simpa [denyCall] using hmem)
    · exact .inl (by simpa [denyCall] using hmem)
    · -- The attempt is in the log whether or not it succeeds.
      have hlog : .invoke m sid object method params ∈ s.log ∨
          Action.invoke m sid object method params =
            .invoke ctx.num ctx.callArgs.sid ctx.callArgs.object ctx.callArgs.method params' := by
        split at hmem
        · simpa [or_comm] using hmem
        · simpa [denyCall, or_comm] using hmem
      refine hlog.imp_right fun heq => ?_
      cases heq
      exact ⟨ctx, hctx, (ClientSession.findCall_num hfind).2, rfl, rfl, rfl, rfl,
        doCall_invoked hdo⟩
  · simp only [wsubusEvCheckCb] at h
    split at h
    · split at h
      · cases h
      · cases h
        exact .inl (by simpa using hmem)
    · cases h
      exact .inl (by simpa using hmem)

theorem State.Tracks.waiting {s : State} (ht : s.Tracks) {w : Wsi} {c : ClientSession}
    {k : AccessCheck} {ctx : PercallCtx} (hc : s.clients w = some c) (hk : k ∈ c.accessCheckQ)
    (hctx : k.ctx = .call ctx.num) (hcall : .call ctx ∈ c.rpcCallQ) :
    s.Waiting w ctx.num ctx.callArgs := by
  obtain ⟨stage, hat⟩ := ht ctx.num
  obtain ⟨blob, args, last, rfl, -⟩ := (hat.queues w c hc).checks k hk hctx
  obtain ⟨_, _, -, -, -, -, ⟨hinv, -⟩ | ⟨-, heq⟩⟩ := (hat.queues w c hc).calls ctx hcall rfl
  · exact ⟨c, ctx, hc, hcall, hinv, rfl, rfl⟩
  · cases heq

/-- What is invoked was waiting, and gets the tag of the invoke. -/
theorem step_invoke {cfg : Config} {s s' : State} {e : Event} (ht : s.Tracks)
    (h : step cfg s e = .ok s') {m : ℕ} {sid object method : CString} {params : List Attr}
    (hmem : .invoke m sid object method params ∈ s'.log) :
    .invoke m sid object method params ∈ s.log ∨
      ∃ w args, s.Waiting w m args ∧ sid = args.sid ∧ object = args.object ∧
        method = args.method ∧ params = listenTagged (cfg.vhost w) args := by
  obtain ⟨t, hhandle, rfl⟩ := step_ok h
  rcases handle_cases hhandle with ⟨w, c, k, status, allow, a, hc, hk, hdone⟩ | hquiet
  · refine (completeCheck_invoke hdone hmem).imp_right ?_
    rintro ⟨ctx, hctx, hcall, rfl, h₁, h₂, h₃, h₄⟩
    exact ⟨w, ctx.callArgs, ht.waiting hc hk hctx hcall, h₁, h₂, h₃, h₄⟩
  · rw [← invoke_mem_invocations] at hmem ⊢
    exact .inl (hquiet ▸ hmem)

section

variable {cfg : Config} {s t : State} {w w' : Wsi} {c c' : ClientSession} {m : ℕ}
  {args : UbusrpcBlobCall}

theorem State.Waiting.update (h : t.Waiting w' m args)
    (hclients : t.clients = Function.update s.clients w (some c')) :
    s.Waiting w' m args ∨
      (w' = w ∧ ∃ ctx, .call ctx ∈ c'.rpcCallQ ∧ ctx.invokeReq = false ∧ ctx.num = m ∧
        ctx.callArgs = args) := by
  obtain ⟨d, ctx, hd, hctx, hinv, hnum, hargs⟩ := h
  rw [hclients] at hd
  by_cases hw : w' = w
  · subst hw
    obtain rfl : c' = d := by simpa using hd
    exact .inr ⟨rfl, ctx, hctx, hinv, hnum, hargs⟩
  · rw [Function.update_of_ne hw] at hd
    exact .inl ⟨d, ctx, hd, hctx, hinv, hnum, hargs⟩

/-- The calls that wait in the new queue were waiting in the old one. -/
theorem State.Waiting.of_queue (h : t.Waiting w' m args)
    (hc : s.clients w = some c) (hclients : t.clients = Function.update s.clients w (some c'))
    (hcalls : ∀ ctx', .call ctx' ∈ c'.rpcCallQ → ctx'.invokeReq = false →
      ∃ ctx, .call ctx ∈ c.rpcCallQ ∧ ctx.invokeReq = false ∧ ctx.num = ctx'.num ∧
        ctx.callArgs = ctx'.callArgs) :
    s.Waiting w' m args := by
  rcases h.update hclients with h | ⟨rfl, ctx', hctx', hinv', rfl, rfl⟩
  · exact h
  · obtain ⟨ctx, hctx, hinv, hnum, hargs⟩ := hcalls ctx' hctx' hinv'
    exact ⟨c, ctx, hc, hctx, hinv, hnum, hargs⟩

theorem State.Waiting.of_subset (h : t.Waiting w' m args)
    (hc : s.clients w = some c) (hclients : t.clients = Function.update s.clients w (some c'))
    (hcalls : ∀ ctx, .call ctx ∈ c'.rpcCallQ → .call ctx ∈ c.rpcCallQ) :
    s.Waiting w' m args :=
  h.of_queue hc hclients fun ctx hctx hinv => ⟨ctx, hcalls ctx hctx, hinv, rfl, rfl⟩

/-- The event is a message with a call, whose check left the arguments `args`
behind. -/
def StartedBy (cfg : Config) (m : ℕ) (e : Event) (w : Wsi) (args : UbusrpcBlobCall) : Prop :=
  ∃ blob now a A k q, e = .message w blob now a ∧
    parseRequest a.scalarAttrs blob = some (.ok (.call A)) ∧
    wsubusCallDoCheckThenDoCall cfg w a.check m A = .ok (some (args, k, q))

theorem callMessage_waiting {blob : List Attr} {now : Timespec} {a : MessageAnswers}
    {A : UbusrpcBlobCall} (hc : s.clients w = some c)
    (hreq : parseRequest a.scalarAttrs blob = some (.ok (.call A)))
    (h : wsuOnMsgFromClient cfg s w c blob now a = .ok t) (hw : t.Waiting w' m args) :
    s.Waiting w' m args ∨ (m = s.steps ∧ StartedBy cfg m (.message w blob now a) w' args) := by
  simp only [wsuOnMsgFromClient, hreq, handleRequest, handleCallUbus] at h
  split at h
  · cases h
    exact .inl hw
  · split at h
    · cases h
    · next s₁ c₁ hhandle =>
      cases h
      split at hhandle
      · cases hhandle
      · cases hhandle
        exact .inl (hw.of_subset hc rfl fun ctx hctx => hctx)
      · next callArgs k q hcheck =>
        cases hhandle
        rcases hw.update rfl with hw | ⟨rfl, ctx, hctx, hinv, rfl, rfl⟩
        · exact .inl hw
        · rcases List.mem_append.mp hctx with hold | hnew
          · exact .inl ⟨c, ctx, hc, hold, hinv, rfl, rfl⟩
          · cases List.mem_singleton.mp hnew
            exact .inr ⟨rfl, blob, now, a, A, k, q, rfl, hreq, hcheck⟩

theorem message_waiting {blob : List Attr} {now : Timespec} {a : MessageAnswers}
    (hc : s.clients w = some c) (h : wsuOnMsgFromClient cfg s w c blob now a = .ok t)
    (hw : t.Waiting w' m args) :
    s.Waiting w' m args ∨ (m = s.steps ∧ StartedBy cfg m (.message w blob now a) w' args) := by
  have heff := onMsg_effect hc h
  cases heff with
  | unheard _ => exact .inl hw
  | answered hs _ =>
      exact .inl (hw.of_subset hc rfl fun ctx hctx => by simpa [hs.rpcCallQ] using hctx)
  | subscribed _ _ hs =>
      exact .inl (hw.of_subset hc rfl fun ctx hctx => by simpa [hs.rpcCallQ] using hctx)
  | unsubscribed _ _ _ hs _ =>
      exact .inl (hw.of_subset hc rfl fun ctx hctx => by simpa [hs.rpcCallQ] using hctx)
  | callFailed hreq _ => exact callMessage_waiting hc hreq h hw
  | callStarted hreq => exact callMessage_waiting hc hreq h hw

theorem calls_updateCall {num : ℕ} {f : PercallCtx → PercallCtx}
    (hf : ∀ ctx, (f ctx).invokeReq = false → ctx.invokeReq = false ∧
      ctx.num = (f ctx).num ∧ ctx.callArgs = (f ctx).callArgs) :
    ∀ ctx', .call ctx' ∈ (c.updateCall num f).rpcCallQ → ctx'.invokeReq = false →
      ∃ ctx, .call ctx ∈ c.rpcCallQ ∧ ctx.invokeReq = false ∧ ctx.num = ctx'.num ∧
        ctx.callArgs = ctx'.callArgs := by
  intro ctx' hctx' hinv
  obtain ⟨ctx, hctx, rfl⟩ := ClientSession.call_mem_updateCall.mp hctx'
  split at hinv
  · next heq =>
    rw [if_pos heq]
    exact ⟨ctx, hctx, hf ctx hinv⟩
  · next hne =>
    rw [if_neg hne]
    exact ⟨ctx, hctx, hinv, rfl, rfl⟩

/-- Calls are queued by the messages that ask for them, and wait there with
what the check left of their arguments. -/
theorem handle_waiting {e : Event} (h : handle cfg s e = .ok t) (hw : t.Waiting w' m args) :
    s.Waiting w' m args ∨ (m = s.steps ∧ StartedBy cfg m e w' args) := by
  have heff := handle_effect h
  cases heff with
  | idle => exact .inl hw
  | opened _ =>
      rcases hw.update rfl with hw | ⟨-, ctx, hctx, -⟩
      · exact .inl hw
      · cases hctx
  | message hc _ =>
      rcases withClient_ok h with rfl | ⟨c₁, hc₁, h⟩
      · exact .inl hw
      · exact message_waiting hc₁ h hw
  | callData hc _ _ _ => exact .inl (hw.of_subset hc rfl fun ctx hctx => hctx)
  | eventData hc _ _ => exact .inl (hw.of_subset hc rfl fun ctx hctx => hctx)
  | callInvoked hc _ _ _ _ _ _ =>
      left
      apply hw.of_queue hc rfl
      -- The call that is invoked no longer waits.
      apply calls_updateCall
      intro ctx hinv
      cases hinv
  | callRefused hc _ _ _ =>
      left
      apply hw.of_subset hc rfl
      intro ctx hctx
      exact (ClientSession.call_mem_unlinkCall.mp hctx).1
  | callLost _ hc _ _ _ _ _ _ _ =>
      left
      apply hw.of_subset hc rfl
      intro ctx hctx
      exact (ClientSession.call_mem_unlinkCall.mp hctx).1
  | eventDelivered hc _ _ _ => exact .inl (hw.of_subset hc rfl fun ctx hctx => hctx)
  | eventDropped hc _ _ => exact .inl (hw.of_subset hc rfl fun ctx hctx => hctx)
  | @retdata _ _ _ msg hc =>
      left
      apply hw.of_queue hc rfl
      apply calls_updateCall
      intro ctx hinv
      obtain ⟨h₁, -, h₃, h₄⟩ := wsubusCallOnRetdata_frame msg ctx
      exact ⟨h₄ ▸ hinv, h₁.symm, h₃.symm⟩
  | invokeCompleted hc _ _ =>
      left
      apply hw.of_subset hc rfl
      intro ctx hctx
      exact (ClientSession.call_mem_unlinkCall.mp hctx).1
  | eventStarted _ hc => exact .inl (hw.of_subset hc rfl fun ctx hctx => hctx)
  | eventFailed => exact .inl hw
  | swept hc => exact .inl (hw.of_subset hc rfl fun ctx hctx => (List.mem_filter.mp hctx).1)
  | @closed w _ _ hc hd =>
      obtain rfl := wsuPeerDeinit_ok hd
      obtain ⟨d, ctx, hd, hrest⟩ := hw
      by_cases hww : w' = w
      · subst hww
        simp at hd
      · refine .inl ⟨d, ctx, ?_, hrest⟩
        simpa [hww] using hd

theorem step_waiting {s' : State} {e : Event} (h : step cfg s e = .ok s')
    (hw : s'.Waiting w m args) :
    s.Waiting w m args ∨ (m = s.steps ∧ StartedBy cfg m e w args) := by
  obtain ⟨t, hhandle, rfl⟩ := step_ok h
  exact handle_waiting hhandle hw

end

/-! ### Runs -/

/-- The event `m` is a message with a call, whose check left the arguments
`args` behind. -/
def CallOrigin (cfg : Config) (es : List Event) (w : Wsi) (m : ℕ) (args : UbusrpcBlobCall) :
    Prop :=
  ∃ e, es[m]? = some e ∧ StartedBy cfg m e w args

/-- What waits, and what was invoked, goes back to an event of the run. -/
structure Traced (cfg : Config) (es : List Event) (s : State) : Prop where
  steps : s.steps = es.length
  waiting : ∀ w m args, s.Waiting w m args → CallOrigin cfg es w m args
  invokes : ∀ m sid object method params, .invoke m sid object method params ∈ s.log →
    ∃ w args, CallOrigin cfg es w m args ∧ sid = args.sid ∧ object = args.object ∧
      method = args.method ∧ params = listenTagged (cfg.vhost w) args

section

variable {cfg : Config} {n : ℕ} {es : List Event} {s : State}

theorem CallOrigin.concat {w : Wsi} {m : ℕ} {args : UbusrpcBlobCall}
    (h : CallOrigin cfg es w m args) (e : Event) : CallOrigin cfg (es ++ [e]) w m args := by
  obtain ⟨e', he', hstart⟩ := h
  obtain ⟨hlt, -⟩ := List.getElem?_eq_some_iff.mp he'
  exact ⟨e', by rw [List.getElem?_append_left hlt, he'], hstart⟩

theorem traced_step {s' : State} {e : Event} (ht : s.Tracks) (hi : Traced cfg es s)
    (h : step cfg s e = .ok s') : Traced cfg (es ++ [e]) s' := by
  refine ⟨?_, ?_, ?_⟩
  · obtain ⟨t, -, rfl⟩ := step_effect h
    simp [hi.steps]
  · intro w m args hw
    rcases step_waiting h hw with hw | ⟨rfl, hstart⟩
    · exact (hi.waiting w m args hw).concat e
    · exact ⟨e, by rw [hi.steps, List.getElem?_concat_length], hstart⟩
  · intro m sid object method params hmem
    rcases step_invoke ht h hmem with hmem | ⟨w, args, hw, heqs⟩
    · obtain ⟨w, args, horigin, heqs⟩ := hi.invokes m sid object method params hmem
      exact ⟨w, args, horigin.concat e, heqs⟩
    · exact ⟨w, args, (hi.waiting w m args hw).concat e, heqs⟩

theorem traced_run (hrun : run (step cfg) (init n) es = .ok s) : Traced cfg es s := by
  refine run_history (Traced cfg) ⟨rfl, ?_, ?_⟩ ?_ hrun
  · rintro w m args ⟨c, ctx, hc, -⟩
    cases hc
  · intro m sid object method params hmem
    cases hmem
  · exact fun es s e s' hpast hi h => traced_step (tracks_of_run hpast) hi h

theorem invokesAsked_run (hrun : run (step cfg) (init n) es = .ok s) :
    s.InvokesAsked cfg es withoutListen := by
  intro m sid object method params hmem
  obtain ⟨w, args, ⟨e, he, hstart⟩, hsid, hobject, hmethod, hparams⟩ :=
    (traced_run hrun).invokes m sid object method params hmem
  obtain ⟨blob, now, a, A, k, q, rfl, hreq, hcheck⟩ := hstart
  obtain ⟨r, hr, hstarted, rfl⟩ := doCheckThenDoCall_checked hcheck
  have hlisten := parseRequest_noListen hreq
  refine ⟨w, a, A, r, ⟨blob, now, he, hreq, hr⟩, hsid, hobject, hmethod, ?_⟩
  rw [hparams, withoutListen_listenTagged (started_noListen hlisten hr hstarted)]
  exact tagged_of_started hlisten hr hstarted

/-- The check of a call that brings its own session id does not start. -/
theorem doCheckThenDoCall_spoofed {w : Wsi} {m : ℕ} (a : CheckAnswers) {A : UbusrpcBlobCall}
    (hleft : LeftToRpcd cfg w a m A)
    (h : ∃ cur ∈ A.paramsBuf, cur.1 = .ofString "ubus_rpc_session") :
    wsubusCallDoCheckThenDoCall cfg w a m A = .ok none := by
  obtain ⟨r, hr, hfailed⟩ := accessCheckCall_spoofed a hleft h
  simp only [wsubusCallDoCheckThenDoCall, hr, hfailed]
  split
  · rfl
  · rfl

theorem step_callFailed {t : State} {w : Wsi} {c : ClientSession} {blob : List Attr}
    {now : Timespec} {a : MessageAnswers} {A : UbusrpcBlobCall} (hc : s.clients w = some c)
    (hq : c.rpcQLen.toNat ≤ s.reqMax)
    (hreq : parseRequest a.scalarAttrs blob = some (.ok (.call A)))
    (hnone : wsubusCallDoCheckThenDoCall cfg w a.check s.steps A = .ok none)
    (h : step cfg s (.message w blob now a) = .ok t) :
    .checkFail s.steps ∈ t.log ∧
      .reply w s.steps (permissionDenied (jsonrpcId blob)) ∈ t.log := by
  have hnone' : wsubusCallDoCheckThenDoCall cfg w a.check
      (s.emit [.received w s.steps blob]).steps A = .ok none := hnone
  rw [step_handled cfg now a hc hq hreq] at h
  simp only [handleRequest, handleCallUbus, hnone'] at h
  cases h
  exact ⟨.tail _ (.tail _ (.head _)), .head _⟩

theorem refusesSpoofed_run (hrun : run (step cfg) (init n) es = .ok s) :
    s.RefusesSpoofed cfg n es := by
  intro pre post w blob now a t c A hes hpre hc hq hreq hleft hspoofed
  rw [← (traced_run hpre).steps] at hleft ⊢
  have hdenied := deniedAnswered_run hrun t.steps
  rw [hes, run_append hpre] at hrun
  obtain ⟨u, hu, hrest⟩ := run_cons_ok hrun
  obtain ⟨hfail, hreply⟩ :=
    step_callFailed hc hq hreq (doCheckThenDoCall_spoofed a.check hleft hspoofed) hu
  have hlater : u.log ⊆ s.log := (log_run hrest).subset
  obtain ⟨hno, w₀, blob₀, -, honce⟩ := hdenied (.inl (hlater hfail))
  refine ⟨hno, ?_⟩
  -- The one reply there is must be the one of this step.
  have hmem : .reply w t.steps (permissionDenied (jsonrpcId blob)) ∈
      s.log.filter (Life.answers t.steps) :=
    List.mem_filter.mpr ⟨hlater hreply, by simp [Life.answers]⟩
  rw [honce] at hmem ⊢
  rw [List.mem_singleton.mp hmem]

/-- What is invoked is what was asked, and owsd's own tags. In every run, the
arguments of an invocation are the members the client sent, in order, then its
session id if the check was put to rpcd, then the name of the interface if the
session is the default one; rpcd was asked about the same object, the same
method and the arguments without the last tag. A call that brings its own
session id is not put to rpcd but refused. -/
theorem asAsked_run (hrun : run (step cfg) (init n) es = .ok s) :
    s.InvokesAsked cfg es withoutListen ∧ s.RefusesSpoofed cfg n es :=
  ⟨invokesAsked_run hrun, refusesSpoofed_run hrun⟩

end

def defaultSessionRun : List Event :=
  [.established 0,
    sends (requestMessage (.ofString "call") [.string ubusDefaultSid, .string (.ofString "user"),
      .string (.ofString "list"), .table [(.ofString "all", .int8 1)]]),
    .checkData 0 1 [(.ofString "access", .int8 1)],
    .checkComplete 0 1 0 willingInvoke]

theorem asAsked_run_defaultSession :
    ∃ s, run (step plainConfig) (init 512) defaultSessionRun = .ok s ∧
      .invoke 1 ubusDefaultSid (.ofString "user") (.ofString "list")
        [(.ofString "all", .int8 1), sessionTag ubusDefaultSid, listenTag (plainConfig.vhost 0)] ∈
        s.log ∧
      s.InvokesAsked plainConfig defaultSessionRun withoutListen ∧
      s.RefusesSpoofed plainConfig 512 defaultSessionRun :=
  ⟨_, rfl, .head _, asAsked_run
    (rfl : run (step plainConfig) (init 512) defaultSessionRun = .ok _)⟩

/-- rpcd was not asked about the arguments as they were invoked. -/
theorem defaultSession_told_less :
    ∃ s, run (step plainConfig) (init 512) defaultSessionRun = .ok s ∧
      ¬s.InvokesAsked plainConfig defaultSessionRun id := by
  refine ⟨_, rfl, fun h => ?_⟩
  obtain ⟨w, a, A, r, ⟨blob, now, hev, hreq, hr⟩, -, -, -, htag⟩ :=
    h 1 ubusDefaultSid (.ofString "user") (.ofString "list")
      [(.ofString "all", .int8 1), sessionTag ubusDefaultSid, listenTag (plainConfig.vhost 0)]
      (.head _)
  cases hev
  cases hreq
  cases hr
  have hasked := htag.asked _ rfl
  cases hasked

end Owsd.Server
