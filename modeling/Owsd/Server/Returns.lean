import Owsd.Server.Counters
import Owsd.Server.Invocations

/-!
What the bus returns to an invocation.

The parts of the returned data come one by one and are collected in the
context of the call until its invocation completes. Over a run, what a context
holds is exactly the parts returned to this call since it was invoked
(`collected_run`); what comes for a call that is not invoked, or is gone, is
lost.
-/

namespace Owsd.Server

open Rpc

/-- The part of the returned data that an event brings to the call `m` of the
client on `w`. -/
def partOf (w : Wsi) (m : ℕ) : Event → Option Blob
  | .invokeData w' m' msg => if w' = w ∧ m' = m then msg else none
  | _ => none

/-- The parts that events bring to the call `m` of the client on `w`. -/
def returned (w : Wsi) (m : ℕ) (es : List Event) : List Blob := es.filterMap (partOf w m)

theorem returned_concat (w : Wsi) (m : ℕ) (es : List Event) (e : Event) :
    returned w m (es ++ [e]) = returned w m es ++ (partOf w m e).toList := by
  rw [returned, List.filterMap_append, ← returned]
  cases h : partOf w m e <;> simp [h]

/-- What the context of a call collects in one step: the part that the event
brings, if the call was invoked. -/
def PercallCtx.collects (ctx : PercallCtx) (w : Wsi) (e : Event) : List Attr :=
  if ctx.invokeReq then (partOf w ctx.num e).toList.map fun b => ([], b) else []

/-- Where a call in the queue of the client on `w` comes from. -/
inductive CallStep (s : State) (e : Event) (log : List Action) (w : Wsi) (ctx' : PercallCtx) :
    Prop
  | started : ctx'.invokeReq = false → ctx'.retbuf = [] → CallStep s e log w ctx'
  | kept {c : ClientSession} {ctx : PercallCtx} : s.clients w = some c →
      .call ctx ∈ c.rpcCallQ → ctx'.num = ctx.num → ctx'.callArgs = ctx.callArgs →
      ctx'.invokeReq = ctx.invokeReq → ctx'.retbuf = ctx.retbuf ++ ctx.collects w e →
      CallStep s e log w ctx'
  | invoked {c : ClientSession} {ctx : PercallCtx} (params : List Attr) :
      s.clients w = some c → .call ctx ∈ c.rpcCallQ → ctx.invokeReq = false →
      ctx'.num = ctx.num → ctx'.invokeReq = true → ctx'.retbuf = ctx.retbuf →
      .invoke ctx'.num ctx'.callArgs.sid ctx'.callArgs.object ctx'.callArgs.method params ∈ log →
      CallStep s e log w ctx'

section

variable {cfg : Config} {s t : State} {e : Event} {w w' : Wsi} {c c' : ClientSession}
  {ctx ctx' : PercallCtx} {log : List Action}

def Event.Mute (e : Event) : Prop := ∀ w m, partOf w m e = none

theorem Event.Mute.collects (he : e.Mute) : ctx.collects w e = [] := by
  rw [PercallCtx.collects, he]
  split <;> rfl

theorem CallStep.same (he : e.Mute) (hc : s.clients w = some c)
    (hctx : .call ctx ∈ c.rpcCallQ) : CallStep s e log w ctx :=
  .kept hc hctx rfl rfl rfl (by rw [he.collects, List.append_nil])

theorem CallStep.update (he : e.Mute)
    (hclients : t.clients = Function.update s.clients w (some c'))
    (hnew : ∀ ctx, .call ctx ∈ c'.rpcCallQ → CallStep s e t.log w ctx)
    {d : ClientSession} (hd : t.clients w' = some d) (hctx : .call ctx ∈ d.rpcCallQ) :
    CallStep s e t.log w' ctx := by
  rw [hclients] at hd
  by_cases hw : w' = w
  · subst hw
    obtain rfl : c' = d := by simpa using hd
    exact hnew ctx hctx
  · rw [Function.update_of_ne hw] at hd
    exact .same he hd hctx

theorem CallStep.of_subset (he : e.Mute) (hc : s.clients w = some c)
    (hclients : t.clients = Function.update s.clients w (some c'))
    (hcalls : ∀ ctx, .call ctx ∈ c'.rpcCallQ → .call ctx ∈ c.rpcCallQ)
    {d : ClientSession} (hd : t.clients w' = some d) (hctx : .call ctx ∈ d.rpcCallQ) :
    CallStep s e t.log w' ctx :=
  .update he hclients (fun ctx hctx => .same he hc (hcalls ctx hctx)) hd hctx

theorem message_callStep {x : ScalarAttrs} {blob : List Attr} (he : e.Mute)
    (hc : s.clients w = some c) (h : MessageEffect s w c x blob t) {d : ClientSession}
    (hd : t.clients w' = some d) (hctx : .call ctx ∈ d.rpcCallQ) : CallStep s e t.log w' ctx := by
  cases h with
  | unheard _ => exact .same he hd hctx
  | answered hs _ =>
      exact .of_subset he hc rfl (fun ctx hctx => by simpa [hs.rpcCallQ] using hctx) hd hctx
  | subscribed _ _ hs =>
      exact .of_subset he hc rfl (fun ctx hctx => by simpa using hctx) hd hctx
  | unsubscribed _ _ _ hs _ =>
      exact .of_subset he hc rfl (fun ctx hctx => by simpa [hs.rpcCallQ] using hctx) hd hctx
  | callFailed _ hs =>
      exact .of_subset he hc rfl (fun ctx hctx => by simpa [hs.rpcCallQ] using hctx) hd hctx
  | callStarted _ _ hq _ _ _ hfresh =>
      refine .update he rfl (fun ctx hctx => ?_) hd hctx
      rw [hq] at hctx
      rcases List.mem_append.mp hctx with hold | hnew
      · exact .same he hc hold
      · cases List.mem_singleton.mp hnew
        exact .started hfresh.1 hfresh.2

theorem State.Tracks.not_invoked (ht : s.Tracks) {k : AccessCheck} (hc : s.clients w = some c)
    (hk : k ∈ c.accessCheckQ) (hkctx : k.ctx = .call ctx.num) (hctx : .call ctx ∈ c.rpcCallQ) :
    ctx.invokeReq = false := by
  obtain ⟨stage, hat⟩ := ht ctx.num
  obtain ⟨blob, args, last, rfl, -⟩ := (hat.queues w c hc).checks k hk hkctx
  obtain ⟨_, _, -, -, -, -, ⟨hinv, -⟩ | ⟨-, heq⟩⟩ := (hat.queues w c hc).calls ctx hctx rfl
  · exact hinv
  · cases heq

theorem State.Tracks.no_invoke (ht : s.Tracks) (hc : s.clients w = some c)
    (hctx : .call ctx ∈ c.rpcCallQ) (hinv : ctx.invokeReq = false) {sid object method : CString}
    {params : List Attr} : .invoke ctx.num sid object method params ∉ s.log := by
  intro hmem
  obtain ⟨stage, hat⟩ := ht ctx.num
  have hmem' : .invoke ctx.num sid object method params ∈ history ctx.num s.log :=
    mem_history.mpr ⟨hmem, rfl⟩
  obtain ⟨_, _, -, -, -, -, ⟨-, last, rfl⟩ | ⟨htrue, -⟩⟩ := (hat.queues w c hc).calls ctx hctx rfl
  · obtain ⟨-, data, hshape, -⟩ := hat.life.waiting_shape
    rw [hshape] at hmem'
    rcases Life.mem_waitingHistory hmem' with ⟨d, heq⟩ | heq | heq
    all_goals cases heq
  · rw [hinv] at htrue
    cases htrue

theorem mute_callStep (he : e.Mute) (ht : s.Tracks) (hi : s.Counted) (h : Effect s e t)
    {d : ClientSession} (hd : t.clients w' = some d) (hctx : .call ctx' ∈ d.rpcCallQ) :
    CallStep s e t.log w' ctx' := by
  have hunlink : ∀ {w : Wsi} {c c' : ClientSession} {n : ℕ}, s.clients w = some c →
      t.clients = Function.update s.clients w (some c') →
      c'.rpcCallQ = (c.unlinkCall n).rpcCallQ → CallStep s e t.log w' ctx' := by
    intro w c c' n hc hclients hcalls
    refine .of_subset he hc hclients (fun ctx hctx => ?_) hd hctx
    rw [hcalls] at hctx
    exact (ClientSession.call_mem_unlinkCall.mp hctx).1
  cases h with
  | idle => exact .same he hd hctx
  | opened _ => exact .update he rfl (fun ctx hctx => by cases hctx) hd hctx
  | message hc hm => exact message_callStep he hc hm hd hctx
  | callData hc _ _ _ => exact .of_subset he hc rfl (fun _ hctx => hctx) hd hctx
  | eventData hc _ _ => exact .of_subset he hc rfl (fun _ hctx => hctx) hd hctx
  | @callInvoked w c k ctx status params e hc hk hkctx hfind _ _ _ =>
      refine .update he rfl (fun ctx' hctx' => ?_) hd hctx
      obtain ⟨ctx₀, hctx₀, rfl⟩ := ClientSession.call_mem_updateCall.mp hctx'
      split
      · next hnum =>
        obtain rfl := (hi w c hc).call_inj hctx₀ (ClientSession.findCall_num hfind).2 hnum
        exact .invoked params hc hctx₀ (ht.not_invoked hc hk hkctx hctx₀) rfl rfl rfl
          (.head _)
      · exact .same he hc hctx₀
  | callRefused hc _ _ _ => exact hunlink hc rfl rfl
  | callLost _ hc _ _ _ _ _ _ _ => exact hunlink hc rfl rfl
  | eventDelivered hc _ _ _ => exact .of_subset he hc rfl (fun _ hctx => hctx) hd hctx
  | eventDropped hc _ _ => exact .of_subset he hc rfl (fun _ hctx => hctx) hd hctx
  | @retdata w c num msg hc =>
      cases msg with
      | none => exact .of_subset he hc rfl (fun ctx hctx => by
          obtain ⟨ctx₀, hctx₀, rfl⟩ := ClientSession.call_mem_updateCall.mp hctx
          split <;> exact hctx₀) hd hctx
      | some msg => exact absurd (he w num) (by simp [partOf])
  | invokeCompleted hc _ _ => exact hunlink hc rfl rfl
  | eventStarted _ hc => exact .of_subset he hc rfl (fun _ hctx => hctx) hd hctx
  | eventFailed => exact .same he hd hctx
  | swept hc => exact .of_subset he hc rfl (fun _ hctx => (List.mem_filter.mp hctx).1) hd hctx
  | @closed w _ _ hc hcl =>
      obtain rfl := wsuPeerDeinit_ok hcl
      by_cases hw : w' = w
      · subst hw
        simp at hd
      · exact .same he (by simpa [hw] using hd) hctx

theorem collects_other {n : ℕ} {msg : Option Blob} (h : ¬(w = w' ∧ n = ctx.num)) :
    ctx.collects w' (.invokeData w n msg) = [] := by
  rw [PercallCtx.collects, partOf, if_neg h]
  split <;> rfl

theorem CallStep.other {n : ℕ} {msg : Option Blob} (hc : s.clients w' = some c)
    (hctx : .call ctx ∈ c.rpcCallQ) (h : ¬(w = w' ∧ n = ctx.num)) :
    CallStep s (.invokeData w n msg) log w' ctx :=
  .kept hc hctx rfl rfl rfl (by rw [collects_other h, List.append_nil])

/-- The call that a part of the returned data is for collects it. -/
theorem retbuf_retdata {msg : Option Blob} (hinv : ctx.invokeReq = true) :
    (wsubusCallOnRetdata msg ctx).retbuf =
      ctx.retbuf ++ ctx.collects w (.invokeData w ctx.num msg) := by
  rw [PercallCtx.collects, if_pos hinv, partOf, if_pos ⟨rfl, rfl⟩]
  cases msg with
  | none => simp [wsubusCallOnRetdata]
  | some msg => rfl

/-- A part of the returned data goes to the call it is for, if that was
invoked. -/
theorem returned_callStep {n : ℕ} {msg : Option Blob} (hi : s.Counted)
    (h : handle cfg s (.invokeData w n msg) = .ok t) {d : ClientSession}
    (hd : t.clients w' = some d) (hctx : .call ctx' ∈ d.rpcCallQ) :
    CallStep s (.invokeData w n msg) t.log w' ctx' := by
  rcases withInvoked_cases h with ⟨rfl, hno⟩ | ⟨c, ctx, hc, hfind, hinv, h⟩
  · by_cases hfor : w = w' ∧ n = ctx'.num
    · obtain ⟨rfl, rfl⟩ := hfor
      obtain ⟨ctx, hfind⟩ := Option.isSome_iff_exists.mp
        (ClientSession.findCall_isSome_iff.mpr ⟨ctx', hctx, rfl⟩)
      obtain ⟨hnum, hmem⟩ := ClientSession.findCall_num hfind
      obtain rfl := (hi _ d hd).call_inj hmem hctx hnum
      refine .kept hd hctx rfl rfl rfl ?_
      rw [PercallCtx.collects, hno d ctx hd hfind]
      exact (List.append_nil _).symm
    · exact .other hd hctx hfor
  · cases h
    obtain ⟨hnum, hmem⟩ := ClientSession.findCall_num hfind
    have hd' : Function.update s.clients w
        (some (c.updateCall n (wsubusCallOnRetdata msg))) w' = some d := hd
    by_cases hw : w' = w
    · subst hw
      obtain rfl : c.updateCall n (wsubusCallOnRetdata msg) = d := by simpa using hd'
      obtain ⟨ctx₀, hctx₀, rfl⟩ := ClientSession.call_mem_updateCall.mp hctx
      split
      · next heq =>
        obtain rfl := (hi _ c hc).call_inj hctx₀ hmem (heq.trans hnum.symm)
        obtain ⟨h₁, -, h₃, h₄⟩ := wsubusCallOnRetdata_frame msg ctx₀
        subst heq
        exact .kept hc hctx₀ h₁ h₃ h₄ (retbuf_retdata hinv)
      · next hne => exact .other hc hctx₀ fun hfor => hne hfor.2.symm
    · rw [Function.update_of_ne hw] at hd'
      exact .other hd' hctx fun hfor => hw hfor.1.symm

theorem handle_callStep (ht : s.Tracks) (hi : s.Counted) (h : handle cfg s e = .ok t)
    {d : ClientSession} (hd : t.clients w' = some d) (hctx : .call ctx' ∈ d.rpcCallQ) :
    CallStep s e t.log w' ctx' := by
  cases e with
  | invokeData w n msg => exact returned_callStep hi h hd hctx
  | _ => exact mute_callStep (fun _ _ => rfl) ht hi (handle_effect h) hd hctx

/-! ### Runs -/

/-- A call that was not invoked holds nothing; a call that was invoked holds
the parts that were returned to it since. -/
def State.Collected (cfg : Config) (n : ℕ) (es : List Event) (s : State) : Prop :=
  ∀ w c ctx, s.clients w = some c → .call ctx ∈ c.rpcCallQ →
    (ctx.invokeReq = false → ctx.retbuf = []) ∧
    (ctx.invokeReq = true → ∃ past e mid params, es = past ++ e :: mid ∧
      Adds (step cfg) State.log (init n) past e (.invoke ctx.num ctx.callArgs.sid
        ctx.callArgs.object ctx.callArgs.method params) ∧
      ctx.retbuf = (returned w ctx.num mid).map fun b => ([], b))

theorem collected_step {n : ℕ} {es : List Event} {s' : State}
    (hpast : run (step cfg) (init n) es = .ok s) (hi : s.Collected cfg n es)
    (h : step cfg s e = .ok s') : s'.Collected cfg n (es ++ [e]) := by
  have ht := tracks_of_run hpast
  obtain ⟨t, hhandle, rfl⟩ := step_ok h
  intro w d ctx' hd hctx'
  cases handle_callStep ht (counted_run hpast).2 hhandle hd hctx' with
  | started hinv hempty =>
      exact ⟨fun _ => hempty, fun htrue => absurd htrue (by simp [hinv])⟩
  | @kept c ctx hc hctx hnum hargs hinv hbuf =>
      obtain ⟨hwaiting, hinvoked⟩ := hi w c ctx hc hctx
      rw [hinv, hnum, hargs, hbuf]
      constructor
      · intro hfalse
        rw [hwaiting hfalse, PercallCtx.collects, hfalse]
        rfl
      · intro htrue
        obtain ⟨past, e', mid, params, rfl, hadds, hmid⟩ := hinvoked htrue
        refine ⟨past, e', mid ++ [e], params, by simp, hadds, ?_⟩
        rw [hmid, PercallCtx.collects, if_pos htrue, returned_concat, List.map_append]
  | @invoked c ctx params hc hctx hold hnum hinv hbuf hmem =>
      refine ⟨fun hfalse => absurd hfalse (by simp [hinv]), fun _ => ?_⟩
      refine ⟨es, e, [], params, rfl, ⟨s, _, hpast, h, ?_, hmem⟩, ?_⟩
      · rw [hnum]
        exact ht.no_invoke hc hctx hold
      · rw [hbuf, (hi w c ctx hc hctx).1 hold]
        rfl

theorem collected_run {n : ℕ} {es : List Event} (hrun : run (step cfg) (init n) es = .ok s) :
    s.Collected cfg n es := by
  refine run_history (State.Collected cfg n) ?_ ?_ hrun
  · intro w c ctx hc
    cases hc
  · exact fun es s e s' hpast hi h => collected_step hpast hi h

end

end Owsd.Server
