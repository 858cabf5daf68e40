import Owsd.Server.Custody
import Owsd.Server.Pending
import Owsd.Server.Quota
import Owsd.Server.Subscriptions

/-!
The end of a connection.

`wsu_peer_deinit` cancels the sweeper of the client, then every check in its
one queue and every request in the other. Here the timers of the sweepers and
what else the libraries have in hand are put beside the server, and what is
left of a client after its connection was closed is said from outside: by
what is pending, by what the other clients still have, by what the log says
was destroyed, and by the count of clients.
-/

namespace Owsd.Server

open Rpc

/-! ### The event loop -/

/-- The server, the `percall_cleaner` timers that are pending, and the
requests and timers of checks and calls. -/
structure Timed where
  server : State
  cleaner : Wsi → Bool
  pending : List (Wsi × Handle)

/-- `wsu_peer_init` starts the timer of a client, `wsubus_percall_clean_stale`
starts it again, and `wsu_peer_deinit` cancels it. -/
def setCleaner (t : Timed) : Event → Wsi → Bool
  | .established w =>
      if (t.server.clients w).isNone then Function.update t.cleaner w true else t.cleaner
  | .percallCleaner w _ => Function.update t.cleaner w true
  | .closed w =>
      if (t.server.clients w).isNone then t.cleaner else Function.update t.cleaner w false
  | _ => t.cleaner

def setPending (cfg : Config) (t : Timed) (e : Event) : List (Wsi × Handle) :=
  t.pending.filter (fun p => p ∉ ends t.server e) ++ starts cfg t.server e

/-- A timer or a request that is not pending calls nothing back. -/
def Timed.sleeps (t : Timed) : Event → Bool
  | .percallCleaner w _ => !t.cleaner w
  | .checkData w check _ => (w, Handle.accessRequest check) ∉ t.pending
  | .checkComplete w check _ _ => (w, Handle.accessRequest check) ∉ t.pending
  | .deferral w check _ => (w, Handle.deferTimer check) ∉ t.pending
  | .invokeData w call _ => (w, Handle.invokeRequest call) ∉ t.pending
  | .invokeComplete w call _ => (w, Handle.invokeRequest call) ∉ t.pending
  | _ => false

def timedStep (cfg : Config) (t : Timed) (e : Event) : Except Fault Timed :=
  if t.sleeps e then .ok t
  else
    match step cfg t.server e with
    | .error f => .error f
    | .ok s => .ok ⟨s, setCleaner t e, setPending cfg t e⟩

def timedInit (totalReqMax : ℕ) : Timed := ⟨init totalReqMax, fun _ => false, []⟩

section

variable {cfg : Config} {t t' : Timed} {e : Event}

theorem timedStep_ok (h : timedStep cfg t e = .ok t') :
    t' = t ∨ t.sleeps e = false ∧ step cfg t.server e = .ok t'.server ∧
      t'.cleaner = setCleaner t e ∧ t'.pending = setPending cfg t e := by
  rw [timedStep] at h
  split at h
  · exact .inl (by simpa using h.symm)
  · next hsleeps =>
    split at h
    · cases h
    · next s hs =>
      cases h
      exact .inr ⟨by simpa using hsleeps, hs, rfl, rfl⟩

theorem isSome_step {s s' : State} (hopen : ∀ w, e ≠ .established w) (hclose : ∀ w, e ≠ .closed w)
    (h : step cfg s e = .ok s') (w : Wsi) : (s'.clients w).isSome = (s.clients w).isSome := by
  obtain ⟨u, hu, rfl⟩ := step_effect h
  rcases quota_effect hu with ⟨w', he, -, -⟩ | ⟨w', c, he, -, -⟩ | hsame
  · exact absurd he (hopen w')
  · exact absurd he (hclose w')
  · exact hsame.connected w

/-- The timer of a client is pending as long as the client is connected. -/
theorem cleaner_step {s : State} (hi : ∀ w, t.cleaner w = (t.server.clients w).isSome)
    (hsleeps : t.sleeps e = false) (h : step cfg t.server e = .ok s) (w : Wsi) :
    setCleaner t e w = (s.clients w).isSome := by
  cases e with
  | established w₀ =>
      cases hc : t.server.clients w₀ with
      | none =>
          simp only [step, handle, hc] at h
          cases h
          by_cases hw : w = w₀
          · simp [setCleaner, hc, hw, wsuPeerInit, State.setClient]
          · simp [setCleaner, hc, hw, wsuPeerInit, State.setClient, hi]
      | some c =>
          simp only [step, handle, hc] at h
          cases h
          simp [setCleaner, hc, hi]
  | closed w₀ =>
      cases hc : t.server.clients w₀ with
      | none =>
          simp only [step, handle, withClient, hc] at h
          cases h
          simp [setCleaner, hc, hi]
      | some c =>
          obtain ⟨u, hu, rfl⟩ := step_closed hc h
          by_cases hw : w = w₀
          · simp [setCleaner, hc, hw, clients_closed hu]
          · simp [setCleaner, hc, hw, hi, (turn_closed hc hu).other w hw]
  | percallCleaner w₀ now =>
      rw [isSome_step (by simp) (by simp) h, setCleaner]
      by_cases hw : w = w₀
      · have hpending : t.cleaner w₀ = true := by simpa [Timed.sleeps] using hsleeps
        rw [hw, Function.update_self, ← hi, hpending]
      · rw [Function.update_of_ne hw, hi]
  | message _ _ _ _ => exact (hi w).trans (isSome_step (by simp) (by simp) h w).symm
  | checkData _ _ _ => exact (hi w).trans (isSome_step (by simp) (by simp) h w).symm
  | checkComplete _ _ _ _ => exact (hi w).trans (isSome_step (by simp) (by simp) h w).symm
  | deferral _ _ _ => exact (hi w).trans (isSome_step (by simp) (by simp) h w).symm
  | invokeData _ _ _ => exact (hi w).trans (isSome_step (by simp) (by simp) h w).symm
  | invokeComplete _ _ _ => exact (hi w).trans (isSome_step (by simp) (by simp) h w).symm
  | busEvent _ _ _ _ => exact (hi w).trans (isSome_step (by simp) (by simp) h w).symm

end

/-! ### The invariant -/

/-- Everything that matters when a connection closes. -/
structure Timed.Orderly (t : Timed) : Prop where
  sound : t.server.Sound
  counted : t.server.Counted
  kept : t.server.Kept
  connected : t.server.Connected
  /-- An event waits for the client that sent for its subscription. -/
  events : ∀ w ev, t.server.WaitsFor w ev → ∃ blob, .received w ev.info blob ∈ t.server.log
  cleaner : ∀ w, t.cleaner w = (t.server.clients w).isSome
  /-- What is pending is what is in the queues. -/
  pending : ∀ w h, (w, h) ∈ t.pending ↔ t.server.Owns w h

/-- No tick of a sweeper hits a call whose check is pending. -/
def TimedSparesPending (t : Timed) (e : Event) : Prop := SparesPending t.server e

theorem orderly_init (n : ℕ) : (timedInit n).Orderly where
  sound := ⟨numbered_init n, fun w c hc => by cases hc⟩
  counted := counted_init n
  kept := kept_init n
  connected := (shares_init n).connected
  events := by
    rintro w ev ⟨c, hc, -⟩
    cases hc
  cleaner := fun _ => rfl
  pending := by
    intro w h
    refine iff_of_false List.not_mem_nil ?_
    rintro ⟨c, hc, -⟩
    cases hc

section

variable {cfg : Config} {t t' : Timed} {e : Event}

theorem orderly_step (hi : t.Orderly) (hg : TimedSparesPending t e)
    (h : timedStep cfg t e = .ok t') : t'.Orderly := by
  rcases timedStep_ok h with rfl | ⟨hsleeps, hstep, hcleaner, hpending⟩
  · exact hi
  · refine ⟨sound_step hi.sound hg hstep, counted_step hi.sound.1 hi.counted hstep,
      kept_step hi.sound.1 hi.kept hstep, ?_, ?_, ?_, ?_⟩
    · obtain ⟨u, hu, hserver⟩ := step_effect hstep
      have hconnected : u.Connected := connected_effect hu hi.connected
      rw [hserver]
      exact hconnected
    · intro w ev hwaits
      obtain ⟨u, hu, hserver⟩ := step_effect hstep
      obtain ⟨w₀, new, acts, hturn⟩ := turn_effect hu hi.sound.1 hi.kept
      rw [hserver] at hwaits ⊢
      have hold : ∃ blob, .received w ev.info blob ∈ t.server.log := by
        rcases waits_effect hu w ev hwaits with hwaits | ⟨_, _, _, _, -, info, hinfo, hnum, rfl⟩
        · exact hi.events w ev hwaits
        · rw [← hnum]
          exact hi.kept.told info.wsi info.num (.inr (hi.kept.listed info hinfo))
      obtain ⟨blob, hblob⟩ := hold
      refine ⟨blob, ?_⟩
      show _ ∈ u.log
      rw [hturn.log]
      exact List.mem_append_right _ hblob
    · rw [hcleaner]
      exact cleaner_step hi.cleaner hsleeps hstep
    · intro w h
      rw [hpending, setPending, owns_step hi.sound hi.counted hstep w h]
      simp [hi.pending]

theorem orderly_run {n : ℕ} {es : List Event}
    (hg : Guarded (timedStep cfg) TimedSparesPending (timedInit n) es)
    (hrun : run (timedStep cfg) (timedInit n) es = .ok t) : t.Orderly :=
  run_invariant Timed.Orderly (fun _ _ _ hi hg h => orderly_step hi hg h) (orderly_init n) hg hrun

end

/-! ### What is left of a client -/

/-- The message that what a check decides on came with: that of the call, or
that of the subscription of the event. -/
def CheckCtx.message : CheckCtx → ℕ
  | .call n => n
  | .event ev => ev.info

/-- Nothing is left of the client on `w`, which had the session `c`, and the
others have what they had. -/
structure TornDown (s s' : State) (w : Wsi) (c : ClientSession) : Prop where
  session : s'.clients w = none
  listenList : ∀ info ∈ s'.listenList, info.wsi ≠ w
  checks : ∀ w' c', s'.clients w' = some c' → ∀ k ∈ c'.accessCheckQ, ∀ blob,
    .received w k.ctx.message blob ∉ s'.log
  calls : ∀ w' c', s'.clients w' = some c' → ∀ ctx, .call ctx ∈ c'.rpcCallQ → ∀ blob,
    .received w ctx.num blob ∉ s'.log
  /-- All that was in its queues was destroyed once, and so was every call of
  its that was ever checked or invoked. -/
  destroyed : ∀ i ∈ c.items, (destroyedBy s'.log).count i = 1
  started : ∀ n blob, .received w n blob ∈ s'.log → ∀ a ∈ s'.log, a.starts = some n →
    (destroyedBy s'.log).count (.call n) = 1
  numActiveSes : s'.numActiveSes + 1 = s.numActiveSes
  connected : s'.Connected
  others : ∀ w', w' ≠ w → s'.clients w' = s.clients w'
  subscriptions : s'.listenList = s.listenList.filter fun info => info.wsi ≠ w

section

variable {s s' : State} {w : Wsi} {c : ClientSession}

/-- All checks of the client are live, so its connection closes without a
fault. -/
theorem step_closed_ok (cfg : Config) (hl : s.Linked) (hc : s.clients w = some c) :
    ∃ s', step cfg s (.closed w) = .ok s' := by
  have hlive : c.accessCheckQ.any c.dangling = false := by
    rw [List.any_eq_false]
    intro k hk
    rw [ClientSession.dangling]
    cases hctx : k.ctx with
    | call n =>
        have hsome := hl.checksLive w c hc k hk n hctx
        simp [Option.isSome_iff_ne_none.mp hsome]
    | event ev => simp
  simp only [step, handle, withClient, hc, wsuPeerDeinit, hlive, Bool.false_eq_true, if_false]
  exact ⟨_, rfl⟩

theorem tornDown_of_orderly {t : Timed} {u : State} (hk : s.Kept) (hi : s.Connected)
    (hc : s.clients w = some c) (hd : wsuPeerDeinit s w c = .ok u)
    (hserver : t.server = { u with steps := s.steps + 1 }) (ho : t.Orderly) :
    TornDown s t.server w c := by
  have hturn := turn_closed hc hd
  have hsession : t.server.clients w = none := by
    rw [hserver, ← clients_closed hd]
  have hlist : t.server.listenList = s.listenList.filter fun info => info.wsi ≠ w := by
    rw [hserver, ← listenList_closed hk hc hd]
  have hother : ∀ w' blob blob' n, .received w' n blob ∈ t.server.log →
      .received w n blob' ∈ t.server.log → t.server.clients w' = none := by
    intro w' blob blob' n h h'
    rw [ho.kept.receivedOnce w' w n blob blob' h h', hsession]
  have hcall : ∀ w' n blob, .call n ∈ t.server.live w' → .received w n blob ∉ t.server.log := by
    intro w' n blob hlive hmem
    obtain ⟨blob', hblob'⟩ := ho.kept.told w' n (.inl hlive)
    have hnone := hother w' blob' blob n hblob' hmem
    simp [State.live, hnone] at hlive
  have honce : ∀ i ∈ destroyedBy t.server.log, (destroyedBy t.server.log).count i = 1 :=
    fun i hin => List.count_eq_one_of_mem ho.kept.custody.once hin
  have hlive : ∀ w' c' n, t.server.clients w' = some c' → (∃ ctx, .call ctx ∈ c'.rpcCallQ ∧
      ctx.num = n) → .call n ∈ t.server.live w' := by
    intro w' c' n hc' hctx
    simpa [State.live, hc'] using call_mem_items.mpr hctx
  constructor
  · exact hsession
  · intro info hinfo
    rw [hlist] at hinfo
    simpa using (List.mem_filter.mp hinfo).2
  · intro w' c' hc' k hkq blob hmem
    cases hctx : k.ctx with
    | call n =>
        rw [hctx] at hmem
        exact hcall w' n blob
          (hlive w' c' n hc' ((ho.sound.2 w' c' hc').live k hkq n hctx)) hmem
    | event ev =>
        rw [hctx] at hmem
        obtain ⟨blob', hblob'⟩ := ho.events w' ev ⟨c', hc', k, hkq, hctx⟩
        have hnone := hother w' blob' blob ev.info hblob' hmem
        rw [hc'] at hnone
        cases hnone
  · intro w' c' hc' ctx hctx blob
    exact hcall w' ctx.num blob (hlive w' c' ctx.num hc' ⟨ctx, hctx, rfl⟩)
  · intro i hin
    refine honce i ?_
    have hlog : t.server.log = (deinitActions c).reverse ++ s.log := by
      rw [hserver]
      exact hturn.log
    rw [hlog, destroyedBy_append, destroyedBy, List.filterMap_reverse, ← destroyedBy,
      destroyedBy_deinitActions]
    exact List.mem_append_left _ (List.mem_reverse.mpr hin)
  · intro n blob hmem a ha hn
    rcases ho.kept.started a ha n hn with ⟨w', hin⟩ | hin
    · exact absurd hmem (hcall w' n blob hin)
    · exact honce _ hin
  · rw [hserver]
    exact (hi.closed hc hd).2
  · exact ho.connected
  · intro w' hw
    rw [hserver]
    exact hturn.other w' hw
  · exact hlist

end

/-- In every state that is reached without a tick of a sweeper that hits a
call whose check is pending, the connection of a client closes without a
fault. Its sweeper and all its checks and invoked calls were pending; after
that nothing of the client is left or pending, and nothing of the other
clients is changed. -/
theorem tornDown_run {cfg : Config} {n : ℕ} {es : List Event} {t : Timed} {w : Wsi}
    {c : ClientSession} (hg : Guarded (timedStep cfg) TimedSparesPending (timedInit n) es)
    (hrun : run (timedStep cfg) (timedInit n) es = .ok t) (hc : t.server.clients w = some c) :
    t.cleaner w = true ∧ (∀ h, (w, h) ∈ t.pending ↔ c.Owns h) ∧
      ∃ t', timedStep cfg t (.closed w) = .ok t' ∧ TornDown t.server t'.server w c ∧
        t'.cleaner w = false ∧ (∀ w', w' ≠ w → t'.cleaner w' = t.cleaner w') ∧
        t'.pending = t.pending.filter fun p => p.1 ≠ w := by
  have hi := orderly_run hg hrun
  have howns : ∀ h, (w, h) ∈ t.pending ↔ c.Owns h := by
    intro h
    simp [hi.pending, State.Owns, hc]
  refine ⟨by rw [hi.cleaner, hc]; rfl, howns, ?_⟩
  obtain ⟨s', hstep⟩ := step_closed_ok cfg hi.sound.2 hc
  obtain ⟨u, hd, hserver⟩ := step_closed hc hstep
  have htimed : timedStep cfg t (.closed w) =
      .ok ⟨s', setCleaner t (.closed w), setPending cfg t (.closed w)⟩ := by
    simp [timedStep, Timed.sleeps, hstep]
  have hspares : TimedSparesPending t (.closed w) := trivial
  have ho := orderly_step hi hspares htimed
  refine ⟨_, htimed, tornDown_of_orderly hi.kept hi.connected hc hd hserver ho, ?_, ?_, ?_⟩
  · simp [setCleaner, hc]
  · intro w' hw
    simp [setCleaner, hc, hw]
  · -- All that is pending for the client is cancelled, and nothing is started.
    have hstarts : starts cfg t.server (.closed w) = [] := rfl
    have hends : ends t.server (.closed w) = (deinitCancels c).map fun h => (w, h) :=
      ofClient_some hc deinitCancels
    rw [setPending, hstarts, List.append_nil, hends]
    refine List.filter_congr fun p hp => decide_eq_decide.mpr (not_congr ?_)
    obtain ⟨w', h⟩ := p
    rw [List.mem_map]
    constructor
    · rintro ⟨h', -, heq⟩
      exact (congrArg Prod.fst heq).symm
    · rintro rfl
      exact ⟨h, ClientSession.mem_deinitCancels.mpr ((howns h).mp hp), rfl⟩

/-- Two clients, of which the first has a subscription with an event waiting
for its check, a call waiting for its own, and a call that is invoked. -/
def busyClients : List Event :=
  [.established 0, .established 1, sends (netMessage (.ofString "subscribe")), sends callMessage,
    .busEvent 2 (.ofString "net") [] willing, asks 1, sends callMessage,
    .checkData 0 6 [(.ofString "access", .int8 1)], .checkComplete 0 6 0 willingInvoke]

theorem tornDown_run_busyClients :
    ∃ t c t', run (timedStep plainConfig) (timedInit 512) busyClients = .ok t ∧
      t.server.clients 0 = some c ∧ c.items = [.notif 4, .sub 2, .call 3, .call 6] ∧
      t.cleaner 0 = true ∧
      t.pending = [(0, .accessRequest 3), (0, .accessRequest 4), (1, .accessRequest 5),
        (0, .invokeRequest 6)] ∧
      timedStep plainConfig t (.closed 0) = .ok t' ∧ TornDown t.server t'.server 0 c ∧
      t'.cleaner 0 = false ∧ t'.pending = [(1, .accessRequest 5)] := by
  have hg : Guarded (timedStep plainConfig) TimedSparesPending (timedInit 512) busyClients :=
    .cons trivial rfl (.cons trivial rfl (.cons trivial rfl (.cons trivial rfl (.cons trivial rfl
      (.cons trivial rfl (.cons trivial rfl (.cons trivial rfl (.cons trivial rfl trivial))))))))
  obtain ⟨t, c, hrun, hc, hitems, hpending⟩ : ∃ t c,
      run (timedStep plainConfig) (timedInit 512) busyClients = .ok t ∧
      t.server.clients 0 = some c ∧ c.items = [.notif 4, .sub 2, .call 3, .call 6] ∧
      t.pending = [(0, .accessRequest 3), (0, .accessRequest 4), (1, .accessRequest 5),
        (0, .invokeRequest 6)] :=
    ⟨_, _, rfl, rfl, rfl, rfl⟩
  obtain ⟨hcleaner, -, t', hstep, htorn, hcleaner', -, hpending'⟩ := tornDown_run hg hrun hc
  rw [hpending] at hpending'
  exact ⟨t, c, t', hrun, hc, hitems, hcleaner, hpending, hstep, htorn, hcleaner', hpending'⟩

end Owsd.Server
