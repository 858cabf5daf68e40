import Owsd.Server.Queues
import Mathlib.Data.List.Nodup

/-!
The counter of requests and the calls it counts.

`rpc_q_len` goes up when a message was handled and down in every handler but
that of a call, and when a call is destroyed. `Becomes` says what a step can
do to the calls of one session and to its counter; from it follows that the
counter always is the number of calls in the queue (`counted_run`), as far as
32 bits can hold it.
-/

namespace Owsd.Server

open Rpc

/-- The number of a call; a subscription has none. -/
def WsRequest.callNum : WsRequest → Option ℕ
  | .call ctx => some ctx.num
  | .sub _ => none

namespace ClientSession

variable {c c' : ClientSession} {n : ℕ}

def callNums (c : ClientSession) : List ℕ := c.rpcCallQ.filterMap WsRequest.callNum

theorem mem_callNums : n ∈ c.callNums ↔ ∃ ctx, .call ctx ∈ c.rpcCallQ ∧ ctx.num = n := by
  rw [callNums, List.mem_filterMap]
  constructor
  · rintro ⟨r, hr, hnum⟩
    cases r with
    | call ctx => exact ⟨ctx, hr, Option.some.inj hnum⟩
    | sub m => cases hnum
  · rintro ⟨ctx, hr, hnum⟩
    exact ⟨.call ctx, hr, congrArg some hnum⟩

theorem callNums_unlinkCall : (c.unlinkCall n).callNums = c.callNums.filter (· != n) := by
  rw [callNums, unlinkCall, callNums, List.filterMap_filter, List.filter_filterMap]
  refine List.filterMap_congr fun r _ => ?_
  cases r with
  | call ctx => simp [WsRequest.callNum, Option.filter]
  | sub m => simp [WsRequest.callNum]

theorem callNums_unlinkSubs (gone : List SubInfo) : (c.unlinkSubs gone).callNums = c.callNums := by
  rw [callNums, unlinkSubs, callNums, List.filterMap_filter]
  refine List.filterMap_congr fun r _ => ?_
  cases r with
  | call ctx => simp
  | sub m => simp [WsRequest.callNum]

theorem callNums_updateCall {f : PercallCtx → PercallCtx} (hf : ∀ ctx, (f ctx).num = ctx.num) :
    (c.updateCall n f).callNums = c.callNums := by
  rw [callNums, updateCall, callNums, List.filterMap_map]
  refine List.filterMap_congr fun r _ => ?_
  cases r with
  | call ctx =>
      by_cases hn : ctx.num = n
      · simp [WsRequest.callNum, hn, hf]
      · simp [WsRequest.callNum, hn]
  | sub m => rfl

/-- What the sweeper leaves and what it takes are all calls there were. -/
theorem length_callNums_swept (now : Timespec) (c : ClientSession) :
    ((c.rpcCallQ.filter fun r => !isStale now r).filterMap WsRequest.callNum).length +
      (c.rpcCallQ.filter (isStale now)).length = c.callNums.length := by
  rw [callNums]
  induction c.rpcCallQ with
  | nil => rfl
  | cons r q ih =>
      cases r with
      | call ctx =>
          cases hs : isStale now (.call ctx) with
          | true =>
              simp only [List.filter_cons, hs, Bool.not_true, List.filterMap_cons,
                WsRequest.callNum, List.length_cons, Bool.false_eq_true, if_true, if_false]
              omega
          | false =>
              simp only [List.filter_cons, hs, Bool.not_false, List.filterMap_cons,
                WsRequest.callNum, List.length_cons, Bool.false_eq_true, if_true, if_false]
              omega
      | sub m =>
          have hs : isStale now (.sub m) = false := rfl
          simp only [List.filter_cons, hs, Bool.not_false, List.filterMap_cons,
            WsRequest.callNum, Bool.false_eq_true, if_true, if_false]
          exact ih

/-- No two calls have the same number, and the counter counts them. -/
structure Counted (c : ClientSession) : Prop where
  nodup : c.callNums.Nodup
  rpcQLen : c.rpcQLen = BitVec.ofNat 32 c.callNums.length

theorem Counted.call_inj {ctx ctx' : PercallCtx} (h : c.Counted) (hctx : .call ctx ∈ c.rpcCallQ)
    (hctx' : .call ctx' ∈ c.rpcCallQ) (hnum : ctx.num = ctx'.num) : ctx = ctx' := by
  have hnd := h.nodup
  rw [callNums] at hnd
  generalize c.rpcCallQ = q at hctx hctx' hnd
  have hmem : ∀ {ctx : PercallCtx} {q : List WsRequest}, .call ctx ∈ q →
      ctx.num ∈ q.filterMap WsRequest.callNum :=
    fun hctx => List.mem_filterMap.mpr ⟨_, hctx, rfl⟩
  induction q with
  | nil => cases hctx
  | cons r q ih =>
      cases r with
      | sub m =>
          simp only [List.mem_cons, reduceCtorEq, false_or] at hctx hctx'
          exact ih hctx hctx' hnd
      | call ctx₀ =>
          simp only [List.filterMap_cons, WsRequest.callNum, List.nodup_cons] at hnd
          simp only [List.mem_cons, WsRequest.call.injEq] at hctx hctx'
          rcases hctx with rfl | hctx
          · rcases hctx' with rfl | hctx'
            · rfl
            · exact absurd (hnum ▸ hmem hctx') hnd.1
          · rcases hctx' with rfl | hctx'
            · exact absurd (hnum ▸ hmem hctx) hnd.1
            · exact ih hctx hctx' hnd.2

end ClientSession

def State.Counted (s : State) : Prop := ∀ w c, s.clients w = some c → c.Counted

/-! ### What a step does to a session -/

/-- How the session `c'` of the client on `w` came out of a step. -/
inductive Becomes (s : State) (e : Event) (w : Wsi) (c' : ClientSession) : Prop
  | opened : c'.callNums = [] → c'.rpcQLen = 0 → Becomes s e w c'
  /-- Calls were taken out, or nothing was done to them. -/
  | fewer {c : ClientSession} (gone : ℕ) : s.clients w = some c →
      c'.callNums.Sublist c.callNums → c'.callNums.length + gone = c.callNums.length →
      c'.rpcQLen = c.rpcQLen - BitVec.ofNat 32 gone → Becomes s e w c'
  /-- The message of this step started a call. -/
  | started {c : ClientSession} {blob : List Attr} {now : Timespec} {a : MessageAnswers}
      {args : UbusrpcBlobCall} : s.clients w = some c → e = .message w blob now a →
      parseRequest a.scalarAttrs blob = some (.ok (.call args)) →
      c'.callNums = c.callNums ++ [s.steps] →
      c'.rpcQLen = c.rpcQLen + 1 → Becomes s e w c'

namespace Becomes

variable {s : State} {e : Event} {w : Wsi} {c c' : ClientSession}

theorem same (hc : s.clients w = some c) (hq : c'.callNums = c.callNums)
    (hlen : c'.rpcQLen = c.rpcQLen) : Becomes s e w c' :=
  .fewer 0 hc (hq ▸ List.Sublist.refl _) (by rw [hq]; rfl) (by simp [hlen])

theorem of_sameQueues (hc : s.clients w = some c) (hs : SameQueues c c') : Becomes s e w c' :=
  .same hc (by rw [ClientSession.callNums, hs.rpcCallQ]; rfl) hs.rpcQLen

/-- A call that is in the queue leaves it and is destroyed. -/
theorem destroyCall {ctx : PercallCtx} (hi : s.Counted) (hc : s.clients w = some c)
    (hfind : c.findCall ctx.num = some ctx) (hq : c'.callNums = (c.unlinkCall ctx.num).callNums)
    (hlen : c'.rpcQLen = c.rpcQLen - 1) : Becomes s e w c' := by
  have hmem : ctx.num ∈ c.callNums :=
    ClientSession.mem_callNums.mpr ⟨ctx, (ClientSession.findCall_num hfind).2, rfl⟩
  rw [ClientSession.callNums_unlinkCall] at hq
  refine .fewer 1 hc (hq ▸ List.filter_sublist) ?_ hlen
  have hfilter : c.callNums.filter (· != ctx.num) = c.callNums.erase ctx.num :=
    ((hi w c hc).nodup.erase_eq_filter ctx.num).symm
  rw [hq, hfilter, List.length_erase_of_mem hmem]
  have := List.length_pos_of_mem hmem
  omega

end Becomes

theorem becomes_message {s t : State} {w : Wsi} {c : ClientSession} {blob : List Attr}
    {now : Timespec} {a : MessageAnswers} (hc : s.clients w = some c)
    (h : MessageEffect s w c a.scalarAttrs blob t) :
    ∀ w' c', t.clients w' = some c' → Becomes s (.message w blob now a) w' c' := by
  have hold : ∀ w' c', w' ≠ w → s.clients w' = some c' →
      Becomes s (.message w blob now a) w' c' := fun w' c' _ hc' => .same hc' rfl rfl
  cases h with
  | unheard _ => exact fun w' c' hc' => .same hc' rfl rfl
  | answered hs _ => exact forall_update hold (.of_sameQueues hc hs)
  | subscribed c' _ hs =>
      refine forall_update hold (.same hc ?_ hs.rpcQLen)
      simp [ClientSession.callNums, WsRequest.callNum]
  | unsubscribed c' _ _ hs _ =>
      refine forall_update hold (.same hc ?_ hs.rpcQLen)
      rw [ClientSession.callNums_unlinkSubs, ClientSession.callNums, hs.rpcCallQ]
      rfl
  | callFailed _ hs => exact forall_update hold (.of_sameQueues hc hs)
  | callStarted hreq hlen hq _ hnum _ _ _ _ _ _ _ _ =>
      refine forall_update hold (.started hc rfl hreq ?_ hlen)
      simp [ClientSession.callNums, hq, WsRequest.callNum, hnum]

theorem becomes_effect {s t : State} {e : Event} (h : Effect s e t) (hi : s.Counted) :
    ∀ w c', t.clients w = some c' → Becomes s e w c' := by
  have hold : ∀ w : Wsi, ∀ w' c', w' ≠ w → s.clients w' = some c' → Becomes s e w' c' :=
    fun _ w' c' _ hc' => .same hc' rfl rfl
  cases h with
  | idle => exact fun w' c' hc' => .same hc' rfl rfl
  | opened _ => exact forall_update (hold _) (.opened rfl rfl)
  | message hc hm => exact becomes_message hc hm
  | callData hc _ _ _ => exact forall_update (hold _) (.same hc rfl rfl)
  | eventData hc _ _ => exact forall_update (hold _) (.same hc rfl rfl)
  | callInvoked hc _ _ _ _ _ _ =>
      exact forall_update (hold _) (.same hc (ClientSession.callNums_updateCall fun _ => rfl) rfl)
  | callRefused hc _ _ hfind =>
      exact forall_update (hold _) (.destroyCall hi hc hfind rfl rfl)
  | callLost _ hc _ _ hfind _ _ _ _ =>
      exact forall_update (hold _) (.destroyCall hi hc hfind rfl rfl)
  | eventDelivered hc _ _ _ => exact forall_update (hold _) (.same hc rfl rfl)
  | eventDropped hc _ _ => exact forall_update (hold _) (.same hc rfl rfl)
  | @retdata w c num msg hc =>
      refine forall_update (hold _) (.same hc (ClientSession.callNums_updateCall fun ctx => ?_) rfl)
      exact (wsubusCallOnRetdata_frame msg ctx).1
  | invokeCompleted hc hfind _ => exact forall_update (hold _) (.destroyCall hi hc hfind rfl rfl)
  | eventStarted _ hc => exact forall_update (hold _) (.same hc rfl rfl)
  | eventFailed => exact fun w' c' hc' => .same hc' rfl rfl
  | @swept w c now hc =>
      refine forall_update (hold _) (.fewer _ hc ?_ (c.length_callNums_swept now) rfl)
      exact List.filter_sublist.filterMap _
  | closed hc hd =>
      obtain rfl := wsuPeerDeinit_ok hd
      exact forall_drop (hold _)

/-! ### The counter -/

theorem Becomes.counted {s : State} {e : Event} {w : Wsi} {c' : ClientSession}
    (h : Becomes s e w c') (hn : s.Numbered) (hi : s.Counted) : c'.Counted := by
  cases h with
  | opened hq hlen => exact ⟨by simp [hq], by simp [hq, hlen]⟩
  | @fewer c gone hc hsub hgone hlen =>
      refine ⟨(hi w c hc).nodup.sublist hsub, ?_⟩
      rw [hlen, (hi w c hc).rpcQLen, ← hgone, BitVec.ofNat_add]
      exact BitVec.add_sub_cancel _ _
  | @started c _ _ _ _ hc _ _ hq hlen =>
      have hnew : s.steps ∉ c.callNums := by
        intro hmem
        obtain ⟨ctx, hctx, hnum⟩ := ClientSession.mem_callNums.mp hmem
        exact absurd ((hn w c hc).calls ctx hctx) (by omega)
      refine ⟨?_, ?_⟩
      · rw [hq]
        exact List.nodup_append.mpr ⟨(hi w c hc).nodup, by simp, by
          rintro m hm n hn rfl
          rw [List.mem_singleton.mp hn] at hm
          exact hnew hm⟩
      · rw [hlen, (hi w c hc).rpcQLen, hq, List.length_append, BitVec.ofNat_add]
        rfl

theorem counted_step {cfg : Config} {s s' : State} {e : Event} (hn : s.Numbered)
    (hi : s.Counted) (h : step cfg s e = .ok s') : s'.Counted := by
  obtain ⟨t, ht, rfl⟩ := step_effect h
  exact fun w c hc => (becomes_effect ht hi w c hc).counted hn hi

theorem counted_init (n : ℕ) : (init n).Counted := by
  intro w c hc
  cases hc

/-- In every state reached, `rpc_q_len` is the number of calls in progress. -/
theorem counted_run {cfg : Config} {n : ℕ} {es : List Event} {s : State}
    (hrun : run (step cfg) (init n) es = .ok s) : s.Numbered ∧ s.Counted := by
  refine run_invariant_of_step (fun s => s.Numbered ∧ s.Counted) ?_
    ⟨numbered_init n, counted_init n⟩ hrun
  rintro s e s' ⟨hn, hi⟩ h
  exact ⟨numbered_step hn h, counted_step hn hi h⟩

end Owsd.Server
