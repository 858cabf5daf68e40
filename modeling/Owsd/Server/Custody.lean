import Owsd.Basis.Custody
import Owsd.Server.Queues

/-!
What the server has to destroy.

The calls and subscriptions of a client are in one of its queues, the events
waiting for their checks in the other. `Turn` says what a step does to the
things of the one client it is about: what was there, or is new, is still
there or was destroyed. So nothing is destroyed twice, whatever is in the
queues when a connection closes, and every element of `listen_list` is the
subscription of a client that has it in its queue (`kept_run`).
-/

namespace Owsd.Server

open Rpc

/-- What has a destructor: a call context, a subscription, an event waiting
for its check. -/
inductive Item where
  | call (n : ℕ)
  | sub (n : ℕ)
  | notif (n : ℕ)
  deriving DecidableEq

def Item.num : Item → ℕ
  | .call n => n
  | .sub n => n
  | .notif n => n

def WsRequest.item : WsRequest → Item
  | .call ctx => .call ctx.num
  | .sub n => .sub n

def AccessCheck.item (k : AccessCheck) : Option Item :=
  match k.ctx with
  | .call _ => none
  | .event _ => some (.notif k.num)

def ClientSession.items (c : ClientSession) : List Item :=
  c.accessCheckQ.filterMap AccessCheck.item ++ c.rpcCallQ.map WsRequest.item

def Action.destroyed : Action → Option Item
  | .destroyCall n => some (.call n)
  | .destroySub n => some (.sub n)
  | .destroyNotif n => some (.notif n)
  | _ => none

def Action.starts : Action → Option ℕ
  | .checkStart n _ _ _ => some n
  | .invoke n _ _ _ _ => some n
  | _ => none

/-- What was destroyed, the latest first. -/
def destroyedBy (log : List Action) : List Item := log.filterMap Action.destroyed

/-- What the client on `w` has, if there is one. -/
def State.live (s : State) (w : Wsi) : List Item :=
  ((s.clients w).map ClientSession.items).getD []

@[simp] theorem destroyedBy_append (l l' : List Action) :
    destroyedBy (l ++ l') = destroyedBy l ++ destroyedBy l' :=
  List.filterMap_append

/-! ### The queues under updates -/

section

variable {c c' : ClientSession} {n : ℕ}

theorem AccessCheck.item_eq_some {k : AccessCheck} {i : Item} :
    k.item = some i ↔ ∃ t, k.ctx = .event t ∧ i = .notif k.num := by
  rw [item]
  cases k.ctx with
  | call m => simp
  | event t => simp [eq_comm]

/-- Filters that keep the events keep the queue of checks. -/
theorem filter_checks {p : Item → Bool} (hp : ∀ n, p (.notif n) = true) (q : List AccessCheck) :
    (q.filterMap AccessCheck.item).filter p = q.filterMap AccessCheck.item := by
  rw [List.filter_eq_self]
  intro i hi
  obtain ⟨k, -, hk⟩ := List.mem_filterMap.mp hi
  obtain ⟨t, -, rfl⟩ := AccessCheck.item_eq_some.mp hk
  exact hp k.num

theorem mem_items {i : Item} :
    i ∈ c.items ↔ (∃ k ∈ c.accessCheckQ, k.item = some i) ∨ ∃ r ∈ c.rpcCallQ, r.item = i := by
  simp [ClientSession.items]

theorem call_mem_items : .call n ∈ c.items ↔ ∃ ctx, .call ctx ∈ c.rpcCallQ ∧ ctx.num = n := by
  rw [mem_items]
  constructor
  · rintro (⟨k, -, hk⟩ | ⟨r, hr, hitem⟩)
    · obtain ⟨t, -, heq⟩ := AccessCheck.item_eq_some.mp hk
      cases heq
    · cases r with
      | call ctx =>
          cases hitem
          exact ⟨ctx, hr, rfl⟩
      | sub m => cases hitem
  · rintro ⟨ctx, hctx, rfl⟩
    exact .inr ⟨_, hctx, rfl⟩

theorem sub_mem_items : .sub n ∈ c.items ↔ .sub n ∈ c.rpcCallQ := by
  rw [mem_items]
  constructor
  · rintro (⟨k, -, hk⟩ | ⟨r, hr, hitem⟩)
    · obtain ⟨t, -, heq⟩ := AccessCheck.item_eq_some.mp hk
      cases heq
    · cases r with
      | call ctx => cases hitem
      | sub m =>
          cases hitem
          exact hr
  · exact fun hr => .inr ⟨_, hr, rfl⟩

theorem notif_mem_items :
    .notif n ∈ c.items ↔ ∃ k ∈ c.accessCheckQ, ∃ t, k.ctx = .event t ∧ k.num = n := by
  rw [mem_items]
  constructor
  · rintro (⟨k, hk, hitem⟩ | ⟨r, -, hitem⟩)
    · obtain ⟨t, ht, heq⟩ := AccessCheck.item_eq_some.mp hitem
      cases heq
      exact ⟨k, hk, t, ht, rfl⟩
    · cases r with
      | call ctx => cases hitem
      | sub m => cases hitem
  · rintro ⟨k, hk, t, ht, rfl⟩
    exact .inl ⟨k, hk, AccessCheck.item_eq_some.mpr ⟨t, ht, rfl⟩⟩

theorem items_of_sameQueues (h : SameQueues c c') : c'.items = c.items := by
  rw [ClientSession.items, ClientSession.items, h.rpcCallQ, h.accessCheckQ]

theorem items_updateCall {f : PercallCtx → PercallCtx} (hf : ∀ ctx, (f ctx).num = ctx.num) :
    (c.updateCall n f).items = c.items := by
  simp only [ClientSession.items, ClientSession.updateCall, List.map_map]
  congr 1
  refine List.map_congr_left fun r _ => ?_
  cases r with
  | call ctx =>
      simp only [Function.comp]
      split
      · simp [WsRequest.item, hf]
      · rfl
  | sub m => rfl

theorem items_updateCheck (b : Bool) : (c.updateCheck n b).items = c.items := by
  simp only [ClientSession.items, ClientSession.updateCheck, List.filterMap_map]
  congr 1
  refine List.filterMap_congr fun k _ => ?_
  simp only [Function.comp]
  split
  · rfl
  · rfl

theorem items_unlinkCheck : (c.unlinkCheck n).items = c.items.filter (· ≠ .notif n) := by
  have hcalls : (c.rpcCallQ.map WsRequest.item).filter (· ≠ .notif n) =
      c.rpcCallQ.map WsRequest.item := by
    rw [List.filter_eq_self]
    intro i hi
    obtain ⟨r, -, rfl⟩ := List.mem_map.mp hi
    cases r with
    | call ctx => rfl
    | sub m => rfl
  simp only [ClientSession.items, ClientSession.unlinkCheck, List.filter_append, hcalls]
  congr 1
  rw [List.filterMap_filter, List.filter_filterMap]
  refine List.filterMap_congr fun k _ => ?_
  rw [AccessCheck.item]
  cases k.ctx with
  | call m => simp
  | event t =>
      by_cases hn : k.num = n
      · simp [Option.filter, hn]
      · simp [Option.filter, hn]

theorem items_unlinkCall : (c.unlinkCall n).items = c.items.filter (· ≠ .call n) := by
  simp only [ClientSession.items, ClientSession.unlinkCall, List.filter_append]
  rw [filter_checks fun _ => rfl, List.filter_map]
  congr 2
  refine List.filter_congr fun r _ => ?_
  cases r with
  | call ctx => simp [WsRequest.item]
  | sub m => simp [WsRequest.item]

theorem items_destroyCall :
    (c.unlinkCall n).percallCtxDestroy.items = c.items.filter (· ≠ .call n) := by
  rw [← items_unlinkCall]
  rfl

theorem items_unlinkSubs (gone : List SubInfo) :
    (c.unlinkSubs gone).items = c.items.filter (· ∉ gone.map fun info => Item.sub info.num) := by
  simp only [ClientSession.items, ClientSession.unlinkSubs, List.filter_append]
  rw [filter_checks fun _ => by simp, List.filter_map]
  congr 2
  refine List.filter_congr fun r _ => ?_
  cases r with
  | call ctx => simp [WsRequest.item]
  | sub m =>
      rw [Bool.eq_iff_iff]
      simp [WsRequest.item]

/-- A closing connection destroys all there is in its queues. -/
theorem destroyedBy_deinitActions (c : ClientSession) :
    destroyedBy (deinitActions c) = c.items := by
  rw [destroyedBy, deinitActions, List.filterMap_append, List.filterMap_filterMap,
    List.filterMap_map, ClientSession.items, ← List.filterMap_eq_map]
  congr 1
  · refine List.filterMap_congr fun k _ => ?_
    rw [AccessCheck.item]
    cases k.ctx with
    | call m => rfl
    | event t => rfl
  · refine List.filterMap_congr fun r _ => ?_
    cases r with
    | call ctx => rfl
    | sub m => rfl

/-- The sweeper takes calls only, and puts them aside in the end. -/
theorem items_swept (now : Timespec) (c : ClientSession) :
    (ClientSession.items { c with rpcCallQ := c.rpcCallQ.filter fun r => !isStale now r } ++
      destroyedBy ((c.rpcCallQ.filter (isStale now)).map fun
        | .call ctx => Action.destroyCall ctx.num
        | .sub n => .destroySub n).reverse).Perm c.items := by
  have hgone : destroyedBy ((c.rpcCallQ.filter (isStale now)).map fun
      | .call ctx => Action.destroyCall ctx.num
      | .sub n => .destroySub n) = (c.rpcCallQ.filter (isStale now)).map WsRequest.item := by
    rw [destroyedBy, List.filterMap_map, ← List.filterMap_eq_map]
    refine List.filterMap_congr fun r _ => ?_
    cases r with
    | call ctx => rfl
    | sub n => rfl
  have hsplit : (c.rpcCallQ.filter (fun r => !isStale now r) ++
      c.rpcCallQ.filter (isStale now)).Perm c.rpcCallQ :=
    List.perm_append_comm.trans (List.filter_append_perm (isStale now) c.rpcCallQ)
  rw [destroyedBy, List.filterMap_reverse, ← destroyedBy, hgone, ClientSession.items,
    ClientSession.items, List.append_assoc]
  refine .append_left _ ?_
  refine ((List.reverse_perm _).append_left _).trans ?_
  rw [← List.map_append]
  exact hsplit.map _

end

/-! ### Turns -/

/-- What a step does to the things of the client on `w`. What is new is
created under the number of the step. -/
structure Turn (s t : State) (w : Wsi) (new : Option Item) (acts : List Action) : Prop where
  other : ∀ w', w' ≠ w → t.clients w' = s.clients w'
  log : t.log = acts ++ s.log
  perm : (t.live w ++ destroyedBy acts).Perm (new.toList ++ s.live w)
  fresh : ∀ i ∈ new, i.num = s.steps
  listed : t.listenList.Sublist s.listenList ∨
    ∃ info, t.listenList = s.listenList ++ [info] ∧ info.wsi = w ∧ new = some (.sub info.num)
  kept : ∀ info ∈ t.listenList, .sub info.num ∉ destroyedBy acts
  received : ∀ w' m blob, .received w' m blob ∈ acts → w' = w ∧ m = s.steps
  told : ∀ i ∈ new, (∀ n, i ≠ .notif n) → ∃ blob, .received w s.steps blob ∈ acts
  started : ∀ a ∈ acts, ∀ n, a.starts = some n → new = some (.call n) ∨ .call n ∈ s.live w

section

variable {s t : State} {w : Wsi} {c c' : ClientSession}

theorem Turn.session (new : Option Item) (acts : List Action) (hc : s.clients w = some c)
    (hclients : t.clients = Function.update s.clients w (some c'))
    (hlog : t.log = acts ++ s.log)
    (hperm : (c'.items ++ destroyedBy acts).Perm (new.toList ++ c.items))
    (hfresh : ∀ i ∈ new, i.num = s.steps)
    (hlisted : t.listenList.Sublist s.listenList ∨
      ∃ info, t.listenList = s.listenList ++ [info] ∧ info.wsi = w ∧ new = some (.sub info.num))
    (hkept : ∀ info ∈ t.listenList, .sub info.num ∉ destroyedBy acts)
    (hreceived : ∀ w' m blob, .received w' m blob ∈ acts → w' = w ∧ m = s.steps)
    (htold : ∀ i ∈ new, (∀ n, i ≠ .notif n) → ∃ blob, .received w s.steps blob ∈ acts)
    (hstarted : ∀ a ∈ acts, ∀ n, a.starts = some n → new = some (.call n) ∨ .call n ∈ c.items) :
    Turn s t w new acts where
  other := fun w' hw => by simp [hclients, hw]
  log := hlog
  perm := by simpa [State.live, hclients, hc] using hperm
  fresh := hfresh
  listed := hlisted
  kept := hkept
  received := hreceived
  told := htold
  started := by simpa [State.live, hc] using hstarted

/-- Things of the client are destroyed, but no subscription, or nothing is
done to them. -/
theorem Turn.shrink (acts : List Action) (hc : s.clients w = some c)
    (hclients : t.clients = Function.update s.clients w (some c'))
    (hlog : t.log = acts ++ s.log) (hlist : t.listenList = s.listenList)
    (hperm : (c'.items ++ destroyedBy acts).Perm c.items)
    (hgone : ∀ n, .sub n ∉ destroyedBy acts)
    (hreceived : ∀ w' m blob, .received w' m blob ∈ acts → w' = w ∧ m = s.steps)
    (hstarted : ∀ a ∈ acts, ∀ n, a.starts = some n → .call n ∈ c.items) :
    Turn s t w none acts :=
  .session none acts hc hclients hlog hperm (by simp)
    (.inl (hlist ▸ .refl _)) (fun info _ => hgone info.num) hreceived (by simp)
    fun a ha n hn => .inr (hstarted a ha n hn)

theorem Turn.quiet (acts : List Action) (hc : s.clients w = some c)
    (hclients : t.clients = Function.update s.clients w (some c'))
    (hlog : t.log = acts ++ s.log) (hlist : t.listenList = s.listenList)
    (hitems : c'.items = c.items) (hgone : destroyedBy acts = [])
    (hreceived : ∀ w' m blob, .received w' m blob ∈ acts → w' = w ∧ m = s.steps)
    (hstarted : ∀ a ∈ acts, ∀ n, a.starts = some n → .call n ∈ c.items) :
    Turn s t w none acts :=
  .shrink acts hc hclients hlog hlist (by simp [hitems, hgone]) (by simp [hgone]) hreceived hstarted

theorem Turn.destroyCall {ctx : PercallCtx} (acts : List Action) (hnodup : c.items.Nodup)
    (hc : s.clients w = some c) (hclients : t.clients = Function.update s.clients w (some c'))
    (hlog : t.log = acts ++ s.log) (hlist : t.listenList = s.listenList)
    (hfind : c.findCall ctx.num = some ctx)
    (hitems : c'.items = c.items.filter (· ≠ .call ctx.num))
    (hgone : destroyedBy acts = [.call ctx.num])
    (hreceived : ∀ w' m blob, .received w' m blob ∉ acts)
    (hstarted : ∀ a ∈ acts, ∀ n, a.starts = some n → n = ctx.num) : Turn s t w none acts := by
  have hmem : .call ctx.num ∈ c.items :=
    call_mem_items.mpr ⟨ctx, (ClientSession.findCall_num hfind).2, rfl⟩
  refine .shrink acts hc hclients hlog hlist ?_ (by simp [hgone])
    (fun w' m blob h => absurd h (hreceived w' m blob)) fun a ha n hn => hstarted a ha n hn ▸ hmem
  rw [hitems, hgone]
  simpa using perm_filter_append hnodup (List.nodup_singleton _) (by simpa using hmem)

end

/-- A check leaves its queue. Taking out that of a call destroys nothing. -/
theorem items_unlinkCheck_call {c : ClientSession} {k : AccessCheck} {n m : ℕ}
    (hn : c.Numbered n) (hk : k ∈ c.accessCheckQ) (hctx : k.ctx = .call m) :
    (c.unlinkCheck k.num).items = c.items := by
  rw [items_unlinkCheck, List.filter_eq_self]
  intro i hi
  have hne : i ≠ .notif k.num := by
    rintro rfl
    obtain ⟨k', hk', t, ht, hnum⟩ := notif_mem_items.mp hi
    rw [hn.distinct k' hk' k hk hnum, hctx] at ht
    cases ht
  simpa using hne

theorem perm_unlinkCheck_event {c : ClientSession} {k : AccessCheck} {t : EvNotif}
    (hnodup : c.items.Nodup) (hk : k ∈ c.accessCheckQ) (hctx : k.ctx = .event t) :
    ((c.unlinkCheck k.num).items ++ [Item.notif k.num]).Perm c.items := by
  have hmem : Item.notif k.num ∈ c.items := notif_mem_items.mpr ⟨k, hk, t, hctx, rfl⟩
  rw [items_unlinkCheck]
  simpa using perm_filter_append hnodup (List.nodup_singleton _) (by simpa using hmem)

/-! ### Steps -/

/-- Nothing is destroyed twice, and what is on `listen_list` is in the queue
of its client. A call or a subscription has the number of the message that
its client sent for it. -/
structure State.Kept (s : State) : Prop where
  custody : Custody s.live (destroyedBy s.log)
  below : ∀ i ∈ destroyedBy s.log, i.num < s.steps
  listed : ∀ info ∈ s.listenList, .sub info.num ∈ s.live info.wsi
  nodup : (s.listenList.map SubInfo.num).Nodup
  told : ∀ w n, .call n ∈ s.live w ∨ .sub n ∈ s.live w → ∃ blob, .received w n blob ∈ s.log
  started : ∀ a ∈ s.log, ∀ n, a.starts = some n →
    (∃ w, .call n ∈ s.live w) ∨ .call n ∈ destroyedBy s.log
  receivedBelow : ∀ w n blob, .received w n blob ∈ s.log → n < s.steps
  receivedOnce : ∀ w w' n blob blob', .received w n blob ∈ s.log →
    .received w' n blob' ∈ s.log → w = w'

theorem State.Numbered.live {s : State} (hn : s.Numbered) {w : Wsi} {i : Item}
    (hi : i ∈ s.live w) : i.num < s.steps := by
  rw [State.live] at hi
  cases hc : s.clients w with
  | none => simp [hc] at hi
  | some c =>
      have hi : i ∈ c.items := by simpa [hc] using hi
      cases i with
      | call n =>
          obtain ⟨ctx, hctx, rfl⟩ := call_mem_items.mp hi
          exact (hn w c hc).calls ctx hctx
      | sub n => exact (hn w c hc).subs n (sub_mem_items.mp hi)
      | notif n =>
          obtain ⟨k, hk, -, -, rfl⟩ := notif_mem_items.mp hi
          exact (hn w c hc).checks k hk

section

variable {s t : State} {w : Wsi} {new : Option Item} {acts : List Action}

namespace Turn

theorem live_other (ht : Turn s t w new acts) {w' : Wsi} (hw : w' ≠ w) :
    t.live w' = s.live w' := by
  rw [State.live, State.live, ht.other w' hw]

theorem origin (ht : Turn s t w new acts) {i : Item} (hi : i ∈ t.live w ∨ i ∈ destroyedBy acts) :
    i ∈ new ∨ i ∈ s.live w := by
  have := ht.perm.mem_iff.mp (List.mem_append.mpr hi)
  simpa using this

theorem stays (ht : Turn s t w new acts) {i : Item} (hi : i ∈ new ∨ i ∈ s.live w)
    (hkept : i ∉ destroyedBy acts) : i ∈ t.live w := by
  have hmem : i ∈ new.toList ++ s.live w := by simpa using hi
  rcases List.mem_append.mp (ht.perm.mem_iff.mpr hmem) with hmem | hmem
  · exact hmem
  · exact absurd hmem hkept

theorem received_log (ht : Turn s t w new acts) {w' : Wsi} {m : ℕ} {blob : List Attr}
    (h : .received w' m blob ∈ t.log) : .received w' m blob ∈ s.log ∨ w' = w ∧ m = s.steps := by
  rw [ht.log] at h
  rcases List.mem_append.mp h with h | h
  · exact .inr (ht.received w' m blob h)
  · exact .inl h

end Turn

namespace State.Kept

theorem custody_turn (h : s.Kept) (hn : s.Numbered) (ht : Turn s t w new acts) :
    Custody t.live (destroyedBy t.log) := by
  rw [ht.log, destroyedBy_append]
  refine h.custody.turn (fun w' hw => ht.live_other hw) ht.perm ?_ ?_
  · cases new with
    | none => exact .nil
    | some i => exact List.nodup_singleton i
  · intro i hi
    have hnum := ht.fresh i (by simpa using hi)
    refine ⟨fun w' hmem => ?_, fun hmem => ?_⟩
    · have := hn.live hmem
      omega
    · have := h.below i hmem
      omega

theorem below_turn (h : s.Kept) (hn : s.Numbered) (ht : Turn s t w new acts) :
    ∀ i ∈ destroyedBy t.log, i.num < s.steps + 1 := by
  rw [ht.log, destroyedBy_append]
  intro i hi
  rcases List.mem_append.mp hi with hi | hi
  · rcases ht.origin (.inr hi) with hi | hi
    · have := ht.fresh i hi
      omega
    · exact Nat.lt_succ_of_lt (hn.live hi)
  · exact Nat.lt_succ_of_lt (h.below i hi)

theorem listed_turn (h : s.Kept) (ht : Turn s t w new acts) :
    ∀ info ∈ t.listenList, .sub info.num ∈ t.live info.wsi := by
  intro info hinfo
  have hkept := ht.kept info hinfo
  have hold : info ∈ s.listenList → .sub info.num ∈ t.live info.wsi := by
    intro hold
    by_cases hw : info.wsi = w
    · rw [hw]
      exact ht.stays (.inr (hw ▸ h.listed info hold)) hkept
    · rw [ht.live_other hw]
      exact h.listed info hold
  rcases ht.listed with hsub | ⟨info', hlist, hwsi, hnew⟩
  · exact hold (hsub.subset hinfo)
  · rw [hlist] at hinfo
    rcases List.mem_append.mp hinfo with hinfo | hinfo
    · exact hold hinfo
    · rw [List.mem_singleton] at hinfo
      subst hinfo
      rw [hwsi]
      exact ht.stays (.inl hnew) hkept

theorem nodup_turn (h : s.Kept) (hn : s.Numbered) (ht : Turn s t w new acts) :
    (t.listenList.map SubInfo.num).Nodup := by
  rcases ht.listed with hsub | ⟨info, hlist, -, hnew⟩
  · exact (hsub.map _).nodup h.nodup
  · rw [hlist, List.map_append]
    refine List.nodup_append.mpr ⟨h.nodup, List.nodup_singleton _, ?_⟩
    intro a ha b hb hab
    obtain ⟨info', hinfo', rfl⟩ := List.mem_map.mp ha
    have hlt : info'.num < s.steps := hn.live (h.listed info' hinfo')
    have hnum : info.num = s.steps := ht.fresh (.sub info.num) hnew
    have hb : b = info.num := by simpa using hb
    omega

/-- What is in a queue came from there, or is new and of this message. -/
theorem told_turn (h : s.Kept) (ht : Turn s t w new acts) {w' : Wsi} {i : Item}
    (hcases : i = .call i.num ∨ i = .sub i.num) (hi : i ∈ t.live w') :
    ∃ blob, .received w' i.num blob ∈ t.log := by
  have hearlier : ∀ w₀, i ∈ s.live w₀ → ∃ blob, .received w₀ i.num blob ∈ t.log := by
    intro w₀ hold
    have hold : .call i.num ∈ s.live w₀ ∨ .sub i.num ∈ s.live w₀ := by
      rcases hcases with heq | heq
      · exact .inl (heq ▸ hold)
      · exact .inr (heq ▸ hold)
    obtain ⟨blob, hblob⟩ := h.told w₀ i.num hold
    rw [ht.log]
    exact ⟨blob, List.mem_append_right _ hblob⟩
  by_cases hw : w' = w
  · subst hw
    rcases ht.origin (.inl hi) with hnew | hold
    · have hcall : ∀ n, i ≠ .notif n := by
        rintro n rfl
        simp at hcases
      obtain ⟨blob, hblob⟩ := ht.told i hnew hcall
      rw [ht.fresh i hnew, ht.log]
      exact ⟨blob, List.mem_append_left _ hblob⟩
    · exact hearlier w' hold
  · exact hearlier w' (ht.live_other hw ▸ hi)

/-- A call that was started is in its queue until it is destroyed. -/
theorem started_turn (h : s.Kept) (ht : Turn s t w new acts) :
    ∀ a ∈ t.log, ∀ n, a.starts = some n →
      (∃ w, .call n ∈ t.live w) ∨ .call n ∈ destroyedBy t.log := by
  intro a ha n hn
  have hhere : .call n ∈ new ∨ .call n ∈ s.live w →
      (∃ w, .call n ∈ t.live w) ∨ .call n ∈ destroyedBy t.log := by
    intro hmem
    rw [ht.log, destroyedBy_append, List.mem_append]
    by_cases hdes : .call n ∈ destroyedBy acts
    · exact .inr (.inl hdes)
    · exact .inl ⟨w, ht.stays hmem hdes⟩
  rw [ht.log] at ha
  rcases List.mem_append.mp ha with ha | ha
  · exact hhere (ht.started a ha n hn)
  · rcases h.started a ha n hn with ⟨w₀, hlive⟩ | hdes
    · by_cases hw : w₀ = w
      · exact hhere (.inr (hw ▸ hlive))
      · exact .inl ⟨w₀, by rwa [ht.live_other hw]⟩
    · rw [ht.log, destroyedBy_append]
      exact .inr (List.mem_append_right _ hdes)

theorem turn (h : s.Kept) (hn : s.Numbered) (ht : Turn s t w new acts)
    (hsteps : t.steps = s.steps + 1) : t.Kept where
  custody := h.custody_turn hn ht
  below := hsteps ▸ h.below_turn hn ht
  listed := h.listed_turn ht
  nodup := h.nodup_turn hn ht
  told := by
    rintro w' n (hmem | hmem)
    · exact h.told_turn ht (.inl rfl) hmem
    · exact h.told_turn ht (.inr rfl) hmem
  started := h.started_turn ht
  receivedBelow := by
    intro w' n blob hmem
    rw [hsteps]
    rcases ht.received_log hmem with hmem | ⟨-, rfl⟩
    · exact Nat.lt_succ_of_lt (h.receivedBelow w' n blob hmem)
    · exact Nat.lt_succ_self _
  receivedOnce := by
    intro w₁ w₂ n blob₁ blob₂ h₁ h₂
    rcases ht.received_log h₁ with h₁ | ⟨rfl, rfl⟩
    · rcases ht.received_log h₂ with h₂ | ⟨rfl, rfl⟩
      · exact h.receivedOnce w₁ w₂ n blob₁ blob₂ h₁ h₂
      · exact absurd (h.receivedBelow _ _ _ h₁) (lt_irrefl _)
    · rcases ht.received_log h₂ with h₂ | ⟨rfl, -⟩
      · exact absurd (h.receivedBelow _ _ _ h₂) (lt_irrefl _)
      · rfl

end State.Kept

end

theorem State.Kept.items_nodup {s : State} (h : s.Kept) {w : Wsi} {c : ClientSession}
    (hc : s.clients w = some c) : c.items.Nodup := by
  have := h.custody.nodup w
  simpa [State.live, hc] using this

/-- An `unsubscribe` destroys what it takes off the list, which the client
has in its queue. -/
theorem turn_unsubscribed {s : State} {w : Wsi} {c c' : ClientSession} {args : UbusrpcBlobSub}
    {blob resp : List Attr} (hc : s.clients w = some c) (hs : SameQueues c c') (hk : s.Kept) :
    Turn s (((s.emit (.reply w s.steps resp ::
        (((s.listenList.filter (unsubMatches w args)).map fun elem =>
          Action.destroySub elem.num).reverse ++ [.received w s.steps blob]))).setListenList
          (s.listenList.filter fun elem => !unsubMatches w args elem)).setClient w
        (c'.unlinkSubs (s.listenList.filter (unsubMatches w args)))) w none
      (.reply w s.steps resp :: (((s.listenList.filter (unsubMatches w args)).map fun elem =>
        Action.destroySub elem.num).reverse ++ [.received w s.steps blob])) := by
  have hgone : ∀ info ∈ s.listenList.filter (unsubMatches w args),
      info ∈ s.listenList ∧ unsubMatches w args info = true :=
    fun info hinfo => List.mem_filter.mp hinfo
  have hnums : ((s.listenList.filter (unsubMatches w args)).map SubInfo.num).Nodup :=
    (List.filter_sublist.map _).nodup hk.nodup
  revert hgone hnums
  generalize hfilter : s.listenList.filter (unsubMatches w args) = gone
  intro hgone hnums
  have hnodup : (gone.map fun info => Item.sub info.num).Nodup := by
    refine List.pairwise_map.mpr ((List.pairwise_map.mp hnums).imp fun hne heq => hne ?_)
    exact Item.sub.inj heq
  have hmem : ∀ i ∈ gone.map (fun info => Item.sub info.num), i ∈ c.items := by
    intro i hi
    obtain ⟨info, hinfo, rfl⟩ := List.mem_map.mp hi
    obtain ⟨hlisted, hmatch⟩ := hgone info hinfo
    have hwsi : info.wsi = w := by
      simp only [unsubMatches, Bool.and_eq_true, decide_eq_true_eq] at hmatch
      exact hmatch.1
    simpa [State.live, hwsi, hc] using hk.listed info hlisted
  have hdes : destroyedBy (.reply w s.steps resp ::
      ((gone.map fun elem => Action.destroySub elem.num).reverse ++
        [.received w s.steps blob])) = (gone.map fun info => Item.sub info.num).reverse := by
    rw [destroyedBy, List.filterMap_cons_none rfl, List.filterMap_append, List.filterMap_reverse,
      List.filterMap_map, ← List.filterMap_eq_map]
    exact List.append_nil _
  refine .session none _ hc rfl (State.log_emit s _) ?_ (by simp) (.inl List.filter_sublist) ?_
    (by simp +contextual) (by simp) ?_
  · rw [hdes, items_unlinkSubs, items_of_sameQueues hs]
    exact ((List.reverse_perm _).append_left _).trans
      (perm_filter_append (hk.items_nodup hc) hnodup hmem)
  · -- the subscriptions that are left have other numbers
    intro info hinfo hin
    rw [hdes, List.mem_reverse] at hin
    obtain ⟨info', hinfo', heq⟩ := List.mem_map.mp hin
    obtain ⟨hlisted, hkept⟩ := List.mem_filter.mp hinfo
    obtain ⟨hlisted', hmatch⟩ := hgone info' hinfo'
    have hsame : info' = info :=
      List.inj_on_of_nodup_map hk.nodup hlisted' hlisted (Item.sub.inj heq)
    rw [hsame] at hmatch
    simp [hmatch] at hkept
  · intro a ha n hn
    simp only [List.mem_cons, List.mem_append, List.mem_reverse, List.mem_map,
      List.not_mem_nil, or_false] at ha
    rcases ha with rfl | ⟨elem, -, rfl⟩ | rfl
    all_goals cases hn

theorem turn_message {s t : State} {w : Wsi} {c : ClientSession} {x : ScalarAttrs}
    {blob : List Attr} (hc : s.clients w = some c)
    (h : MessageEffect s w c x blob t) (hk : s.Kept) :
    ∃ new acts, Turn s t w new acts := by
  have hadded : ∀ i : Item, (c.items ++ [i]).Perm (i :: c.items) := fun i =>
    List.perm_append_singleton i c.items
  cases h with
  | unheard =>
      refine ⟨none, _, .quiet [.received w s.steps blob] hc ?_ rfl rfl rfl rfl
        (by simp +contextual) (by simp [Action.starts])⟩
      exact (Function.update_eq_self_iff.mpr hc.symm).symm
  | answered hs _ =>
      exact ⟨none, _, .quiet [_, _] hc rfl rfl rfl (items_of_sameQueues hs) rfl
        (by simp +contextual) (by simp [Action.starts])⟩
  | @subscribed c' args _ hs =>
      have hitems : ClientSession.items { c' with rpcCallQ := c.rpcCallQ ++ [.sub s.steps] } =
          c.items ++ [.sub s.steps] := by
        simp [ClientSession.items, hs.accessCheckQ, WsRequest.item]
      refine ⟨some (.sub s.steps), _, .session _ [_, _] hc rfl rfl ?_ (by simp [Item.num])
        (.inr ⟨_, rfl, rfl, rfl⟩) (fun _ _ => List.not_mem_nil) (by simp +contextual)
        (fun _ _ _ => ⟨blob, by simp⟩) (by simp [Action.starts])⟩
      rw [hitems]
      exact (List.append_nil _).symm ▸ hadded _
  | unsubscribed c' _ _ hs _ => exact ⟨none, _, turn_unsubscribed hc hs hk⟩
  | callFailed _ hs =>
      refine ⟨some (.call s.steps), _, .session _ [_, _, _, _] hc rfl rfl ?_ (by simp [Item.num])
        (.inl (.refl _)) (fun info _ => by simp [destroyedBy, Action.destroyed])
        (by simp +contextual) (fun _ _ _ => ⟨blob, by simp⟩) (by simp [Action.starts])⟩
      rw [items_of_sameQueues hs]
      exact hadded _
  | @callStarted c' args ctx k _ _ hq hchecks hnum _ _ _ _ _ _ hkctx _ =>
      have hitems : c'.items = c.items ++ [.call s.steps] := by
        simp [ClientSession.items, hq, hchecks, AccessCheck.item, hkctx, WsRequest.item, hnum]
      refine ⟨some (.call s.steps), _, .session _ [_, _] hc rfl rfl ?_ (by simp [Item.num])
        (.inl (.refl _)) (fun _ _ => List.not_mem_nil) (by simp +contextual)
        (fun _ _ _ => ⟨blob, by simp⟩) (by simp [Action.starts])⟩
      rw [hitems]
      exact (List.append_nil _).symm ▸ hadded _

/-- A closing connection destroys everything its client has. -/
theorem turn_closed {s t : State} {w : Wsi} {c : ClientSession} (hc : s.clients w = some c)
    (hd : wsuPeerDeinit s w c = .ok t) : Turn s t w none (deinitActions c).reverse := by
  have hdes : destroyedBy (deinitActions c).reverse = c.items.reverse := by
    rw [destroyedBy, List.filterMap_reverse, ← destroyedBy, destroyedBy_deinitActions]
  obtain rfl := wsuPeerDeinit_ok hd
  constructor
  · exact fun w' hw => by simp [hw]
  · rfl
  · rw [hdes]
    simp [State.live, hc]
  · simp
  · exact .inl List.filter_sublist
  · intro info hinfo hin
    obtain ⟨-, hkept⟩ := List.mem_filter.mp hinfo
    rw [hdes, List.mem_reverse, sub_mem_items] at hin
    rw [Bool.not_eq_true', List.any_eq_false] at hkept
    exact hkept _ hin (by simp)
  · intro w' m blob hmem
    rcases mem_deinitActions (List.mem_reverse.mp hmem) with h | h | h
    all_goals simp at h
  · simp
  · intro a ha n hn
    rcases mem_deinitActions (List.mem_reverse.mp ha) with ⟨m, rfl⟩ | ⟨m, rfl⟩ | ⟨m, rfl, -⟩
    all_goals cases hn

theorem turn_effect {s t : State} {e : Event} (h : Effect s e t) (hn : s.Numbered)
    (hk : s.Kept) : ∃ w new acts, Turn s t w new acts := by
  cases h with
  | idle =>
      exact ⟨0, none, [], fun _ _ => rfl, rfl, by simp [destroyedBy], by simp, .inl (.refl _),
        by simp [destroyedBy], by simp, by simp, by simp⟩
  | @opened w hnone =>
      refine ⟨w, none, [], ?_, rfl, ?_, by simp, .inl (.refl _), by simp [destroyedBy], by simp,
        by simp, by simp⟩
      · exact fun w' hw => by simp [wsuPeerInit, State.setClient, hw]
      · simp [State.live, wsuPeerInit, State.setClient, hnone, ClientSession.items, destroyedBy]
  | @message w c blob now a t hc hm =>
      obtain ⟨new, acts, ht⟩ := turn_message hc hm hk
      exact ⟨w, new, acts, ht⟩
  | callData hc _ _ _ =>
      exact ⟨_, none, _, .quiet [_] hc rfl rfl rfl (items_updateCheck _) rfl (by simp)
        (by simp [Action.starts])⟩
  | eventData hc _ _ =>
      exact ⟨_, none, _, .quiet [] hc rfl rfl rfl (items_updateCheck _) rfl (by simp)
        (by simp [Action.starts])⟩
  | callInvoked hc hk' hctx hfind _ _ _ =>
      have hmem := call_mem_items.mpr ⟨_, (ClientSession.findCall_num hfind).2, rfl⟩
      refine ⟨_, none, _, .quiet [_, _] hc rfl rfl rfl ?_ rfl (by simp)
        (by simpa [Action.starts] using hmem)⟩
      rw [← items_unlinkCheck_call (hn _ _ hc) hk' hctx]
      exact items_updateCall fun _ => rfl
  | callRefused hc hk' hctx hfind =>
      refine ⟨_, none, _, .destroyCall [_, _, _] (hk.items_nodup hc) hc rfl rfl rfl hfind ?_ rfl
        (by simp) (by simp [Action.starts])⟩
      rw [← items_unlinkCheck_call (hn _ _ hc) hk' hctx]
      exact items_destroyCall
  | @callLost w c k ctx status _ attempt hc hk' hctx hfind _ _ _ hattempt =>
      have hitems : ((c.unlinkCheck k.num).unlinkCall ctx.num).percallCtxDestroy.items =
          c.items.filter (· ≠ .call ctx.num) := by
        rw [← items_unlinkCheck_call (hn w c hc) hk' hctx]
        exact items_destroyCall
      rcases hattempt with rfl | ⟨params, rfl⟩
      · exact ⟨w, none, _, .destroyCall [_, _, _] (hk.items_nodup hc) hc rfl rfl rfl hfind hitems
          rfl (by simp)
        (by simp [Action.starts])⟩
      · exact ⟨w, none, _, .destroyCall [_, _, _, _] (hk.items_nodup hc) hc rfl rfl rfl hfind
          hitems rfl (by simp)
        (by simp [Action.starts])⟩
  | eventDelivered hc hk' hctx _ =>
      exact ⟨_, none, _, .shrink [_, _] hc rfl rfl rfl
        (perm_unlinkCheck_event (hk.items_nodup hc) hk' hctx)
        (by simp [destroyedBy, Action.destroyed]) (by simp) (by simp [Action.starts])⟩
  | eventDropped hc hk' hctx =>
      exact ⟨_, none, _, .shrink [_] hc rfl rfl rfl
        (perm_unlinkCheck_event (hk.items_nodup hc) hk' hctx)
        (by simp [destroyedBy, Action.destroyed]) (by simp) (by simp [Action.starts])⟩
  | @retdata w c num msg hc =>
      refine ⟨w, none, _, .quiet [] hc rfl rfl rfl (items_updateCall fun ctx => ?_) rfl (by simp)
        (by simp [Action.starts])⟩
      exact (wsubusCallOnRetdata_frame msg ctx).1
  | invokeCompleted hc hfind _ =>
      exact ⟨_, none, _, .destroyCall [_, _] (hk.items_nodup hc) hc rfl rfl rfl hfind
        items_destroyCall rfl (by simp)
        (by simp [Action.starts])⟩
  | @eventStarted sub info c type msg a session result _ hc =>
      refine ⟨info.wsi, some (.notif s.steps), _, .session _ [] hc rfl rfl ?_ (by simp [Item.num])
        (.inl (.refl _)) (by simp [destroyedBy]) (by simp) (by simp) (by simp [Action.starts])⟩
      simp only [ClientSession.items, List.filterMap_append, List.append_assoc]
      exact (List.append_nil _).symm ▸ List.perm_middle
  | eventFailed =>
      refine ⟨0, some (.notif s.steps), [_], fun _ _ => rfl, rfl, ?_, by simp [Item.num],
        .inl (.refl _), by simp [destroyedBy, Action.destroyed], by simp, by simp,
        by simp [Action.starts]⟩
      exact List.perm_append_singleton _ _
  | @swept w c now hc =>
      refine ⟨w, none, _, .shrink _ hc rfl (State.log_emit s _) rfl (items_swept now c) ?_ ?_ ?_⟩
      · intro n hn
        obtain ⟨a, ha, hdes⟩ := List.mem_filterMap.mp hn
        obtain ⟨m, rfl⟩ := mem_sweptActions ha
        cases hdes
      · intro w' m blob hmem
        obtain ⟨n, hn⟩ := mem_sweptActions hmem
        cases hn
      · intro a ha n hn
        obtain ⟨m, rfl⟩ := mem_sweptActions ha
        cases hn
  | @closed w c _ hc hd => exact ⟨w, none, _, turn_closed hc hd⟩

theorem kept_step {cfg : Config} {s s' : State} {e : Event} (hn : s.Numbered) (hk : s.Kept)
    (h : step cfg s e = .ok s') : s'.Kept := by
  obtain ⟨t, ht, rfl⟩ := step_effect h
  obtain ⟨w, new, acts, hturn⟩ := turn_effect ht hn hk
  have hcounted : Turn s { t with steps := s.steps + 1 } w new acts :=
    ⟨hturn.other, hturn.log, hturn.perm, hturn.fresh, hturn.listed, hturn.kept,
      hturn.received, hturn.told, hturn.started⟩
  exact hk.turn hn hcounted rfl

theorem kept_init (n : ℕ) : (init n).Kept where
  custody := by
    constructor
    · exact fun _ => .nil
    · exact fun _ _ _ h => absurd h List.not_mem_nil
    · exact .nil
    · exact fun _ _ h => absurd h List.not_mem_nil
  below := fun _ h => absurd h List.not_mem_nil
  listed := fun _ h => absurd h List.not_mem_nil
  nodup := .nil
  told := by
    rintro w n (h | h)
    · exact absurd h List.not_mem_nil
    · exact absurd h List.not_mem_nil
  started := fun _ h => absurd h List.not_mem_nil
  receivedBelow := fun _ _ _ h => absurd h List.not_mem_nil
  receivedOnce := fun _ _ _ _ _ h => absurd h List.not_mem_nil

theorem kept_run {cfg : Config} {n : ℕ} {es : List Event} {s : State}
    (hrun : run (step cfg) (init n) es = .ok s) : s.Numbered ∧ s.Kept :=
  run_invariant_of_step (fun s => s.Numbered ∧ s.Kept)
    (fun _ _ _ hi h => ⟨numbered_step hi.1 h, kept_step hi.1 hi.2 h⟩)
    ⟨numbered_init n, kept_init n⟩ hrun

/-! ### Closing a connection -/

section

variable {s u : State} {w : Wsi} {c : ClientSession}

/-- The subscriptions on `listen_list` that a closing connection leaves are
those of the other clients. -/
theorem listenList_closed (hk : s.Kept) (hc : s.clients w = some c)
    (hd : wsuPeerDeinit s w c = .ok u) :
    u.listenList = s.listenList.filter fun info => info.wsi ≠ w := by
  have hlive : s.live w = c.items := by simp [State.live, hc]
  obtain rfl := wsuPeerDeinit_ok hd
  refine List.filter_congr fun info hinfo => ?_
  have hlisted := hk.listed info hinfo
  have hown : .sub info.num ∈ c.rpcCallQ ↔ info.wsi = w := by
    rw [← sub_mem_items, ← hlive]
    constructor
    · exact fun hmem => hk.custody.apart _ _ _ hlisted hmem
    · rintro rfl
      exact hlisted
  rw [Bool.eq_iff_iff, Bool.not_eq_true', List.any_eq_false, decide_eq_true_eq, ne_eq, ← hown]
  constructor
  · exact fun hnone hmem => hnone _ hmem (by simp)
  · intro hmem r hr
    cases r with
    | call ctx => simp
    | sub n =>
        simp only [decide_eq_true_eq]
        rintro rfl
        exact hmem hr

end

end Owsd.Server
