import Owsd.Server.LifeCycle
import Owsd.Server.Queues

/-!
The server keeps to the life cycle of messages.

The log of a state, restricted to the entries about one message, is the
history of that message. `Tracks` ties the history to the queues: a call in a
queue, or a check pending for it, stands where the history of its message
says. Each step moves at most one message on and disturbs no other.
-/

namespace Owsd.Server

open Rpc

/-- The message an entry of the log is about. -/
def Action.message : Action → Option ℕ
  | .received _ m _ => some m
  | .reply _ m _ => some m
  | .checkStart m _ _ _ => some m
  | .checkFail m => some m
  | .checkData m _ => some m
  | .checkDone m _ _ => some m
  | .invoke m _ _ _ _ => some m
  | _ => none

/-- The entries about the message `m`. -/
def history (m : ℕ) (log : List Action) : List Action :=
  log.filter fun a => a.message = some m

theorem mem_history {m : ℕ} {log : List Action} {a : Action} :
    a ∈ history m log ↔ a ∈ log ∧ a.message = some m := by
  simp [history]

@[simp] theorem history_append (m : ℕ) (l l' : List Action) :
    history m (l ++ l') = history m l ++ history m l' := by
  simp [history]

theorem history_eq_nil {m : ℕ} {l : List Action} (h : ∀ a ∈ l, a.message ≠ some m) :
    history m l = [] := by
  rw [history, List.filter_eq_nil_iff]
  intro a ha
  simp [h a ha]

/-- New entries about other messages do not change a history. -/
theorem history_append_of_ne {m : ℕ} {acts log : List Action}
    (h : ∀ a ∈ acts, a.message ≠ some m) : history m (acts ++ log) = history m log := by
  rw [history_append, history_eq_nil h, List.nil_append]

/-! ### The invariant -/

/-- A queued call stands where the stage of its message says. -/
def Mirrors (stage : Stage) (w : Wsi) (ctx : PercallCtx) : Prop :=
  ∃ blob args, ctx.id = jsonrpcId blob ∧ ctx.callArgs.sid = args.sid ∧
    ctx.callArgs.object = args.object ∧ ctx.callArgs.method = args.method ∧
    (ctx.invokeReq = false ∧ (∃ last, stage = .waiting w blob args last) ∨
      ctx.invokeReq = true ∧ stage = .invoked w blob args)

/-- A pending check belongs to a waiting call; if rpcd decides it, its result
is what the last part of the answer said. -/
def Awaits (stage : Stage) (w : Wsi) (k : AccessCheck) : Prop :=
  ∃ blob args last, stage = .waiting w blob args last ∧
    (k.session = true → k.result = last.getD false)

theorem Mirrors.ownedBy {stage : Stage} {w : Wsi} {ctx : PercallCtx} (h : Mirrors stage w ctx) :
    stage.OwnedBy w := by
  obtain ⟨blob, args, -, -, -, -, ⟨-, last, rfl⟩ | ⟨-, rfl⟩⟩ := h
  · rfl
  · rfl

theorem Awaits.ownedBy {stage : Stage} {w : Wsi} {k : AccessCheck} (h : Awaits stage w k) :
    stage.OwnedBy w := by
  obtain ⟨blob, args, last, rfl, -⟩ := h
  rfl

/-- The queues of the client on `w` agree with the stage of the message
`m`. -/
structure ClientSession.Agrees (c : ClientSession) (w : Wsi) (m : ℕ) (stage : Stage) : Prop where
  calls : ∀ ctx, .call ctx ∈ c.rpcCallQ → ctx.num = m → Mirrors stage w ctx
  checks : ∀ k ∈ c.accessCheckQ, k.ctx = .call m → Awaits stage w k

/-- The message `m` is in a stage that its history leads to and all queues
agree with. -/
structure State.At (s : State) (m : ℕ) (stage : Stage) : Prop where
  life : Life m stage (history m s.log)
  fresh : s.steps ≤ m → stage = .unborn
  queues : ∀ w c, s.clients w = some c → c.Agrees w m stage

def State.Tracks (s : State) : Prop :=
  ∀ m, ∃ stage, s.At m stage

/-- From one session to the next, nothing changed for the message `m` except
that it may have left the queues. -/
structure Undisturbed (m : ℕ) (c c' : ClientSession) : Prop where
  calls : ∀ ctx', .call ctx' ∈ c'.rpcCallQ → ctx'.num = m → ∃ ctx, .call ctx ∈ c.rpcCallQ ∧
    ctx.num = m ∧ ctx'.id = ctx.id ∧ ctx'.callArgs = ctx.callArgs ∧
    ctx'.invokeReq = ctx.invokeReq
  checks : ∀ k ∈ c'.accessCheckQ, k.ctx = .call m → k ∈ c.accessCheckQ

theorem ClientSession.Agrees.undisturbed {c c' : ClientSession} {w : Wsi} {m : ℕ}
    {stage : Stage} (h : c.Agrees w m stage) (hu : Undisturbed m c c') : c'.Agrees w m stage where
  calls := by
    intro ctx' hctx' hnum
    obtain ⟨ctx, hctx, hnum', hid, hargs, hinv⟩ := hu.calls ctx' hctx' hnum
    rw [Mirrors, hid, hargs, hinv]
    exact h.calls ctx hctx hnum'
  checks := fun k hk hm => h.checks k (hu.checks k hk hm) hm

/-! ### Moving on -/

theorem State.At.keep {s t : State} {w : Wsi} {c c' : ClientSession} {m : ℕ} {stage : Stage}
    (h : s.At m stage) (hsteps : t.steps = s.steps + 1)
    (hhist : history m t.log = history m s.log) (hc : s.clients w = some c)
    (hclients : t.clients = Function.update s.clients w (some c')) (hu : Undisturbed m c c') :
    t.At m stage where
  life := by
    rw [hhist]
    exact h.life
  fresh := fun hm => h.fresh (by omega)
  queues := by
    rw [hclients]
    exact forall_update (fun w' c' _ hc' => h.queues w' c' hc')
      ((h.queues w c hc).undisturbed hu)

/-- A message of the client on `w`, or a new one, moves on to another
stage. -/
theorem State.At.move {s t : State} {w : Wsi} {c' : ClientSession} {m : ℕ}
    {stage stage' : Stage} (h : s.At m stage) (hown : ∀ w', stage.OwnedBy w' → w' = w)
    (hsteps : t.steps = s.steps + 1) (hm : m ≤ s.steps) (hlife : Life m stage' (history m t.log))
    (hclients : t.clients = Function.update s.clients w (some c'))
    (hagrees : c'.Agrees w m stage') : t.At m stage' where
  life := hlife
  fresh := fun hle => by omega
  queues := by
    rw [hclients]
    refine forall_update (fun w' c'' hww hc'' => ⟨?_, ?_⟩) hagrees
    · intro ctx hctx hnum
      exact absurd (hown w' ((h.queues w' c'' hc'').calls ctx hctx hnum).ownedBy) hww
    · intro k hk hkm
      exact absurd (hown w' ((h.queues w' c'' hc'').checks k hk hkm).ownedBy) hww

namespace Undisturbed

variable {m n : ℕ} {c c' : ClientSession}

theorem refl (m : ℕ) (c : ClientSession) : Undisturbed m c c where
  calls := fun ctx hctx hnum => ⟨ctx, hctx, hnum, rfl, rfl, rfl⟩
  checks := fun _ hk _ => hk

theorem trans {c'' : ClientSession} (h : Undisturbed m c c') (h' : Undisturbed m c' c'') :
    Undisturbed m c c'' where
  calls := by
    intro ctx'' hctx'' hnum
    obtain ⟨ctx', hctx', hnum', h₁, h₂, h₃⟩ := h'.calls ctx'' hctx'' hnum
    obtain ⟨ctx, hctx, hnum, h₁', h₂', h₃'⟩ := h.calls ctx' hctx' hnum'
    exact ⟨ctx, hctx, hnum, h₁.trans h₁', h₂.trans h₂', h₃.trans h₃'⟩
  checks := fun k hk hm => h.checks k (h'.checks k hk hm) hm

theorem of_subset (hcalls : ∀ ctx, .call ctx ∈ c'.rpcCallQ → .call ctx ∈ c.rpcCallQ)
    (hchecks : ∀ k ∈ c'.accessCheckQ, k.ctx = .call m → k ∈ c.accessCheckQ) :
    Undisturbed m c c' where
  calls := fun ctx hctx hnum => ⟨ctx, hcalls ctx hctx, hnum, rfl, rfl, rfl⟩
  checks := hchecks

theorem of_sameQueues (h : SameQueues c c') : Undisturbed m c c' :=
  of_subset (fun _ hctx => h.rpcCallQ ▸ hctx) (fun _ hk _ => h.accessCheckQ ▸ hk)

theorem unlinkCheck : Undisturbed m c (c.unlinkCheck n) :=
  of_subset (fun _ hctx => hctx) fun _ hk _ => (ClientSession.mem_unlinkCheck.mp hk).1

theorem destroyCall : Undisturbed m c (c.unlinkCall n).percallCtxDestroy :=
  of_subset (fun _ hctx => (ClientSession.call_mem_unlinkCall.mp hctx).1) fun _ hk _ => hk

theorem updateCall (hne : m ≠ n) {f : PercallCtx → PercallCtx}
    (hf : ∀ ctx, (f ctx).num = ctx.num) : Undisturbed m c (c.updateCall n f) where
  calls := by
    intro ctx hctx hnum
    rw [ClientSession.call_mem_updateCall_of_ne hf (by omega)] at hctx
    exact ⟨ctx, hctx, hnum, rfl, rfl, rfl⟩
  checks := fun _ hk _ => hk

theorem updateCheck (hne : ∀ k ∈ c.accessCheckQ, k.ctx = .call m → k.num ≠ n) (b : Bool) :
    Undisturbed m c (c.updateCheck n b) where
  calls := fun ctx hctx hnum => ⟨ctx, hctx, hnum, rfl, rfl, rfl⟩
  checks := by
    intro k hk hm
    obtain ⟨k', hk', rfl⟩ := ClientSession.mem_updateCheck.mp hk
    have hm' : k'.ctx = .call m := by
      split at hm
      · exact hm
      · exact hm
    rw [if_neg (hne k' hk' hm')]
    exact hk'

end Undisturbed

/-- A step moves the message `n` of the client on `w` on to another stage and
disturbs no other message. -/
theorem State.Tracks.touch {s t : State} {w : Wsi} {c c' : ClientSession} {n : ℕ}
    {stage : Stage} (hi : s.Tracks) (stage' : Stage) (acts : List Action) (hat : s.At n stage)
    (hown : ∀ w', stage.OwnedBy w' → w' = w) (hn : n ≤ s.steps) (hc : s.clients w = some c)
    (hsteps : t.steps = s.steps + 1)
    (hclients : t.clients = Function.update s.clients w (some c'))
    (hlog : t.log = acts ++ s.log) (hacts : ∀ a ∈ acts, ∀ m, a.message = some m → m = n)
    (hlife : Life n stage' (history n acts ++ history n s.log)) (hagrees : c'.Agrees w n stage')
    (hu : ∀ m, m ≠ n → Undisturbed m c c') : t.Tracks := by
  intro m
  by_cases hmn : m = n
  · subst hmn
    refine ⟨stage', hat.move hown hsteps hn ?_ hclients hagrees⟩
    rw [hlog, history_append]
    exact hlife
  · obtain ⟨stage₀, hat₀⟩ := hi m
    refine ⟨stage₀, hat₀.keep hsteps ?_ hc hclients (hu m hmn)⟩
    rw [hlog]
    exact history_append_of_ne fun a ha heq => hmn (hacts a ha m heq)

theorem State.Tracks.quiet {s t : State} {w : Wsi} {c c' : ClientSession} (hi : s.Tracks)
    (acts : List Action) (hc : s.clients w = some c) (hsteps : t.steps = s.steps + 1)
    (hclients : t.clients = Function.update s.clients w (some c'))
    (hlog : t.log = acts ++ s.log) (hacts : ∀ a ∈ acts, a.message = none)
    (hu : ∀ m, Undisturbed m c c') : t.Tracks := by
  intro m
  obtain ⟨stage, hat⟩ := hi m
  refine ⟨stage, hat.keep hsteps ?_ hc hclients (hu m)⟩
  rw [hlog]
  exact history_append_of_ne fun a ha heq => by simp [hacts a ha] at heq

/-! ### Messages -/

theorem ClientSession.Agrees.of_unborn {c : ClientSession} {w : Wsi} {m : ℕ}
    (h : c.Agrees w m .unborn) (stage : Stage) : c.Agrees w m stage where
  calls := fun ctx hctx hnum => (h.calls ctx hctx hnum).ownedBy.elim
  checks := fun k hk hm => (h.checks k hk hm).ownedBy.elim

theorem State.Tracks.born {s t : State} {w : Wsi} {c c' : ClientSession} (hi : s.Tracks)
    (stage : Stage) (acts : List Action) (hc : s.clients w = some c)
    (hsteps : t.steps = s.steps + 1)
    (hclients : t.clients = Function.update s.clients w (some c'))
    (hlog : t.log = acts ++ s.log) (hacts : ∀ a ∈ acts, ∀ m, a.message = some m → m = s.steps)
    (hlife : Life s.steps stage (history s.steps acts))
    (hagrees : c.Agrees w s.steps .unborn → c'.Agrees w s.steps stage)
    (hu : ∀ m, m ≠ s.steps → Undisturbed m c c') : t.Tracks := by
  obtain ⟨stage₀, hat⟩ := hi s.steps
  obtain rfl := hat.fresh (le_refl _)
  refine hi.touch stage acts hat (fun w' h => h.elim) (le_refl _) hc hsteps hclients hlog hacts ?_
    (hagrees (hat.queues w c hc)) hu
  rw [hat.life.unborn_shape, List.append_nil]
  exact hlife

/-- The message of this step is over with it, and the queues hold nothing
new. -/
theorem State.Tracks.bornOver {s t : State} {w : Wsi} {c c' : ClientSession} (hi : s.Tracks)
    (acts : List Action) (hc : s.clients w = some c) (hsteps : t.steps = s.steps + 1)
    (hclients : t.clients = Function.update s.clients w (some c'))
    (hlog : t.log = acts ++ s.log) (hacts : ∀ a ∈ acts, ∀ m, a.message = some m → m = s.steps)
    (hlife : Life s.steps .over (history s.steps acts)) (hu : ∀ m, Undisturbed m c c') :
    t.Tracks :=
  hi.born .over acts hc hsteps hclients hlog hacts hlife
    (fun h => (h.undisturbed (hu _)).of_unborn _) fun m _ => hu m

theorem tracks_message {s t : State} {w : Wsi} {c : ClientSession} {x : ScalarAttrs}
    {blob : List Attr} (hc : s.clients w = some c)
    (h : MessageEffect s w c x blob t) (hi : s.Tracks) :
    { t with steps := s.steps + 1 }.Tracks := by
  cases h with
  | unheard _ =>
      have hsame : s.clients = Function.update s.clients w (some c) := by simp [← hc]
      refine hi.bornOver [_] hc rfl hsame rfl (by simp [Action.message]) ?_ fun m => .refl m c
      simpa [history, Action.message] using Life.unheard
  | answered hs hresp =>
      refine hi.bornOver [_, _] hc rfl rfl rfl (by simp [Action.message]) ?_
        fun m => .of_sameQueues hs
      simpa [history, Action.message] using Life.answered hresp
  | @subscribed c' args _ hs =>
      have hu : ∀ m, Undisturbed m c { c' with rpcCallQ := c.rpcCallQ ++ [.sub s.steps] } :=
        fun m => .of_subset (by simp) fun _ hk _ => hs.accessCheckQ ▸ hk
      refine hi.bornOver [_, _] hc rfl rfl rfl (by simp [Action.message]) ?_ hu
      simpa [history, Action.message] using Life.answered (isResponse_ubus _ _ _)
  | @unsubscribed c' args resp _ _ hs hresp =>
      have hu : ∀ m gone, Undisturbed m c (c'.unlinkSubs gone) := by
        intro m gone
        refine (Undisturbed.of_sameQueues hs).trans (.of_subset ?_ fun _ hk _ => hk)
        exact fun ctx hctx => ClientSession.call_mem_unlinkSubs.mp hctx
      have hgone : ∀ a ∈ ((s.listenList.filter (unsubMatches w args)).map fun elem =>
          Action.destroySub elem.num).reverse, a.message = none := by
        intro a ha
        obtain ⟨elem, -, rfl⟩ := List.mem_map.mp (List.mem_reverse.mp ha)
        rfl
      refine hi.bornOver _ hc rfl rfl (State.log_emit s _) ?_ ?_ fun m => hu m _
      · intro a ha m hm
        rcases List.mem_cons.mp ha with rfl | ha
        · cases hm
          rfl
        · rcases List.mem_append.mp ha with ha | ha
          · rw [hgone a ha] at hm
            cases hm
          · rw [List.mem_singleton.mp ha] at hm
            cases hm
            rfl
      · have hnil := history_eq_nil (m := s.steps) fun a ha heq => by
          rw [hgone a ha] at heq
          cases heq
        rw [← List.singleton_append, history_append, history_append, hnil]
        simpa [history, Action.message] using Life.answered hresp
  | callFailed hreq hs =>
      refine hi.bornOver [_, _, _, _] hc rfl rfl rfl (by simp [Action.message]) ?_
        fun m => .of_sameQueues hs
      simpa [history, Action.message] using Life.failed hreq
  | @callStarted c' args ctx k hreq _ hq hchecks hnum hid hinv h₁ h₂ h₃ hknum hkctx hresult =>
      refine hi.born (.waiting w blob args none) [_, _] hc rfl rfl rfl
        (by simp [Action.message]) ?_ ?_ ?_
      · simpa [history, Action.message] using Life.started hreq
      · intro h
        constructor
        · intro ctx' hctx' hnum'
          rw [hq, List.mem_append, List.mem_singleton] at hctx'
          rcases hctx' with hctx' | heq
          · exact (h.calls ctx' hctx' hnum').ownedBy.elim
          · cases heq
            exact ⟨blob, args, hid, h₁, h₂, h₃, Or.inl ⟨hinv.1, none, rfl⟩⟩
        · intro k' hk' hkm
          rw [hchecks, List.mem_append, List.mem_singleton] at hk'
          rcases hk' with hk' | rfl
          · exact (h.checks k' hk' hkm).ownedBy.elim
          · exact ⟨blob, args, none, rfl, hresult⟩
      · intro m hm
        constructor
        · intro ctx' hctx' hnum'
          rw [hq, List.mem_append, List.mem_singleton] at hctx'
          rcases hctx' with hctx' | heq
          · exact ⟨ctx', hctx', hnum', rfl, rfl, rfl⟩
          · cases heq
            exact absurd (hnum'.symm.trans hnum) hm
        · intro k' hk' hkm
          rw [hchecks, List.mem_append, List.mem_singleton] at hk'
          rcases hk' with hk' | rfl
          · exact hk'
          · rw [hkctx] at hkm
            cases hkm
            exact absurd rfl hm

/-! ### The other callbacks -/

/-- What is known of a waiting call from its two queue entries. -/
theorem State.At.pending {s : State} {w : Wsi} {c : ClientSession} {k : AccessCheck}
    {ctx : PercallCtx} {stage : Stage} (hat : s.At ctx.num stage) (hc : s.clients w = some c)
    (hk : k ∈ c.accessCheckQ) (hctx : k.ctx = .call ctx.num) (hcall : .call ctx ∈ c.rpcCallQ) :
    ∃ blob args last, stage = .waiting w blob args last ∧ ctx.id = jsonrpcId blob ∧
      ctx.callArgs.sid = args.sid ∧ ctx.callArgs.object = args.object ∧
      ctx.callArgs.method = args.method ∧ (k.session = true → k.result = last.getD false) := by
  obtain ⟨blob, args, last, rfl, hresult⟩ := (hat.queues w c hc).checks k hk hctx
  obtain ⟨blob', args', hid, h₁, h₂, h₃, hst⟩ := (hat.queues w c hc).calls ctx hcall rfl
  rcases hst with ⟨-, last', heq⟩ | ⟨-, heq⟩
  · cases heq
    exact ⟨blob, args, last, rfl, hid, h₁, h₂, h₃, hresult⟩
  · cases heq

theorem granted_of_result {k : AccessCheck} {status : Option Int} {last : Option Bool}
    (hlast : k.session = true → k.result = last.getD false) (hres : k.result = true)
    (hst : ∀ st ∈ status, k.session = true ∧ st = ubusStatusOk) : Granted status last := by
  intro st hmem
  obtain ⟨hsess, hok⟩ := hst st hmem
  refine ⟨hok, ?_⟩
  have hget : last.getD false = true := by rw [← hlast hsess, hres]
  cases last with
  | none => cases hget
  | some b => simpa using hget

theorem agrees_over {c : ClientSession} {w : Wsi} {k : AccessCheck} {n m : ℕ}
    (hn : c.Numbered n) (hk : k ∈ c.accessCheckQ) (hctx : k.ctx = .call m) :
    ((c.unlinkCheck k.num).unlinkCall m).percallCtxDestroy.Agrees w m .over where
  calls := by
    intro ctx hctx hnum
    exact absurd hnum (ClientSession.call_mem_unlinkCall.mp hctx).2
  checks := by
    intro k' hk' hm
    obtain ⟨hk', hne⟩ := ClientSession.mem_unlinkCheck.mp hk'
    exact absurd ((hn.ofCall k' hk' m hm).trans (hn.ofCall k hk m hctx).symm) hne

theorem tracks_callData {s : State} {w : Wsi} {c : ClientSession} {k : AccessCheck} {num : ℕ}
    (msg : List Attr) (hi : s.Tracks) (hn : s.Numbered) (hc : s.clients w = some c)
    (hk : k ∈ c.accessCheckQ) (hctx : k.ctx = .call num) :
    { ((s.emit [.checkData num msg]).setClient w (c.updateCheck k.num (partAccess msg))) with
      steps := s.steps + 1 }.Tracks := by
  obtain ⟨stage, hat⟩ := hi num
  have hag := hat.queues w c hc
  obtain ⟨blob, args, last, rfl, -⟩ := hag.checks k hk hctx
  have hnum : k.num = num := (hn w c hc).ofCall k hk num hctx
  have hlt : num < s.steps := hnum ▸ (hn w c hc).checks k hk
  refine hi.touch (.waiting w blob args (some (partAccess msg))) [_] hat
    (fun _ h => h.symm) hlt.le hc rfl rfl rfl ?_ ?_ ⟨?_, ?_⟩ ?_
  · simp [Action.message]
  · simpa [history, Action.message] using hat.life.data msg
  · intro ctx hcall hcn
    obtain ⟨blob', args', hid, h₁, h₂, h₃, hst⟩ := hag.calls ctx hcall hcn
    rcases hst with ⟨hinv, last', heq⟩ | ⟨-, heq⟩
    · cases heq
      exact ⟨blob, args, hid, h₁, h₂, h₃, Or.inl ⟨hinv, _, rfl⟩⟩
    · cases heq
  · intro k' hk' hm
    obtain ⟨k₀, hk₀, rfl⟩ := ClientSession.mem_updateCheck.mp hk'
    have hm₀ : k₀.ctx = .call num := by
      split at hm
      · exact hm
      · exact hm
    have hnum₀ : k₀.num = k.num := ((hn w c hc).ofCall k₀ hk₀ num hm₀).trans hnum.symm
    rw [if_pos hnum₀]
    exact ⟨blob, args, _, rfl, fun _ => rfl⟩
  · intro m hm
    refine .updateCheck (fun k' hk' hm' heq => hm ?_) _
    rw [← (hn w c hc).ofCall k' hk' m hm', heq, hnum]

theorem tracks_callInvoked {s : State} {w : Wsi} {c : ClientSession} {k : AccessCheck}
    {ctx : PercallCtx} {status : Option Int} (params : List Attr) (hi : s.Tracks)
    (hn : s.Numbered) (hc : s.clients w = some c) (hk : k ∈ c.accessCheckQ)
    (hctx : k.ctx = .call ctx.num) (hfind : c.findCall ctx.num = some ctx)
    (hres : k.result = true) (hst : ∀ st ∈ status, k.session = true ∧ st = ubusStatusOk) :
    { ((s.emit [.invoke ctx.num ctx.callArgs.sid ctx.callArgs.object ctx.callArgs.method params,
        .checkDone ctx.num status true]).setClient w
        ((c.unlinkCheck k.num).updateCall ctx.num fun ctx' =>
          { ctx' with callArgs := { ctx.callArgs with paramsBuf := params }, invokeReq := true }))
      with steps := s.steps + 1 }.Tracks := by
  obtain ⟨-, hcall⟩ := ClientSession.findCall_num hfind
  obtain ⟨stage, hat⟩ := hi ctx.num
  have hag := hat.queues w c hc
  obtain ⟨blob, args, last, rfl, hid, h₁, h₂, h₃, hlast⟩ := hat.pending hc hk hctx hcall
  refine hi.touch (.invoked w blob args) [_, _] hat (fun _ h => h.symm)
    ((hn w c hc).calls ctx hcall).le hc rfl rfl rfl ?_ ?_ ⟨?_, ?_⟩ ?_
  · simp [Action.message]
  · rw [h₁, h₂, h₃]
    simpa [history, Action.message] using
      hat.life.invoked params (granted_of_result hlast hres hst)
  · intro ctx' hctx' hnum
    obtain ⟨ctx₀, hctx₀, rfl⟩ := ClientSession.call_mem_updateCall.mp hctx'
    have hnum₀ : ctx₀.num = ctx.num := by
      split at hnum
      · exact hnum
      · exact hnum
    obtain ⟨blob', args', hid₀, -, -, -, ⟨-, last', heq⟩ | ⟨-, heq⟩⟩ :=
      hag.calls ctx₀ hctx₀ hnum₀
    · cases heq
      rw [if_pos hnum₀]
      exact ⟨blob, args, hid₀, h₁, h₂, h₃, Or.inr ⟨rfl, rfl⟩⟩
    · cases heq
  · intro k' hk' hm
    obtain ⟨hk', hne⟩ := ClientSession.mem_unlinkCheck.mp hk'
    have hnum' := (hn w c hc).ofCall k' hk' _ hm
    exact absurd (hnum'.trans ((hn w c hc).ofCall k hk _ hctx).symm) hne
  · exact fun m hm => Undisturbed.unlinkCheck.trans (.updateCall hm fun _ => rfl)

theorem State.Tracks.ended {s t : State} {w : Wsi} {c : ClientSession} {k : AccessCheck}
    {ctx : PercallCtx} {blob : List Attr} {args : UbusrpcBlobCall} {last : Option Bool}
    (hi : s.Tracks) (hn : s.Numbered) (acts : List Action)
    (hat : s.At ctx.num (.waiting w blob args last)) (hc : s.clients w = some c)
    (hk : k ∈ c.accessCheckQ) (hctx : k.ctx = .call ctx.num) (hcall : .call ctx ∈ c.rpcCallQ)
    (hsteps : t.steps = s.steps + 1)
    (hclients : t.clients = Function.update s.clients w
      (some ((c.unlinkCheck k.num).unlinkCall ctx.num).percallCtxDestroy))
    (hlog : t.log = acts ++ s.log) (hacts : ∀ a ∈ acts, ∀ m, a.message = some m → m = ctx.num)
    (hlife : Life ctx.num .over (history ctx.num acts ++ history ctx.num s.log)) : t.Tracks := by
  refine hi.touch .over acts hat (fun _ h => h.symm) ((hn w c hc).calls ctx hcall).le hc hsteps
    hclients hlog hacts hlife (agrees_over (hn w c hc) hk hctx) ?_
  exact fun m _ => Undisturbed.unlinkCheck.trans .destroyCall

theorem tracks_effect {s t : State} {e : Event} (h : Effect s e t) (hi : s.Tracks)
    (hn : s.Numbered) : { t with steps := s.steps + 1 }.Tracks := by
  cases h with
  | idle =>
      intro m
      obtain ⟨stage, hat⟩ := hi m
      exact ⟨stage, hat.life, fun hm => hat.fresh (Nat.le_of_succ_le hm), hat.queues⟩
  | opened hnone =>
      intro m
      obtain ⟨stage, hat⟩ := hi m
      refine ⟨stage, hat.life, fun hm => hat.fresh (Nat.le_of_succ_le hm), ?_⟩
      exact forall_update (fun w' c' _ hc' => hat.queues w' c' hc') ⟨by simp, by simp⟩
  | message hc hm => exact tracks_message hc hm hi
  | callData hc hk _ hctx => exact tracks_callData _ hi hn hc hk hctx
  | @eventData w c k ev msg hc hk hctx =>
      refine hi.quiet [] hc rfl rfl rfl (by simp) fun m => ?_
      refine .updateCheck (fun k' hk' hm heq => ?_) _
      rw [(hn w c hc).distinct k' hk' k hk heq, hctx] at hm
      cases hm
  | callInvoked hc hk hctx hfind hres hst _ =>
      exact tracks_callInvoked _ hi hn hc hk hctx hfind hres hst
  | @callRefused w c k ctx status _ hc hk hctx hfind =>
      obtain ⟨-, hcall⟩ := ClientSession.findCall_num hfind
      obtain ⟨stage, hat⟩ := hi ctx.num
      obtain ⟨blob, args, last, rfl, hid, -⟩ := hat.pending hc hk hctx hcall
      refine hi.ended hn [_, _, _] hat hc hk hctx hcall rfl rfl rfl ?_ ?_
      · simp [Action.message]
      · rw [hid]
        simpa [history, Action.message] using hat.life.refused status
  | @callLost w c k ctx status _ attempt hc hk hctx hfind hres hst _ hattempt =>
      obtain ⟨-, hcall⟩ := ClientSession.findCall_num hfind
      obtain ⟨stage, hat⟩ := hi ctx.num
      obtain ⟨blob, args, last, rfl, hid, h₁, h₂, h₃, hlast⟩ := hat.pending hc hk hctx hcall
      have hg := granted_of_result hlast hres hst
      rcases hattempt with rfl | ⟨params, rfl⟩
      · refine hi.ended hn [_, _, _] hat hc hk hctx hcall rfl rfl rfl ?_ ?_
        · simp [Action.message]
        · rw [hid]
          simpa [history, Action.message] using hat.life.lost hg
      · refine hi.ended hn [_, _, _, _] hat hc hk hctx hcall rfl rfl rfl ?_ ?_
        · simp [Action.message]
        · rw [hid, h₁, h₂, h₃]
          simpa [history, Action.message, permissionDenied] using
            (hat.life.invoked params hg).completed (isResponse_ubus _ _ _)
  | eventDelivered hc _ _ _ =>
      exact hi.quiet [_, _] hc rfl rfl rfl (by simp [Action.message])
        fun m => .unlinkCheck
  | eventDropped hc _ _ =>
      exact hi.quiet [_] hc rfl rfl rfl (by simp [Action.message]) fun m => .unlinkCheck
  | @retdata w c num msg hc =>
      refine hi.quiet [] hc rfl rfl rfl (by simp) fun m => ⟨?_, fun _ hk _ => hk⟩
      intro ctx hctx hnum
      obtain ⟨ctx₀, hctx₀, rfl⟩ := ClientSession.call_mem_updateCall.mp hctx
      by_cases heq : ctx₀.num = num
      · obtain ⟨h₁, h₂, h₃, h₄⟩ := wsubusCallOnRetdata_frame msg ctx₀
        rw [if_pos heq] at hnum ⊢
        exact ⟨ctx₀, hctx₀, h₁.symm.trans hnum, h₂, h₃, h₄⟩
      · rw [if_neg heq] at hnum ⊢
        exact ⟨ctx₀, hctx₀, hnum, rfl, rfl, rfl⟩
  | @invokeCompleted w c ctx status hc hfind hinv =>
      obtain ⟨-, hcall⟩ := ClientSession.findCall_num hfind
      obtain ⟨stage, hat⟩ := hi ctx.num
      have hag := hat.queues w c hc
      obtain ⟨blob, args, hid, -, -, -, ⟨hinv', -⟩ | ⟨-, rfl⟩⟩ := hag.calls ctx hcall rfl
      · simp [hinv] at hinv'
      · refine hi.touch .over [_, _] hat (fun _ h => h.symm)
          ((hn w c hc).calls ctx hcall).le hc rfl rfl rfl ?_ ?_ ⟨?_, ?_⟩ fun m _ => .destroyCall
        · simp [Action.message]
        · rw [hid]
          simpa [history, Action.message] using hat.life.completed (isResponse_ubus _ _ _)
        · exact fun ctx' hctx' hnum =>
            absurd hnum (ClientSession.call_mem_unlinkCall.mp hctx').2
        · intro k hk hm
          obtain ⟨_, _, _, heq, -⟩ := hag.checks k hk hm
          cases heq
  | eventStarted _ hc =>
      refine hi.quiet [] hc rfl rfl rfl (by simp)
        fun m => .of_subset (fun _ hctx => hctx) fun k hk hm => ?_
      rcases List.mem_append.mp hk with hk | hk
      · exact hk
      · rw [List.mem_singleton.mp hk] at hm
        cases hm
  | eventFailed =>
      intro m
      obtain ⟨stage, hat⟩ := hi m
      refine ⟨stage, ?_, fun hm => hat.fresh (Nat.le_of_succ_le hm), hat.queues⟩
      simpa [history, Action.message] using hat.life
  | swept hc =>
      refine hi.quiet _ hc rfl rfl (State.log_emit s _) ?_
        fun m => .of_subset (fun _ hctx => (List.mem_filter.mp hctx).1) fun _ hk _ => hk
      intro a ha
      obtain ⟨n, rfl⟩ := mem_sweptActions ha
      rfl
  | @closed w c _ hc hd =>
      obtain rfl := wsuPeerDeinit_ok hd
      intro m
      obtain ⟨stage, hat⟩ := hi m
      refine ⟨stage, ?_, fun hm => hat.fresh (Nat.le_of_succ_le hm),
        forall_drop fun w' c' _ hc' => hat.queues w' c' hc'⟩
      have hquiet : history m ((deinitActions c).reverse ++ s.log) = history m s.log := by
        refine history_append_of_ne fun a ha => ?_
        rcases mem_deinitActions (List.mem_reverse.mp ha) with ⟨n, rfl⟩ | ⟨n, rfl⟩ | ⟨n, rfl, -⟩
        all_goals simp [Action.message]
      exact hquiet ▸ hat.life

theorem tracks_init (n : ℕ) : (init n).Tracks := by
  intro m
  refine ⟨.unborn, .unborn, fun _ => rfl, ?_⟩
  intro w c hc
  cases hc

theorem tracks_run {cfg : Config} {s s' : State} {es : List Event} (hn : s.Numbered)
    (ht : s.Tracks) (hrun : run (step cfg) s es = .ok s') : s'.Numbered ∧ s'.Tracks := by
  refine run_invariant_of_step (fun s => s.Numbered ∧ s.Tracks) ?_ ⟨hn, ht⟩ hrun
  rintro s e s' ⟨hn, ht⟩ h
  refine ⟨numbered_step hn h, ?_⟩
  obtain ⟨t, heff, rfl⟩ := step_effect h
  exact tracks_effect heff ht hn

end Owsd.Server
