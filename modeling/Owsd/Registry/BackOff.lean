import Owsd.Registry.LifeCycle

/-!
The delay before a client connects again.

Each failed connection of a client lengthens the delay by one retry timeout,
until one is established or closed. `Tally` counts the failures the way lws
reports them, by the client a connection was opened for; the registry counts
them in `reconnect_count`, for the client it finds by its pointer. The two
agree, and the delay is the product, as long as the product is an `int`.
-/

namespace Owsd.Registry

open Numbered

/-! ### The failures in a row -/

inductive Report where
  | failed
  /-- It was created, its connection was established, or it was closed. -/
  | reset
  deriving DecidableEq

/-- The connection with the address, if lws has it. -/
def State.conn (s : State) (wsi : Wsi) : Option Conn := s.conns.find? fun conn => conn.wsi = wsi

def report (s : State) : Event → Option (ℕ × Report)
  | .create _ _ _ _ => some (s.created, .reset)
  | .add _ _ => some (s.created, .reset)
  | .timer num (.refused wsi) =>
      match s.clients.find? fun c => c.num = num with
      | none => none
      | some c => if c.timer = none ∨ s.taken (.refused wsi) then none else some (num, .failed)
  | .established wsi _ _ =>
      (s.conn wsi).bind fun conn =>
        match conn.peer with
        | .blank => some (conn.owner, .reset)
        | _ => none
  | .closed wsi => (s.conn wsi).map fun conn => (conn.owner, .reset)
  | .connectionError wsi =>
      (s.conn wsi).bind fun conn =>
        match conn.peer with
        | .remote _ => none
        | _ => some (conn.owner, .failed)
  | _ => none

/-- The failures of each client since it was created, or since its last
connection was established or closed. -/
abbrev Tally := ℕ → ℕ

def Tally.note (t : Tally) : Option (ℕ × Report) → Tally
  | none => t
  | some (n, .failed) => Function.update t n (t n + 1)
  | some (n, .reset) => Function.update t n 0

/-- A step, with the tally beside it. -/
def counting (net : Net) (p : State × Tally) (e : Event) : Except Fault (State × Tally) :=
  match step net p.1 e with
  | .ok s => .ok (s, p.2.note (report p.1 e))
  | .error f => .error f

/-- The largest `int`. -/
def intMax : Int := 2147483647

/-- The steps the delays can be followed through. lws opens no connection
before `LWS_CALLBACK_PROTOCOL_INIT`, a new connection gets no address that
another client still holds, `json_tokener_new` succeeds, and the delay after a
failure is an `int`. -/
structure Paced (net : Net) (s : State) (e : Event) : Prop where
  fresh : FreshAddress s e
  first : e = .connectAll → s.given = []
  alloc : ∀ wsi handshake, e ≠ .established wsi false handshake
  fits : ∀ n, report s e = some (n, .failed) → ∀ c ∈ s.clients, c.num = n →
    (c.reconnectCount + 1 : ℕ) * net.retryTimeout ≤ intMax

/-! ### What a step leaves of the count of a client -/

/-- Where the count and the timer of a client come from. -/
inductive Traced (net : Net) (s : State) (t t' : Tally) (d : Client) : Prop
  | kept {c : Client} : c ∈ s.clients → c.num = d.num → c.reconnectCount = d.reconnectCount →
      (d.timer = c.timer ∨ d.timer = none) → (d.state ≠ .tearingdown → c.state ≠ .tearingdown) →
      t' d.num = t d.num → Traced net s t t' d
  | leaving : d.state = .tearingdown → t' d.num = 0 → Traced net s t t' d
  | reset : d.reconnectCount = 0 → t' d.num = 0 → Traced net s t t' d
  | failed : d.reconnectCount = t d.num + 1 → t' d.num = t d.num + 1 →
      d.timer = some ((t d.num + 1 : ℕ) * net.retryTimeout) →
      ((t d.num + 1 : ℕ) * net.retryTimeout ≤ intMax) → Traced net s t t' d

/-- The counts and delays of all clients, for a tally of their failures. -/
structure BackedOff (net : Net) (s : State) (t : Tally) : Prop where
  tidy : Tidy s
  count : ∀ c ∈ s.clients, c.state ≠ .tearingdown → c.reconnectCount = t c.num
  delay : ∀ c ∈ s.clients, 0 < t c.num → ∀ d ∈ c.timer,
    d = t c.num * net.retryTimeout ∧ d ≤ intMax
  quiet : s.given = [] → s.conns = [] ∧ ∀ n, t n = 0

theorem backedOff_init (net : Net) : BackedOff net init fun _ => 0 where
  tidy := tidy_init
  count := by simp [init]
  delay := by simp [init]
  quiet := by simp [init]

section

variable {net : Net} {s s' : State} {t t' : Tally} {e : Event} {c d : Client} {n : ℕ}

theorem Traced.count (h : BackedOff net s t) (hd : Traced net s t t' d)
    (hstate : d.state ≠ .tearingdown) : d.reconnectCount = t' d.num := by
  cases hd with
  | kept hc hnum hcount _ htear ht =>
      rw [ht, ← hcount, h.count _ hc (htear hstate), hnum]
  | leaving htear _ => exact absurd htear hstate
  | reset hcount ht => rw [hcount, ht]
  | failed hcount ht _ _ => rw [hcount, ht]

theorem Traced.delay (h : BackedOff net s t) (hd : Traced net s t t' d) (hpos : 0 < t' d.num) :
    ∀ k ∈ d.timer, k = t' d.num * net.retryTimeout ∧ k ≤ intMax := by
  intro k hk
  cases hd with
  | kept hc hnum _ htimer _ ht =>
      rw [ht, ← hnum] at hpos ⊢
      rcases htimer with hsame | hnone
      · exact h.delay _ hc hpos k (hsame ▸ hk)
      · rw [hnone] at hk
        cases hk
  | leaving _ ht => omega
  | reset _ ht => omega
  | failed _ ht htimer hfits =>
      rw [htimer] at hk
      cases hk
      rw [ht]
      exact ⟨rfl, hfits⟩

theorem Traced.same (hd : d ∈ s.clients) (ht : t' d.num = t d.num) : Traced net s t t' d :=
  .kept hd rfl rfl (Or.inl rfl) id ht

theorem note_of_ne {r : Report} (hne : c.num ≠ n) :
    t.note (some (n, r)) c.num = t c.num := by
  cases r with
  | failed => exact Function.update_of_ne hne _ _
  | reset => exact Function.update_of_ne hne _ _

@[simp] theorem note_failed : t.note (some (n, .failed)) n = t n + 1 := Function.update_self ..

@[simp] theorem note_reset : t.note (some (n, .reset)) n = 0 := Function.update_self ..

theorem intMul_eq {a b : Int} (hpos : 0 ≤ a * b) (hfits : a * b ≤ intMax) : intMul a b = a * b := by
  rw [intMax] at hfits
  rw [intMul]
  apply Int.bmod_eq_of_le
  · omega
  · omega

theorem traced_retry (hT : 0 < net.retryTimeout) (c : Client) (hnum : d.num = c.num)
    (hcount : c.reconnectCount = t c.num) (hd : d.reconnectCount = c.reconnectCount + 1)
    (htimer : d.timer = some (intMul (c.reconnectCount + 1 : ℕ) net.retryTimeout))
    (hfits : (c.reconnectCount + 1 : ℕ) * net.retryTimeout ≤ intMax)
    (ht : t' c.num = t c.num + 1) : Traced net s t t' d := by
  have hpos : 0 ≤ ((c.reconnectCount + 1 : ℕ) : Int) * net.retryTimeout :=
    Int.mul_nonneg (Int.natCast_nonneg _) hT.le
  rw [intMul_eq hpos hfits] at htimer
  rw [hcount] at hd htimer hfits
  rw [← hnum] at hd htimer hfits ht
  exact .failed hd ht htimer hfits

/-! ### The cases of a step -/

theorem mem_wsubusClientCreate {clients : List Client} {addr path : CString} {port : Int}
    {type : ClientType} {alloc : Bool}
    (hd : d ∈ (wsubusClientCreate net clients n addr port path type alloc).2) :
    d ∈ clients ∨ d.num = n ∧ d.reconnectCount = 0 := by
  rw [wsubusClientCreate] at hd
  split at hd
  · exact Or.inl hd
  · split at hd
    · exact Or.inl hd
    · split at hd
      · exact Or.inl hd
      · rename_i port' _ _ _
        obtain ⟨j, hperm⟩ := insertAtLowestFreeIndex_perm (.new n addr port' path type) 0 clients
        rcases List.mem_cons.mp (hperm.subset hd) with rfl | hd
        · exact Or.inr ⟨rfl, rfl⟩
        · exact Or.inl hd

theorem mem_addClient {clients : List Client} {msg : List Attr} {alloc : Bool}
    (hd : d ∈ (addClient net clients n msg alloc).2) :
    d ∈ clients ∨ d.num = n ∧ d.reconnectCount = 0 := by
  rw [addClient] at hd
  split at hd
  · simp only at hd
    split at hd
    · exact Or.inl hd
    · exact mem_wsubusClientCreate hd
  · exact Or.inl hd

theorem traced_created (h : BackedOff net s t)
    (hd : d ∈ s.clients ∨ d.num = s.created ∧ d.reconnectCount = 0) :
    Traced net s t (t.note (some (s.created, .reset))) d := by
  rcases hd with hd | ⟨hnum, hcount⟩
  · have hlt := h.tidy.owned.below d hd
    exact .same hd (note_of_ne (by omega))
  · exact .reset hcount (by rw [hnum, note_reset])

theorem mem_modify_client (h : Tidy s) (hc : c ∈ s.clients) {f : Client → Client}
    (hd : d ∈ modify Client.num c.num f s.clients) :
    d ∈ s.clients ∧ d.num ≠ c.num ∨ f c = d := by
  rcases mem_modify.mp hd with hother | ⟨b, hb, hbn, rfl⟩
  · exact Or.inl hother
  · rw [eq_of_num_eq h.owned.nums hb hc hbn]
    exact Or.inr rfl

/-- The end of a connection is about the client it was opened for. -/
theorem mem_ended (h : Tidy s) {conn : Conn} (hconn : conn ∈ s.conns) {again : Client → Client}
    {clients : List Client} (hended : Ended again s.clients conn.wsi clients)
    (hd : d ∈ clients) :
    d ∈ s.clients ∧ d.num ≠ conn.owner ∨
      ∃ c ∈ s.clients, c.num = conn.owner ∧ c.state ≠ .tearingdown ∧ again c = d := by
  cases hended with
  | unknown hnone =>
      refine Or.inl ⟨hd, ?_⟩
      intro hnum
      exact hnone d hd (h.client_of_conn hconn hd hnum).2.1
  | @destroyed c hc hwsi _ =>
      have hnum := h.owned.own conn hconn c hc hwsi
      obtain ⟨hmem, hne⟩ := mem_remove.mp hd
      exact Or.inl ⟨hmem, hnum ▸ hne⟩
  | @again c hc hwsi htear =>
      have hnum := h.owned.own conn hconn c hc hwsi
      rcases mem_modify_client h hc hd with ⟨hmem, hne⟩ | rfl
      · exact Or.inl ⟨hmem, hnum ▸ hne⟩
      · exact Or.inr ⟨c, hc, hnum, htear, rfl⟩

/-- An event of a connection is about one that lws has, or does nothing. -/
theorem withConn_cases {wsi : Wsi} {f : Conn → Except Fault State}
    (hstep : withConn s wsi f = .ok s') :
    s' = s ∧ s.conn wsi = none ∨
      ∃ conn ∈ s.conns, conn.wsi = wsi ∧ s.conn wsi = some conn ∧ f conn = .ok s' := by
  rw [withConn] at hstep
  cases hfound : s.conns.find? fun conn => conn.wsi = wsi with
  | none =>
      simp only [hfound, Except.ok.injEq] at hstep
      exact Or.inl ⟨hstep.symm, hfound⟩
  | some conn =>
      simp only [hfound] at hstep
      exact Or.inr ⟨conn, List.mem_of_find?_eq_some hfound, by simpa using List.find?_some hfound,
        hfound, hstep⟩

/-- The timer of a client fires, or the step does nothing. -/
theorem timer_cases {attempt : Attempt} (hstep : step net s (.timer n attempt) = .ok s') :
    s' = s ∧ report s (.timer n attempt) = none ∨
      ∃ c ∈ s.clients, c.num = n ∧ c.timer ≠ none ∧
        s' = utimerReconnectCb net (s.expire n) c attempt ∧
        ∀ wsi, attempt = .refused wsi → report s (.timer n attempt) = some (n, .failed) := by
  rw [step] at hstep
  cases hfound : s.clients.find? fun c => c.num = n with
  | none =>
      simp only [hfound, Except.ok.injEq] at hstep
      refine Or.inl ⟨hstep.symm, ?_⟩
      cases attempt <;> simp [report, hfound]
  | some c =>
      simp only [hfound] at hstep
      by_cases hidle : c.timer = none ∨ s.taken attempt = true
      · rw [if_pos hidle, Except.ok.injEq] at hstep
        refine Or.inl ⟨hstep.symm, ?_⟩
        cases attempt <;> simp [report, hfound, hidle]
      · rw [if_neg hidle, Except.ok.injEq] at hstep
        refine Or.inr ⟨c, List.mem_of_find?_eq_some hfound, by simpa using List.find?_some hfound,
          fun htimer => hidle (Or.inl htimer), hstep.symm, ?_⟩
        rintro wsi rfl
        simp [report, hfound, hidle]

theorem traced_timer (hT : 0 < net.retryTimeout) (h : BackedOff net s t) {attempt : Attempt}
    (hp : Paced net s (.timer n attempt)) (hstep : step net s (.timer n attempt) = .ok s')
    (hd : d ∈ s'.clients) : Traced net s t (t.note (report s (.timer n attempt))) d := by
  rcases timer_cases hstep with ⟨rfl, hnone⟩ | ⟨c, hc, rfl, htimer, rfl, hreport⟩
  · rw [hnone]
    exact .same hd rfl
  · -- A client that waits is not being torn down, so the attempt is a write to it.
    have htear : c.state ≠ .tearingdown := by
      rw [(h.tidy.settled c hc).timer htimer]
      decide
    cases attempt with
    | failed cleared =>
        simp only [utimerReconnectCb, State.expire, modify_expire] at hd
        rcases mem_modify_client h.tidy hc hd with ⟨hmem, -⟩ | rfl
        · exact .same hmem rfl
        · exact .kept hc rfl rfl (Or.inr rfl) (fun _ => htear) rfl
    | opened wsi =>
        simp only [utimerReconnectCb, State.expire, modify_expire] at hd
        have hown : ∀ d ∈ s.clients, d.wsi = some wsi → d.num = c.num :=
          fun d hd hw => hp.fresh d hd wsi rfl hw
        have hd' : d ∈ modify Client.num c.num
            (fun c => (c.begin wsi).setState .connecting) s.clients := by
          rw [← opened_own hown hc rfl]
          exact hd
        rcases mem_modify_client h.tidy hc hd' with ⟨hmem, -⟩ | rfl
        · exact .same hmem rfl
        · exact .kept hc rfl rfl (Or.inr rfl) (fun _ => htear) rfl
    | refused wsi =>
        have hfailed := hreport wsi rfl
        rw [hfailed]
        simp only [utimerReconnectCb, State.expire, modify_expire] at hd
        have hown : ∀ d ∈ s.clients, d.wsi = some wsi → d.num = c.num :=
          fun d hd hw => hp.fresh d hd wsi rfl hw
        have hended : Ended (Client.retryLater net)
            (modify Client.num c.num (Client.begin wsi) s.clients) wsi
            (onConnectionError net (modify Client.num c.num (Client.begin wsi) s.clients) wsi) :=
          ended_onConnectionError
        rcases refused_own h.tidy.owned.nums hown hc rfl hended with ⟨hdown, -⟩ | ⟨-, heq⟩
        · exact absurd hdown htear
        · have hd' : d ∈ modify Client.num c.num
              (fun c => (c.begin wsi).retryLater net) s.clients := by
            rw [← heq]
            exact hd
          rcases mem_modify_client h.tidy hc hd' with ⟨hmem, hne⟩ | rfl
          · exact .same hmem (note_of_ne hne)
          · exact traced_retry hT c rfl (h.count c hc htear) rfl rfl
              (hp.fits c.num hfailed c hc rfl) note_failed

/-- A connection that is up: its client is reset, unless it is being torn
down. -/
theorem traced_handshake (h : BackedOff net s t) {conn : Conn} (hconn : conn ∈ s.conns)
    (hpeer : conn.peer = .blank) {handshake : Proxy.Handshake}
    (hd : d ∈ (onEstablished s conn true handshake).clients) :
    Traced net s t (t.note (some (conn.owner, .reset))) d := by
  simp only [onEstablished, hpeer, wsubusClientShouldDestroy] at hd
  cases hclient : getClientByWsi s.clients conn.wsi with
  | none =>
      simp only [hclient, if_true] at hd
      refine .same hd (note_of_ne ?_)
      intro hnum
      exact getClientByWsi_eq_none.mp hclient d hd (h.tidy.client_of_conn hconn hd hnum).2.1
  | some c =>
      obtain ⟨hc, hcw⟩ := getClientByWsi_eq_some hclient
      have hnum := h.tidy.owned.own conn hconn c hc hcw
      by_cases htear : c.state = .tearingdown
      · simp only [hclient, htear, decide_true, if_true] at hd
        by_cases hdn : d.num = conn.owner
        · obtain rfl := eq_of_num_eq h.tidy.owned.nums hd hc (hdn.trans hnum.symm)
          exact .leaving htear (by rw [hdn, note_reset])
        · exact .same hd (note_of_ne hdn)
      · simp only [hclient, htear, decide_false, Bool.false_eq_true, if_false,
          Bool.true_eq_false, wsubusClientSetState, changeByWsi_of_some hclient] at hd
        rcases mem_modify.mp hd with ⟨hmem, hne⟩ | ⟨b, -, hbn, rfl⟩
        · exact .same hmem (note_of_ne (hnum ▸ hne))
        · refine .reset rfl ?_
          show (t.note _) b.num = 0
          rw [hbn, hnum, note_reset]

theorem traced_established (h : BackedOff net s t) {wsi : Wsi} {init : Bool}
    {handshake : Proxy.Handshake} (hp : Paced net s (.established wsi init handshake))
    (hstep : step net s (.established wsi init handshake) = .ok s') (hd : d ∈ s'.clients) :
    Traced net s t (t.note (report s (.established wsi init handshake))) d := by
  rw [step] at hstep
  rw [report]
  rcases withConn_cases hstep with ⟨rfl, hnone⟩ | ⟨conn, hconn, -, hsome, hestablished⟩
  · rw [hnone]
    exact .same hd rfl
  · rw [hsome, Option.bind_some]
    obtain rfl := Except.ok.inj hestablished
    cases hpeer : conn.peer with
    | broken =>
        simp only [onEstablished, hpeer] at hd
        exact .same hd rfl
    | remote r =>
        simp only [onEstablished, hpeer] at hd
        exact .same hd rfl
    | blank =>
        cases init with
        | false => exact absurd rfl (hp.alloc wsi handshake)
        | true => exact traced_handshake h hconn hpeer hd

theorem traced_closed (h : BackedOff net s t) {wsi : Wsi}
    (hstep : step net s (.closed wsi) = .ok s') (hd : d ∈ s'.clients) :
    Traced net s t (t.note (report s (.closed wsi))) d := by
  rw [step] at hstep
  rw [report]
  rcases withConn_cases hstep with ⟨rfl, hnone⟩ | ⟨conn, hconn, rfl, hsome, hclosed⟩
  · rw [hnone]
    exact .same hd rfl
  · have hclients : d ∈ onClosed s.clients conn.wsi := by
      cases hpeer : conn.peer with
      | broken =>
          simp only [hpeer] at hclosed
          cases hclosed
      | blank =>
          simp only [hpeer, Except.ok.injEq] at hclosed
          subst hclosed
          exact hd
      | remote r =>
          simp only [hpeer, Except.ok.injEq] at hclosed
          subst hclosed
          exact hd
    rw [hsome, Option.map_some]
    rcases mem_ended h.tidy hconn ended_onClosed hclients with ⟨hmem, hne⟩ | ⟨c, -, hcn, -, rfl⟩
    · exact .same hmem (note_of_ne hne)
    · refine .reset rfl ?_
      show (t.note _) c.num = 0
      rw [hcn, note_reset]

theorem traced_connectionError (hT : 0 < net.retryTimeout) (h : BackedOff net s t) {wsi : Wsi}
    (hp : Paced net s (.connectionError wsi))
    (hstep : step net s (.connectionError wsi) = .ok s') (hd : d ∈ s'.clients) :
    Traced net s t (t.note (report s (.connectionError wsi))) d := by
  rw [step] at hstep
  rcases withConn_cases hstep with ⟨rfl, hnone⟩ | ⟨conn, hconn, rfl, hsome, herror⟩
  · rw [report, hnone]
    exact .same hd rfl
  · by_cases hremote : ∃ r, conn.peer = .remote r
    · obtain ⟨r, hpeer⟩ := hremote
      simp only [hpeer, Except.ok.injEq] at herror
      subst herror
      have hnone : report s (.connectionError conn.wsi) = none := by
        simp [report, hsome, hpeer]
      rw [hnone]
      exact .same hd rfl
    · have hfailed : report s (.connectionError conn.wsi) = some (conn.owner, .failed) := by
        cases hpeer : conn.peer with
        | blank => simp [report, hsome, hpeer]
        | broken => simp [report, hsome, hpeer]
        | remote r => exact absurd ⟨r, hpeer⟩ hremote
      have hclients : d ∈ onConnectionError net s.clients conn.wsi := by
        cases hpeer : conn.peer with
        | remote r => exact absurd ⟨r, hpeer⟩ hremote
        | blank =>
            simp only [hpeer, Except.ok.injEq] at herror
            subst herror
            exact hd
        | broken =>
            simp only [hpeer, Except.ok.injEq] at herror
            subst herror
            exact hd
      rw [hfailed]
      rcases mem_ended h.tidy hconn ended_onConnectionError hclients with
        ⟨hmem, hne⟩ | ⟨c, hc, hcn, htear, rfl⟩
      · exact .same hmem (note_of_ne hne)
      · exact traced_retry hT c rfl (h.count c hc htear) rfl rfl
          (hp.fits conn.owner hfailed c hc hcn) (by rw [hcn, note_failed])

theorem traced_step (hT : 0 < net.retryTimeout) (h : BackedOff net s t) (hp : Paced net s e)
    (hstep : step net s e = .ok s') (hd : d ∈ s'.clients) :
    Traced net s t (t.note (report s e)) d := by
  cases e with
  | create addr port path alloc =>
      rw [step] at hstep
      apply traced_created h
      split at hstep
      · cases hstep
        exact Or.inl hd
      · cases hstep
        exact mem_wsubusClientCreate hd
  | connectAll =>
      rw [step] at hstep
      cases hstep
      obtain ⟨c, -, rfl⟩ := List.mem_map.mp hd
      exact .reset rfl ((h.quiet (hp.first rfl)).2 _)
  | add msg alloc =>
      rw [step] at hstep
      cases hstep
      exact traced_created h (mem_addClient hd)
  | remove msg =>
      rw [step] at hstep
      split at hstep
      · cases hstep
      · rename_i rc clients hremove
        cases hstep
        rcases removeClient_cases hremove with rfl | ⟨p, rfl⟩
        · exact .same hd rfl
        · rcases mem_removeWhere.mp hd with ⟨hmem, -⟩ | ⟨c, hc, -, -, rfl⟩
          · exact .same hmem rfl
          · exact .kept hc rfl rfl (Or.inl rfl) (fun htear => absurd rfl htear) rfl
  | timer num attempt => exact traced_timer hT h hp hstep hd
  | established wsi init handshake => exact traced_established h hp hstep hd
  | writeable wsi =>
      have hsame : s' = s := by
        rcases withConn_ok hstep with heq | ⟨_, _, _, heq⟩
        · exact heq
        · exact (Except.ok.inj heq).symm
      subst hsame
      exact .same hd rfl
  | closed wsi => exact traced_closed h hstep hd
  | connectionError wsi => exact traced_connectionError hT h hp hstep hd
  | remote wsi event =>
      have hclients : s'.clients = s.clients := by
        rcases withConn_ok hstep with rfl | ⟨conn, _, _, heq⟩
        · rfl
        · split at heq
          · split at heq
            · cases heq
              rfl
            · cases heq
          · cases heq
            rfl
      rw [hclients] at hd
      exact .same hd rfl

/-! ### Before the first connection -/

theorem given_of_refused {num : ℕ} {wsi : Wsi}
    (hstep : step net s (.timer num (.refused wsi)) = .ok s')
    (hreport : report s (.timer num (.refused wsi)) ≠ none) : s'.given = wsi :: s.given := by
  rcases timer_cases hstep with ⟨-, hnone⟩ | ⟨c, -, -, -, rfl, -⟩
  · exact absurd hnone hreport
  · rfl

theorem quiet_effect (he : Effect net s e s') (h : s.given = [] → s.conns = [])
    (hnone : s'.given = []) : s.given = [] ∧ s'.conns = [] := by
  cases he with
  | idle => exact ⟨hnone, h hnone⟩
  | refusedAdd => exact ⟨hnone, h hnone⟩
  | created _ _ _ => exact ⟨hnone, h hnone⟩
  | armed => exact ⟨hnone, h hnone⟩
  | removed p => exact ⟨hnone, h hnone⟩
  | gaveUp _ _ => exact ⟨hnone, h hnone⟩
  | refused _ _ _ => cases hnone
  | refusedLast _ _ _ => cases hnone
  | opened _ _ _ _ => cases hnone
  | peer hconn _ =>
      rw [h hnone] at hconn
      cases hconn
  | established hconn _ _ _ _ _ =>
      rw [h hnone] at hconn
      cases hconn
  | lost hconn _ _ =>
      rw [h hnone] at hconn
      cases hconn
  | destroyed hconn _ _ _ _ _ =>
      rw [h hnone] at hconn
      cases hconn
  | again hconn _ _ _ _ _ _ _ =>
      rw [h hnone] at hconn
      cases hconn

/-- As long as lws has given no address, nothing has failed. -/
theorem note_quiet (hzero : ∀ n, t n = 0) (hconns : s.conns = [])
    (hstep : step net s e = .ok s') (hnone : s'.given = []) :
    ∀ n, t.note (report s e) n = 0 := by
  have hconn : ∀ wsi, s.conn wsi = none := by
    intro wsi
    rw [State.conn, hconns]
    rfl
  have hreset : ∀ m n, t.note (some (m, .reset)) n = 0 := by
    intro m n
    by_cases hn : n = m
    · rw [hn, note_reset]
    · show Function.update t m 0 n = 0
      rw [Function.update_of_ne hn, hzero]
  cases e with
  | create addr port path alloc => exact hreset _
  | add msg alloc => exact hreset _
  | timer num attempt =>
      cases attempt with
      | opened wsi => exact hzero
      | failed cleared => exact hzero
      | refused wsi =>
          by_cases hreport : report s (.timer num (.refused wsi)) = none
          · rw [hreport]
            exact hzero
          · rw [given_of_refused hstep hreport] at hnone
            cases hnone
  | established wsi init handshake =>
      rw [report, hconn]
      exact hzero
  | closed wsi =>
      rw [report, hconn]
      exact hzero
  | connectionError wsi =>
      rw [report, hconn]
      exact hzero
  | connectAll => exact hzero
  | remove msg => exact hzero
  | writeable wsi => exact hzero
  | remote wsi event => exact hzero

theorem backedOff_step (hT : 0 < net.retryTimeout) (h : BackedOff net s t) (hp : Paced net s e)
    (hstep : step net s e = .ok s') : BackedOff net s' (t.note (report s e)) where
  tidy := by
    apply tidy_step h.tidy _ hstep
    exact ⟨hp.fresh, fun hall => (h.quiet (hp.first hall)).1⟩
  count _ hd := (traced_step hT h hp hstep hd).count h
  delay _ hd := (traced_step hT h hp hstep hd).delay h
  quiet hnone := by
    have he := step_effect h.tidy.owned hp.fresh hstep
    obtain ⟨hgiven, hconns⟩ := quiet_effect he (fun hg => (h.quiet hg).1) hnone
    obtain ⟨hnoconns, hzero⟩ := h.quiet hgiven
    exact ⟨hconns, note_quiet hzero hnoconns hstep hnone⟩

/-- A failure of a client that is left sets its timer to the next multiple. -/
theorem delay_of_failed (hT : 0 < net.retryTimeout) (h : BackedOff net s t) (hp : Paced net s e)
    (hstep : step net s e = .ok s') (hreport : report s e = some (n, .failed))
    (hd : d ∈ s'.clients) (hn : d.num = n) :
    d.reconnectCount = t n + 1 ∧ d.timer = some ((t n + 1 : ℕ) * net.retryTimeout) ∧
      (t n + 1 : ℕ) * net.retryTimeout ≤ intMax := by
  subst hn
  have htraced := traced_step hT h hp hstep hd
  rw [hreport] at htraced
  have hnext : t.note (some (d.num, .failed)) d.num = t d.num + 1 := note_failed
  cases htraced with
  | kept _ _ _ _ _ ht => omega
  | leaving _ ht => omega
  | reset _ ht => omega
  | failed hcount _ htimer hfits => exact ⟨hcount, htimer, hfits⟩

end

/-! ### Runs -/

theorem counting_ok {net : Net} {s s' : State} {t t' : Tally} {e : Event}
    (h : counting net (s, t) e = .ok (s', t')) :
    step net s e = .ok s' ∧ t' = t.note (report s e) := by
  rw [counting] at h
  split at h
  · rename_i s₁ hs₁
    cases h
    exact ⟨hs₁, rfl⟩
  · cases h

/-- In a run of paced steps the count of a client that is not being removed is
the number of its failures in a row, and its timer, if it runs after a
failure, has that many retry timeouts. With the next failure it is set to one
more of them, which is no smaller. -/
theorem back_off_run {net : Net} {es : List Event} {s : State} {t : Tally}
    (hT : 0 < net.retryTimeout)
    (hg : Guarded (counting net) (fun p e => Paced net p.1 e) (init, fun _ => 0) es)
    (hrun : run (counting net) (init, fun _ => 0) es = .ok (s, t)) :
    (∀ c ∈ s.clients, c.state ≠ .tearingdown → c.reconnectCount = t c.num ∧
      (0 < t c.num → ∀ d ∈ c.timer, d = t c.num * net.retryTimeout ∧ 0 < d ∧ d ≤ intMax)) ∧
    ∀ e s' t', Paced net s e → counting net (s, t) e = .ok (s', t') →
      ∀ n, report s e = some (n, .failed) → t' n = t n + 1 ∧
        ∀ c ∈ s'.clients, c.num = n → c.reconnectCount = t' n ∧
          c.timer = some (t' n * net.retryTimeout) ∧
          0 < t' n * net.retryTimeout ∧ t' n * net.retryTimeout ≤ intMax ∧
          t n * net.retryTimeout ≤ t' n * net.retryTimeout := by
  have hinv : BackedOff net s t := by
    refine run_invariant (fun p => BackedOff net p.1 p.2) ?_ (backedOff_init net) hg hrun
    rintro ⟨s, t⟩ e ⟨s', t'⟩ h hp hstep
    obtain ⟨hok, rfl⟩ := counting_ok hstep
    exact backedOff_step hT h hp hok
  constructor
  · intro c hc htear
    refine ⟨hinv.count c hc htear, ?_⟩
    intro hpos d hd
    obtain ⟨rfl, hfits⟩ := hinv.delay c hc hpos d hd
    exact ⟨rfl, Int.mul_pos (by omega) hT, hfits⟩
  · intro e s' t' hp hstep n hreport
    obtain ⟨hok, rfl⟩ := counting_ok hstep
    have hnext : t.note (report s e) n = t n + 1 := by rw [hreport, note_failed]
    refine ⟨hnext, ?_⟩
    intro c hc hn
    obtain ⟨hcount, htimer, hfits⟩ := delay_of_failed hT hinv hp hok hreport hc hn
    rw [hnext]
    refine ⟨hcount, htimer, Int.mul_pos (by omega) hT, hfits, ?_⟩
    exact Int.mul_le_mul_of_nonneg_right (by omega) hT.le

/-- The parts of `Paced` that can be read off an event. -/
def Event.startsAll : Event → Bool
  | .connectAll => true
  | _ => false

def Event.breaks : Event → Bool
  | .established _ false _ => true
  | _ => false

theorem paced_of_checks {net : Net} {s : State} {e : Event} (hfresh : FreshAddress s e)
    (hfirst : e.startsAll = true → s.given = []) (halloc : e.breaks = false)
    (hfits : ∀ r ∈ report s e, r.2 = .failed → ∀ c ∈ s.clients, c.num = r.1 →
      (c.reconnectCount + 1 : ℕ) * net.retryTimeout ≤ intMax) : Paced net s e where
  fresh := hfresh
  first := by
    rintro rfl
    exact hfirst rfl
  alloc := by
    rintro wsi handshake rfl
    cases halloc
  fits n hreport c hc hn := hfits (n, .failed) hreport rfl c hc hn

def twiceRefused : List Event :=
  [.create (.ofString "10.0.0.1") 443 (.ofString "/") true, .connectAll,
    .timer 0 (.refused 7), .timer 0 (.refused 8)]

theorem back_off_run_twiceRefused :
    ∃ s t, run (counting twoHosts) (init, fun _ => 0) twiceRefused = .ok (s, t) ∧ t 0 = 2 ∧
      s.clients.map (fun c => c.timer.isSome) = [true] ∧
      ∀ c ∈ s.clients, c.reconnectCount = 2 ∧ ∀ d ∈ c.timer, d = 4000 := by
  have hg : Guarded (counting twoHosts) (fun p e => Paced twoHosts p.1 e) (init, fun _ => 0)
      twiceRefused :=
    .cons (paced_of_checks (by decide) (by decide) rfl (by decide)) rfl
      (.cons (paced_of_checks (by decide) (by decide) rfl (by decide)) rfl
        (.cons (paced_of_checks (by decide) (by decide) rfl (by decide)) rfl
          (.cons (paced_of_checks (by decide) (by decide) rfl (by decide)) rfl trivial)))
  obtain ⟨s, t, hrun, ht, htimers, hclients⟩ : ∃ s t,
      run (counting twoHosts) (init, fun _ => 0) twiceRefused = .ok (s, t) ∧ t 0 = 2 ∧
        s.clients.map (fun c => c.timer.isSome) = [true] ∧
        ∀ c ∈ s.clients, c.num = 0 ∧ c.state ≠ .tearingdown := ⟨_, _, rfl, rfl, rfl, by decide⟩
  refine ⟨s, t, hrun, ht, htimers, ?_⟩
  intro c hc
  obtain ⟨hnum, htear⟩ := hclients c hc
  obtain ⟨hcount, hdelay⟩ := (back_off_run (by decide) hg hrun).1 c hc htear
  rw [hnum, ht] at hcount hdelay
  exact ⟨hcount, fun d hd => (hdelay (by omega) d hd).1⟩

/-- With a timeout of half the range of an `int` the second delay is
negative. -/
theorem back_off_overflows :
    ∃ s t, run (counting { twoHosts with retryTimeout := 1073741824 }) (init, fun _ => 0)
        twiceRefused = .ok (s, t) ∧
      t 0 = 2 ∧
      s.clients.map (fun c => (c.reconnectCount, c.timer)) = [(2, some (-2147483648))] ∧
      (-2147483648 : Int) ≠ (t 0 : Int) * 1073741824 := by
  obtain ⟨s, t, hrun, ht, hclients⟩ : ∃ s t,
      run (counting { twoHosts with retryTimeout := 1073741824 }) (init, fun _ => 0)
        twiceRefused = .ok (s, t) ∧ t 0 = 2 ∧
      s.clients.map (fun c => (c.reconnectCount, c.timer)) =
        [(2, some (intMul 2 1073741824))] := ⟨_, _, rfl, rfl, rfl⟩
  have hmul : intMul 2 1073741824 = -2147483648 := by decide
  rw [hmul] at hclients
  refine ⟨s, t, hrun, ht, hclients, ?_⟩
  rw [ht]
  decide

end Owsd.Registry
