import Owsd.Registry.Step

/-!
What a step of the registry can do.

The lookups are resolved here: a callback that finds its client changes this
one or takes it out, and does nothing to the others. Later modules go through
the cases of `Effect` and look at no callback again.
-/

namespace Owsd.Registry

open Numbered

/-! ### Lookups -/

section

variable {clients : List Client} {c d : Client} {wsi : Wsi} {f : Client → Client}

theorem getClientByWsi_eq_some (h : getClientByWsi clients wsi = some c) :
    c ∈ clients ∧ c.wsi = some wsi := by
  refine ⟨List.mem_of_find?_eq_some h, ?_⟩
  simpa using List.find?_some h

theorem getClientByWsi_eq_none :
    getClientByWsi clients wsi = none ↔ ∀ c ∈ clients, c.wsi ≠ some wsi := by
  simp [getClientByWsi]

theorem changeByWsi_of_some (h : getClientByWsi clients wsi = some c) :
    changeByWsi clients wsi f = modify Client.num c.num f clients := by
  rw [changeByWsi, h]

/-- Two changes of the client with the pointer, of which the first does not
touch the pointer. -/
theorem changeByWsi_twice {g : Client → Client} (hnum : ∀ c, (f c).num = c.num)
    (hwsi : ∀ c, (f c).wsi = c.wsi) (h : getClientByWsi clients wsi = some c) :
    changeByWsi (changeByWsi clients wsi f) wsi g =
      modify Client.num c.num (fun c => g (f c)) clients := by
  rw [changeByWsi_of_some h]
  have hfound : getClientByWsi (modify Client.num c.num f clients) wsi = some (f c) := by
    have hfind : (modify Client.num c.num f clients).find? (fun c => c.wsi = some wsi) = _ :=
      find?_modify fun a => by rw [hwsi]
    rw [getClientByWsi, hfind]
    rw [getClientByWsi] at h
    simp [h]
  rw [changeByWsi_of_some hfound, hnum, modify_modify hnum]

end

/-- What the end of a connection does to the registry, when `again` is the
change to a client that is to connect again. -/
inductive Ended (again : Client → Client) (clients : List Client) (wsi : Wsi) :
    List Client → Prop
  | unknown : (∀ c ∈ clients, c.wsi ≠ some wsi) → Ended again clients wsi clients
  | destroyed {c : Client} : c ∈ clients → c.wsi = some wsi → c.state = .tearingdown →
      Ended again clients wsi (remove Client.num c.num clients)
  | again {c : Client} : c ∈ clients → c.wsi = some wsi → c.state ≠ .tearingdown →
      Ended again clients wsi (modify Client.num c.num again clients)

def Client.reopen (c : Client) : Client := (c.setState .disconnected).connectIn 2000

def Client.retryLater (net : Net) (c : Client) : Client :=
  (c.setState .disconnected).retry net.retryTimeout

section

variable {net : Net} {clients : List Client} {wsi : Wsi}

/-- Both ways for a connection to end destroy the client or set it to
disconnected and then change it in a way of their own. -/
theorem ended_of_change (g : Client → Client) :
    Ended (fun c => g (c.setState .disconnected)) clients wsi
      (if wsubusClientShouldDestroy clients wsi then wsubusClientDestroy clients wsi
        else changeByWsi (wsubusClientSetState clients wsi .disconnected) wsi g) := by
  rw [wsubusClientShouldDestroy, wsubusClientDestroy]
  cases hfound : getClientByWsi clients wsi with
  | none => exact .unknown (getClientByWsi_eq_none.mp hfound)
  | some c =>
      obtain ⟨hmem, hwsi⟩ := getClientByWsi_eq_some hfound
      by_cases htd : c.state = .tearingdown
      · simpa [htd] using .destroyed hmem hwsi htd
      · simp only [htd, decide_false, Bool.false_eq_true, if_false]
        rw [wsubusClientSetState, changeByWsi_twice (f := fun c => c.setState .disconnected)
          (fun _ => rfl) (fun _ => rfl) hfound]
        exact .again hmem hwsi htd

theorem ended_onClosed : Ended Client.reopen clients wsi (onClosed clients wsi) :=
  ended_of_change fun c => c.connectIn 2000

theorem ended_onConnectionError :
    Ended (Client.retryLater net) clients wsi (onConnectionError net clients wsi) :=
  ended_of_change (Client.retry net.retryTimeout)

end

/-! ### Creation and removal -/

theorem insertAtLowestFreeIndex_perm (c : Client) (i : ℕ) (clients : List Client) :
    ∃ j, (insertAtLowestFreeIndex c i clients).Perm ({ c with index := j } :: clients) := by
  induction clients generalizing i with
  | nil => exact ⟨i, .refl _⟩
  | cons t rest ih =>
      rw [insertAtLowestFreeIndex]
      split
      · exact ⟨i, .refl _⟩
      · obtain ⟨j, hj⟩ := ih (i + 1)
        exact ⟨j, (hj.cons t).trans (.swap _ t rest)⟩

theorem manageRemoveClient_eq_some {c d : Client} :
    manageRemoveClient c = some d ↔
      c.state ≠ .disconnected ∧ d = { c with state := .tearingdown } := by
  rw [manageRemoveClient]
  obtain ⟨num, index, wsi, timer, type, reconnectCount, state, address, port, path⟩ := c
  cases state <;> simp [eq_comm]

theorem mem_removeWhere {p : Client → Bool} {clients : List Client} {d : Client} :
    d ∈ removeWhere p clients ↔ (d ∈ clients ∧ p d = false) ∨
      ∃ c ∈ clients, p c = true ∧ c.state ≠ .disconnected ∧
        d = { c with state := .tearingdown } := by
  simp only [removeWhere, List.mem_filterMap]
  constructor
  · rintro ⟨c, hc, hd⟩
    split at hd
    · next hp => exact .inr ⟨c, hc, hp, manageRemoveClient_eq_some.mp hd⟩
    · next hp =>
      cases hd
      exact .inl ⟨hc, by simpa using hp⟩
  · rintro (⟨hd, hp⟩ | ⟨c, hc, hp, hd⟩)
    · exact ⟨d, hd, by simp [hp]⟩
    · exact ⟨c, hc, by rw [if_pos hp]; exact manageRemoveClient_eq_some.mpr hd⟩

/-- What is read of the clients that are left, if it is not the state. -/
theorem removeWhere_map {β : Type} {g : Client → β}
    (hg : ∀ c : Client, g { c with state := .tearingdown } = g c) (p : Client → Bool)
    (clients : List Client) : ((removeWhere p clients).map g).Sublist (clients.map g) := by
  induction clients with
  | nil => exact .slnil
  | cons c clients ih =>
      rw [removeWhere, List.filterMap_cons]
      split
      · exact ih.trans (List.sublist_cons_self _ _)
      · next d hd =>
        have hsame : g d = g c := by
          split at hd
          · rw [(manageRemoveClient_eq_some.mp hd).2, hg]
          · cases hd
            rfl
        rw [List.map_cons, List.map_cons, hsame]
        exact ih.cons_cons _

/-- The address of the `add` message. -/
def addedIp (msg : List Attr) : Option CString :=
  match blobmsgParse addClientPolicy msg with
  | [some ip, _] => some ip.2.getString
  | _ => none

def Event.address : Event → Option CString
  | .create addr _ _ _ => some addr
  | .add msg _ => addedIp msg
  | _ => none

structure Created (s : State) (addr : CString) (c : Client) (clients : List Client) :
    Prop where
  perm : clients.Perm (c :: s.clients)
  num : c.num = s.created
  wsi : c.wsi = none
  state : c.state = .disconnected
  address : c.address = addr
  unique : uniqueIp s.clients addr = true

theorem Created.mem_iff {s : State} {addr : CString} {c d : Client} {clients : List Client}
    (h : Created s addr c clients) : d ∈ clients ↔ d = c ∨ d ∈ s.clients := by
  rw [h.perm.mem_iff, List.mem_cons]

section

variable {net : Net} {s : State} {addr path : CString} {port : Int} {type : ClientType}
  {alloc : Bool}

/-- A client is created, with its timer running if it comes over ubus, or
nothing happens and the caller is told. -/
theorem wsubusClientCreate_cases :
    (∃ rc, rc ≠ 0 ∧ wsubusClientCreate net s.clients s.created addr port path type alloc =
      (rc, s.clients)) ∨
    ∃ c clients, wsubusClientCreate net s.clients s.created addr port path type alloc =
      (0, clients) ∧ Created s addr c clients ∧
      c.timer = if type = .fromUbus then some 100 else none := by
  rw [wsubusClientCreate]
  cases hport : validateIpPortPath net addr port with
  | none => exact .inl ⟨ubusStatusInvalidArgument, by decide, rfl⟩
  | some port' =>
      have hvalid : net.inetPton addr = true := by
        by_contra hnot
        simp [validateIpPortPath, hnot] at hport
      have hshort : addr.take maxIpLen = addr := by
        have := net.inetPton_short addr hvalid
        rw [List.take_of_length_le]
        simp only [maxIpLen]
        omega
      by_cases hunique : uniqueIp s.clients addr = false
      · exact .inl ⟨ubusStatusInvalidArgument, by decide, if_pos hunique⟩
      · cases alloc with
        | false => exact .inl ⟨Rpc.ubusStatusUnknownError, by decide, by simp [hunique]⟩
        | true =>
            obtain ⟨j, hperm⟩ := insertAtLowestFreeIndex_perm
              (.new s.created addr port' path type) 0 s.clients
            refine .inr ⟨_, _, by simp [hunique], ⟨hperm, rfl, rfl, rfl, hshort, ?_⟩, rfl⟩
            simpa using hunique

theorem addClient_cases {msg : List Attr} :
    (∃ rc, rc ≠ 0 ∧ addClient net s.clients s.created msg alloc = (rc, s.clients)) ∨
    ∃ addr c clients, addedIp msg = some addr ∧
      addClient net s.clients s.created msg alloc = (0, clients) ∧ Created s addr c clients ∧
      c.timer ≠ none := by
  have hinvalid : ubusStatusInvalidArgument ≠ 0 := by decide
  obtain ⟨ip, port, hparse⟩ : ∃ ip port, blobmsgParse addClientPolicy msg = [ip, port] :=
    ⟨_, _, rfl⟩
  simp only [addClient, addedIp, hparse]
  cases ip with
  | none => exact .inl ⟨_, hinvalid, rfl⟩
  | some ip =>
      simp only
      split
      · exact .inl ⟨_, hinvalid, rfl⟩
      · rcases wsubusClientCreate_cases with h | ⟨c, clients, heq, hcreated, htimer⟩
        · exact .inl h
        · exact .inr ⟨_, c, clients, rfl, heq, hcreated, by simp [htimer]⟩

/-- The method `remove` takes out some of the clients, unless there is none
with the index. -/
theorem removeClient_cases {clients clients' : List Client} {msg : List Attr} {rc : Int}
    (h : removeClient clients msg = some (rc, clients')) :
    clients' = clients ∨ ∃ p, clients' = removeWhere p clients := by
  obtain ⟨index, ip, hparse⟩ : ∃ index ip, blobmsgParse clientRemovePolicy msg = [index, ip] :=
    ⟨_, _, rfl⟩
  simp only [removeClient, hparse] at h
  cases index with
  | some index =>
      simp only at h
      split at h
      · cases h
      · cases h
        exact .inr ⟨_, rfl⟩
  | none =>
      cases ip with
      | none =>
          cases h
          exact .inl rfl
      | some ip =>
          cases h
          exact .inr ⟨_, rfl⟩

end

/-! ### Connections and their clients -/

/-- A new connection gets no address that another client still holds. -/
def FreshAddress (s : State) : Event → Prop
  | .timer num attempt =>
      ∀ c ∈ s.clients, ∀ wsi ∈ attempt.wsi, c.wsi = some wsi → c.num = num
  | _ => True

instance (s : State) (e : Event) : Decidable (FreshAddress s e) :=
  match e with
  | .timer _ _ => inferInstanceAs (Decidable (∀ _ ∈ _, _))
  | .create _ _ _ _ => .isTrue trivial
  | .connectAll => .isTrue trivial
  | .add _ _ => .isTrue trivial
  | .remove _ => .isTrue trivial
  | .established _ _ _ => .isTrue trivial
  | .writeable _ => .isTrue trivial
  | .closed _ => .isTrue trivial
  | .connectionError _ => .isTrue trivial
  | .remote _ _ => .isTrue trivial

/-- Every pointer to a connection is held by one client, the one it was opened
for. -/
structure Owned (s : State) : Prop where
  nums : (s.clients.map Client.num).Nodup
  below : ∀ c ∈ s.clients, c.num < s.created
  wsis : (s.conns.map Conn.wsi).Nodup
  single : ∀ c ∈ s.clients, ∀ d ∈ s.clients, ∀ wsi, c.wsi = some wsi → d.wsi = some wsi →
    c.num = d.num
  own : ∀ conn ∈ s.conns, ∀ c ∈ s.clients, c.wsi = some conn.wsi → c.num = conn.owner

def Client.begin (wsi : Wsi) (c : Client) : Client := { c with timer := none, wsi := some wsi }

def Client.giveUp (cleared : Bool) (c : Client) : Client :=
  { c with timer := none, wsi := if cleared then none else c.wsi }

theorem modify_expire (clients : List Client) (n : ℕ) (g : Client → Client) :
    modify Client.num n g (modify Client.num n (fun c => { c with timer := none }) clients) =
      modify Client.num n (fun c => g { c with timer := none }) clients :=
  modify_modify fun _ => rfl

section

variable {net : Net} {s s' : State} {clients : List Client} {c : Client} {n : ℕ} {wsi : Wsi}

theorem mem_begin (hc : c ∈ clients) (hn : c.num = n) :
    c.begin wsi ∈ modify Client.num n (Client.begin wsi) clients :=
  mem_modify.mpr (.inr ⟨c, hc, hn, rfl⟩)

theorem num_of_begin {d : Client}
    (hfresh : ∀ d ∈ s.clients, d.wsi = some wsi → d.num = n)
    (hd : d ∈ modify Client.num n (Client.begin wsi) s.clients) (hwsi : d.wsi = some wsi) :
    ∃ c ∈ s.clients, c.num = n ∧ d = c.begin wsi := by
  rcases mem_modify.mp hd with ⟨hmem, hne⟩ | ⟨c, hc, hn, rfl⟩
  · exact absurd (hfresh d hmem hwsi) hne
  · exact ⟨c, hc, hn, rfl⟩

/-- A connection that is opened puts its own client into the state
`connecting`. -/
theorem opened_own (hfresh : ∀ d ∈ s.clients, d.wsi = some wsi → d.num = n)
    (hc : c ∈ s.clients) (hn : c.num = n) :
    wsubusClientSetState (modify Client.num n (Client.begin wsi) s.clients) wsi .connecting =
      modify Client.num n (fun c => (c.begin wsi).setState .connecting) s.clients := by
  rw [wsubusClientSetState]
  cases hfound : getClientByWsi (modify Client.num n (Client.begin wsi) s.clients) wsi with
  | none => exact absurd rfl (getClientByWsi_eq_none.mp hfound _ (mem_begin hc hn))
  | some d =>
      obtain ⟨hd, hwsi⟩ := getClientByWsi_eq_some hfound
      obtain ⟨c', -, hn', rfl⟩ := num_of_begin hfresh hd hwsi
      have hnum : (c'.begin wsi).num = n := hn'
      rw [changeByWsi_of_some hfound, hnum]
      exact modify_modify fun _ => rfl

/-- An attempt that fails within the call ends on its own client. -/
theorem refused_own (hnums : (s.clients.map Client.num).Nodup)
    (hfresh : ∀ d ∈ s.clients, d.wsi = some wsi → d.num = n) (hc : c ∈ s.clients)
    (hn : c.num = n)
    (h : Ended (Client.retryLater net) (modify Client.num n (Client.begin wsi) s.clients) wsi
      clients) :
    c.state = .tearingdown ∧ clients = remove Client.num n s.clients ∨
      c.state ≠ .tearingdown ∧
        clients = modify Client.num n (fun c => (c.begin wsi).retryLater net) s.clients := by
  have hnum : (c.begin wsi).num = n := hn
  have hbegun : ∀ {d}, d ∈ modify Client.num n (Client.begin wsi) s.clients →
      d.wsi = some wsi → d = c.begin wsi := by
    intro d hd hwsi
    obtain ⟨c', hc', hn', rfl⟩ := num_of_begin hfresh hd hwsi
    rw [eq_of_num_eq hnums hc hc' (hn.trans hn'.symm)]
  cases h with
  | unknown hnone => exact absurd rfl (hnone _ (mem_begin hc hn))
  | @destroyed d hd hwsi htd =>
      obtain rfl := hbegun hd hwsi
      refine .inl ⟨htd, ?_⟩
      rw [hnum]
      exact remove_modify fun _ => rfl
  | @again d hd hwsi htd =>
      obtain rfl := hbegun hd hwsi
      refine .inr ⟨htd, ?_⟩
      rw [hnum]
      exact modify_modify fun _ => rfl

end

/-! ### Steps -/

/-- The client is left to connect again: disconnected, with its timer
running. -/
structure Again (f : Client → Client) : Prop where
  num : ∀ c, (f c).num = c.num
  address : ∀ c, (f c).address = c.address
  state : ∀ c, (f c).state = .disconnected
  timer : ∀ c, (f c).timer ≠ none

theorem again_reopen : Again Client.reopen :=
  ⟨fun _ => rfl, fun _ => rfl, fun _ => rfl, fun _ => Option.some_ne_none _⟩

theorem again_retryLater (net : Net) : Again (Client.retryLater net) :=
  ⟨fun _ => rfl, fun _ => rfl, fun _ => rfl, fun _ => Option.some_ne_none _⟩

def Event.ends : Event → Option Wsi
  | .closed wsi => some wsi
  | .connectionError wsi => some wsi
  | _ => none

inductive PeerStep (net : Net) (wsi : Wsi) : Event → Peer → Peer → Prop
  | broke {handshake : Proxy.Handshake} :
      PeerStep net wsi (.established wsi false handshake) .blank .broken
  | established {handshake : Proxy.Handshake} :
      PeerStep net wsi (.established wsi true handshake) .blank (.remote handshake.established)
  | remote {event : Proxy.Event} {r r' : Proxy.RemoteBus} :
      Proxy.step net.allocator net.matchPattern r event = .ok r' →
      PeerStep net wsi (.remote wsi event) (.remote r) (.remote r')

/-- The peer of a connection changes in a callback for it. -/
theorem PeerStep.event {net : Net} {wsi : Wsi} {e : Event} {peer peer' : Peer}
    (h : PeerStep net wsi e peer peer') :
    (∃ init handshake, e = .established wsi init handshake) ∨ ∃ event, e = .remote wsi event := by
  cases h with
  | broke => exact .inl ⟨_, _, rfl⟩
  | established => exact .inl ⟨_, _, rfl⟩
  | remote _ => exact .inr ⟨_, rfl⟩

/-- What a step does, when every connection has its own client. -/
inductive Effect (net : Net) (s : State) : Event → State → Prop
  | idle {e : Event} : Effect net s e s
  | refusedAdd {e : Event} : Effect net s e { s with created := s.created + 1 }
  | created {e : Event} {addr : CString} {c : Client} {clients : List Client} :
      e.address = some addr → Created s addr c clients → (s.started = true → c.timer ≠ none) →
      Effect net s e { s with clients := clients, created := s.created + 1 }
  | armed : Effect net s .connectAll
      { s with clients := s.clients.map fun c => c.connectIn 0, started := true }
  | removed {msg : List Attr} (p : Client → Bool) :
      Effect net s (.remove msg) { s with clients := removeWhere p s.clients }
  /-- The attempt to connect gave nothing, not even a callback. -/
  | gaveUp {c : Client} {cleared : Bool} : c ∈ s.clients → c.timer ≠ none →
      Effect net s (.timer c.num (.failed cleared))
        { s with clients := modify Client.num c.num (Client.giveUp cleared) s.clients }
  /-- It failed with a callback. -/
  | refused {c : Client} {wsi : Wsi} : c ∈ s.clients → c.timer ≠ none →
      c.state ≠ .tearingdown →
      Effect net s (.timer c.num (.refused wsi))
        { s with
          given := wsi :: s.given
          clients := modify Client.num c.num (fun c => (c.begin wsi).retryLater net) s.clients }
  | refusedLast {c : Client} {wsi : Wsi} : c ∈ s.clients → c.timer ≠ none →
      c.state = .tearingdown →
      Effect net s (.timer c.num (.refused wsi))
        { s with given := wsi :: s.given, clients := remove Client.num c.num s.clients }
  | opened {c : Client} {wsi : Wsi} : c ∈ s.clients → c.timer ≠ none →
      (∀ conn ∈ s.conns, conn.wsi ≠ wsi) → (∀ d ∈ s.clients, d.wsi = some wsi → d.num = c.num) →
      Effect net s (.timer c.num (.opened wsi))
        { s with
          given := wsi :: s.given
          conns := ⟨wsi, c.num, c.address, .blank⟩ :: s.conns
          clients := modify Client.num c.num (fun c => (c.begin wsi).setState .connecting)
            s.clients }
  | peer {e : Event} {conn : Conn} {peer : Peer} : conn ∈ s.conns →
      PeerStep net conn.wsi e conn.peer peer → Effect net s e (s.setPeer conn.wsi peer)
  | established {e : Event} {conn : Conn} {c : Client} {peer : Peer} : conn ∈ s.conns →
      PeerStep net conn.wsi e conn.peer peer → c ∈ s.clients → c.num = conn.owner →
      c.wsi = some conn.wsi → c.state ≠ .tearingdown →
      Effect net s e
        ({ s with
          clients := modify Client.num c.num (fun c => c.setState .connected) s.clients }.setPeer
            conn.wsi peer)
  /-- The connection ended and its client was not found. -/
  | lost {e : Event} {conn : Conn} : conn ∈ s.conns → e.ends = some conn.wsi →
      (∀ c ∈ s.clients, c.wsi ≠ some conn.wsi) →
      Effect net s e { s.disconnect conn.wsi with leaked := conn.leak net ++ s.leaked }
  | destroyed {e : Event} {conn : Conn} {c : Client} : conn ∈ s.conns →
      e.ends = some conn.wsi → c ∈ s.clients → c.num = conn.owner → c.wsi = some conn.wsi →
      c.state = .tearingdown →
      Effect net s e { s.disconnect conn.wsi with
        clients := remove Client.num c.num s.clients, leaked := conn.leak net ++ s.leaked }
  | again {e : Event} {conn : Conn} {c : Client} {f : Client → Client} : conn ∈ s.conns →
      e.ends = some conn.wsi → c ∈ s.clients → c.num = conn.owner → c.wsi = some conn.wsi →
      c.state ≠ .tearingdown → Again f → (∀ c, (f c).wsi = c.wsi ∨ (f c).wsi = none) →
      Effect net s e { s.disconnect conn.wsi with
        clients := modify Client.num c.num f s.clients, leaked := conn.leak net ++ s.leaked }

section

variable {net : Net} {s s' : State} {wsi : Wsi} {f : Conn → Except Fault State}

/-- An event of a connection does nothing or is about one there is. -/
theorem withConn_ok (h : withConn s wsi f = .ok s') :
    s' = s ∨ ∃ conn ∈ s.conns, conn.wsi = wsi ∧ f conn = .ok s' := by
  rw [withConn] at h
  split at h
  · cases h
    exact .inl rfl
  · next conn hfound =>
    exact .inr ⟨conn, List.mem_of_find?_eq_some hfound, by simpa using List.find?_some hfound, h⟩

theorem ne_of_not_taken {attempt : Attempt} (hwsi : attempt.wsi = some wsi)
    (h : ¬s.taken attempt = true) : ∀ conn ∈ s.conns, conn.wsi ≠ wsi := by
  intro conn hconn heq
  exact h (List.any_eq_true.mpr ⟨conn, hconn, by simp [hwsi, heq]⟩)

theorem effect_timer {num : ℕ} {attempt : Attempt} (ho : Owned s)
    (hfresh : FreshAddress s (.timer num attempt))
    (h : step net s (.timer num attempt) = .ok s') : Effect net s (.timer num attempt) s' := by
  simp only [step] at h
  split at h
  · cases h
    exact .idle
  · next c hfound =>
    have hmem : c ∈ s.clients := List.mem_of_find?_eq_some hfound
    obtain rfl : c.num = num := by simpa using List.find?_some hfound
    split at h
    · cases h
      exact .idle
    · next hpending =>
      rw [not_or] at hpending
      obtain ⟨htimer, htaken⟩ := hpending
      cases h
      cases attempt with
      | failed cleared =>
          simp only [utimerReconnectCb, State.expire, modify_expire]
          exact .gaveUp hmem htimer
      | refused wsi =>
          simp only [utimerReconnectCb, State.expire, modify_expire]
          have hown : ∀ d ∈ s.clients, d.wsi = some wsi → d.num = c.num :=
            fun d hd hw => hfresh d hd wsi rfl hw
          rcases refused_own ho.nums hown hmem rfl ended_onConnectionError with
            ⟨htd, heq⟩ | ⟨htd, heq⟩
          · exact heq ▸ .refusedLast hmem htimer htd
          · exact heq ▸ .refused hmem htimer htd
      | opened wsi =>
          simp only [utimerReconnectCb, State.expire, modify_expire]
          have hown : ∀ d ∈ s.clients, d.wsi = some wsi → d.num = c.num :=
            fun d hd hw => hfresh d hd wsi rfl hw
          exact opened_own hown hmem rfl ▸ .opened hmem htimer (ne_of_not_taken rfl htaken) hown

theorem effect_established {init : Bool} {handshake : Proxy.Handshake} (ho : Owned s)
    (h : step net s (.established wsi init handshake) = .ok s') :
    Effect net s (.established wsi init handshake) s' := by
  rcases withConn_ok h with rfl | ⟨conn, hmem, rfl, hf⟩
  · exact .idle
  · cases hf
    rw [onEstablished]
    split
    · next hblank =>
      split
      · exact .idle
      · next hdestroy =>
        rw [wsubusClientShouldDestroy] at hdestroy
        cases init with
        | false => exact .peer hmem (hblank ▸ .broke)
        | true =>
            cases hfound : getClientByWsi s.clients conn.wsi with
            | none => simp [hfound] at hdestroy
            | some c =>
                obtain ⟨hc, hwsi⟩ := getClientByWsi_eq_some hfound
                simp only [wsubusClientSetState, changeByWsi_of_some hfound]
                exact .established hmem (hblank ▸ .established) hc (ho.own conn hmem c hc hwsi)
                  hwsi (by simpa [hfound] using hdestroy)
    · exact .idle

/-- A connection that ends acts on the client it was opened for. -/
theorem effect_ended {e : Event} {conn : Conn} {again : Client → Client} {clients : List Client}
    (ho : Owned s) (hmem : conn ∈ s.conns) (hends : e.ends = some conn.wsi) (hagain : Again again)
    (hwsi : ∀ c, (again c).wsi = c.wsi ∨ (again c).wsi = none)
    (h : Ended again s.clients conn.wsi clients) :
    Effect net s e { s.disconnect conn.wsi with
      clients := clients, leaked := conn.leak net ++ s.leaked } := by
  cases h with
  | unknown hnone => exact .lost hmem hends hnone
  | @destroyed c hc hw htd => exact .destroyed hmem hends hc (ho.own conn hmem c hc hw) hw htd
  | @again c hc hw htd =>
      exact .again hmem hends hc (ho.own conn hmem c hc hw) hw htd hagain hwsi

theorem step_effect {e : Event} (ho : Owned s) (hfresh : FreshAddress s e)
    (h : step net s e = .ok s') : Effect net s e s' := by
  cases e with
  | create addr port path alloc =>
      simp only [step] at h
      split at h
      · cases h
        exact .idle
      · next hstarted =>
        cases h
        rw [State.addCreated]
        rcases wsubusClientCreate_cases with ⟨rc, -, heq⟩ | ⟨c, clients, heq, hcreated, -⟩
        · rw [heq]
          exact .refusedAdd
        · rw [heq]
          exact .created rfl hcreated fun hs => absurd hs hstarted
  | connectAll =>
      cases h
      exact .armed
  | add msg alloc =>
      cases h
      rw [State.addCreated]
      rcases addClient_cases with ⟨rc, -, heq⟩ | ⟨addr, c, clients, haddr, heq, hcreated, htimer⟩
      · rw [heq]
        exact .refusedAdd
      · rw [heq]
        exact .created haddr hcreated fun _ => htimer
  | remove msg =>
      simp only [step] at h
      split at h
      · cases h
      · next rc clients hremove =>
        cases h
        rcases removeClient_cases hremove with rfl | ⟨p, rfl⟩
        · exact .idle
        · exact .removed p
  | timer num attempt => exact effect_timer ho hfresh h
  | established wsi init handshake => exact effect_established ho h
  | writeable wsi =>
      rcases withConn_ok h with rfl | ⟨conn, -, -, hf⟩
      · exact .idle
      · cases hf
        exact .idle
  | closed wsi =>
      rcases withConn_ok h with rfl | ⟨conn, hmem, rfl, hf⟩
      · exact .idle
      · split at hf
        · cases hf
        · cases hf
          exact effect_ended ho hmem rfl again_reopen (fun _ => .inl rfl) ended_onClosed
  | connectionError wsi =>
      rcases withConn_ok h with rfl | ⟨conn, hmem, rfl, hf⟩
      · exact .idle
      · split at hf
        · cases hf
          exact .idle
        · next hpeer =>
          cases hf
          -- a connection that was not established has no stubs to leak
          have hleak : conn.leak net = [] := by
            rw [Conn.leak]
            split
            · next r hr => exact absurd hr (hpeer r)
            · rfl
          have hended : Effect net s (.connectionError conn.wsi) { s.disconnect conn.wsi with
              clients := onConnectionError net s.clients conn.wsi
              leaked := conn.leak net ++ s.leaked } :=
            effect_ended ho hmem rfl (again_retryLater net) (fun _ => .inr rfl)
              ended_onConnectionError
          rwa [hleak] at hended
  | remote wsi event =>
      rcases withConn_ok h with rfl | ⟨conn, hmem, rfl, hf⟩
      · exact .idle
      · split at hf
        · next r hpeer =>
          split at hf
          · next r' hstep =>
            cases hf
            exact .peer hmem (hpeer ▸ .remote hstep)
          · cases hf
        · cases hf
          exact .idle

end

end Owsd.Registry
