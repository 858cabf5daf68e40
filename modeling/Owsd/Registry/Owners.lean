import Owsd.Basis.Run
import Owsd.Registry.Effects

/-!
Connections and the clients they were opened for.

A callback finds its client by comparing pointers, and a client whose
connection was closed keeps the pointer to it. So a new connection of another
client may be taken for the old one when lws gives it the same address. Where
this does not happen, every connection acts on its own client.
-/

namespace Owsd.Registry

open Numbered

theorem owned_init : Owned init where
  nums := .nil
  below := by simp [init]
  wsis := .nil
  single := by simp [init]
  own := by simp [init]

/-! ### What the steps keep -/

/-- No client is new, every client has the address it had, and every pointer
was held by the same client before. -/
structure Kept (clients clients' : List Client) : Prop where
  nums : (clients'.map Client.num).Sublist (clients.map Client.num)
  addresses : ∀ d ∈ clients', ∃ c ∈ clients, c.num = d.num ∧ c.address = d.address
  pointers : ∀ d ∈ clients', ∀ wsi, d.wsi = some wsi →
    ∃ c ∈ clients, c.num = d.num ∧ c.wsi = some wsi

section

variable {clients : List Client} {n : ℕ} {f : Client → Client}

theorem Kept.refl (clients : List Client) : Kept clients clients :=
  ⟨.refl _, fun d hd => ⟨d, hd, rfl, rfl⟩, fun d hd _ hwsi => ⟨d, hd, rfl, hwsi⟩⟩

theorem kept_modify (hnum : ∀ c, (f c).num = c.num) (haddr : ∀ c, (f c).address = c.address)
    (hwsi : ∀ c, (f c).wsi = c.wsi ∨ (f c).wsi = none) :
    Kept clients (modify Client.num n f clients) := by
  constructor
  · rw [map_modify hnum]
  · intro d hd
    rcases mem_modify.mp hd with ⟨hmem, -⟩ | ⟨c, hc, -, rfl⟩
    · exact ⟨d, hmem, rfl, rfl⟩
    · exact ⟨c, hc, (hnum c).symm, (haddr c).symm⟩
  · intro d hd wsi hd'
    rcases mem_modify.mp hd with ⟨hmem, -⟩ | ⟨c, hc, -, rfl⟩
    · exact ⟨d, hmem, rfl, hd'⟩
    · rcases hwsi c with hsame | hnone
      · exact ⟨c, hc, (hnum c).symm, hsame.symm.trans hd'⟩
      · rw [hnone] at hd'
        cases hd'

theorem kept_giveUp (cleared : Bool) :
    Kept clients (modify Client.num n (Client.giveUp cleared) clients) := by
  refine kept_modify (fun _ => rfl) (fun _ => rfl) fun c => ?_
  cases cleared with
  | true => exact .inr rfl
  | false => exact .inl rfl

theorem kept_remove : Kept clients (remove Client.num n clients) := by
  constructor
  · exact remove_sublist.map Client.num
  · exact fun d hd => ⟨d, (mem_remove.mp hd).1, rfl, rfl⟩
  · exact fun d hd wsi hwsi => ⟨d, (mem_remove.mp hd).1, rfl, hwsi⟩

theorem kept_removeWhere (p : Client → Bool) : Kept clients (removeWhere p clients) := by
  constructor
  · exact removeWhere_map (fun _ => rfl) p clients
  · intro d hd
    rcases mem_removeWhere.mp hd with ⟨hmem, -⟩ | ⟨c, hc, -, -, rfl⟩
    · exact ⟨d, hmem, rfl, rfl⟩
    · exact ⟨c, hc, rfl, rfl⟩
  · intro d hd wsi hwsi
    rcases mem_removeWhere.mp hd with ⟨hmem, -⟩ | ⟨c, hc, -, -, rfl⟩
    · exact ⟨d, hmem, rfl, hwsi⟩
    · exact ⟨c, hc, rfl, hwsi⟩

theorem kept_connectIn (timeout : Int) :
    Kept clients (clients.map fun c => c.connectIn timeout) := by
  constructor
  · rw [List.map_map]
    exact .refl _
  · intro d hd
    obtain ⟨c, hc, rfl⟩ := List.mem_map.mp hd
    exact ⟨c, hc, rfl, rfl⟩
  · intro d hd wsi hwsi
    obtain ⟨c, hc, rfl⟩ := List.mem_map.mp hd
    exact ⟨c, hc, rfl, hwsi⟩

end

section

variable {net : Net} {s s' : State} {e : Event}

/-- The connections of a state are, up to what is known of their peers, among
those of another. -/
structure Fewer (conns conns' : List Conn) : Prop where
  wsis : (conns'.map Conn.wsi).Sublist (conns.map Conn.wsi)
  owners : ∀ conn' ∈ conns', ∃ conn ∈ conns, conn.wsi = conn'.wsi ∧ conn.owner = conn'.owner

theorem Fewer.refl (conns : List Conn) : Fewer conns conns :=
  ⟨.refl _, fun conn h => ⟨conn, h, rfl, rfl⟩⟩

theorem fewer_setPeer (s : State) (wsi : Wsi) (peer : Peer) :
    Fewer s.conns (s.setPeer wsi peer).conns := by
  constructor
  · have hmap : (s.setPeer wsi peer).conns.map Conn.wsi = s.conns.map Conn.wsi :=
      map_modify fun _ => rfl
    rw [hmap]
  · intro conn hconn
    rcases mem_modify.mp hconn with ⟨hmem, -⟩ | ⟨conn', hmem, -, rfl⟩
    · exact ⟨conn, hmem, rfl, rfl⟩
    · exact ⟨conn', hmem, rfl, rfl⟩

theorem fewer_disconnect (s : State) (wsi : Wsi) : Fewer s.conns (s.disconnect wsi).conns := by
  constructor
  · exact List.filter_sublist.map Conn.wsi
  · exact fun conn h => ⟨conn, (List.mem_filter.mp h).1, rfl, rfl⟩

theorem Owned.of_kept (h : Owned s) (hclients : Kept s.clients s'.clients)
    (hcreated : s'.created = s.created) (hconns : Fewer s.conns s'.conns) : Owned s' where
  nums := hclients.nums.nodup h.nums
  below := by
    intro d hd
    have hnum := hclients.nums.subset (List.mem_map_of_mem hd)
    obtain ⟨c, hc, heq⟩ := List.mem_map.mp hnum
    rw [hcreated, ← heq]
    exact h.below c hc
  wsis := hconns.wsis.nodup h.wsis
  single := by
    intro c hc d hd wsi hcw hdw
    obtain ⟨c₀, hc₀, hcn, hcw₀⟩ := hclients.pointers c hc wsi hcw
    obtain ⟨d₀, hd₀, hdn, hdw₀⟩ := hclients.pointers d hd wsi hdw
    rw [← hcn, ← hdn]
    exact h.single c₀ hc₀ d₀ hd₀ wsi hcw₀ hdw₀
  own := by
    intro conn hconn c hc hcw
    obtain ⟨conn₀, hconn₀, hw, ho⟩ := hconns.owners conn hconn
    obtain ⟨c₀, hc₀, hcn, hcw₀⟩ := hclients.pointers c hc _ hcw
    rw [← hcn, ← ho]
    exact h.own conn₀ hconn₀ c₀ hc₀ (hw ▸ hcw₀)

theorem owned_created {addr : CString} {c : Client} {clients : List Client} (h : Owned s)
    (hcreated : Created s addr c clients) :
    Owned { s with clients := clients, created := s.created + 1 } := by
  have hold : ∀ d ∈ clients, ∀ wsi, d.wsi = some wsi → d ∈ s.clients := by
    intro d hd wsi hwsi
    rcases hcreated.mem_iff.mp hd with rfl | hd
    · rw [hcreated.wsi] at hwsi
      cases hwsi
    · exact hd
  constructor
  · have hnew : c.num ∉ s.clients.map Client.num := by
      intro hnum
      obtain ⟨d, hd, heq⟩ := List.mem_map.mp hnum
      exact absurd (h.below d hd) (by rw [heq, hcreated.num]; exact lt_irrefl _)
    rw [(hcreated.perm.map Client.num).nodup_iff, List.map_cons, List.nodup_cons]
    exact ⟨hnew, h.nums⟩
  · intro d hd
    rcases hcreated.mem_iff.mp hd with rfl | hd
    · rw [hcreated.num]
      exact Nat.lt_succ_self _
    · exact (h.below d hd).trans (Nat.lt_succ_self _)
  · exact h.wsis
  · intro d hd d' hd' wsi hw hw'
    exact h.single d (hold d hd wsi hw) d' (hold d' hd' wsi hw') wsi hw hw'
  · exact fun conn hconn d hd hw => h.own conn hconn d (hold d hd _ hw) hw

theorem owned_opened {c : Client} {wsi : Wsi} (h : Owned s)
    (hconns : ∀ conn ∈ s.conns, conn.wsi ≠ wsi)
    (hfresh : ∀ d ∈ s.clients, d.wsi = some wsi → d.num = c.num) :
    Owned { s with
      given := wsi :: s.given
      conns := ⟨wsi, c.num, c.address, .blank⟩ :: s.conns
      clients := modify Client.num c.num (fun c => (c.begin wsi).setState .connecting)
        s.clients } := by
  -- a client that holds an old pointer is another one, and the new pointer is held by this one
  have hheld : ∀ d ∈ modify Client.num c.num (fun c => (c.begin wsi).setState .connecting)
      s.clients, ∀ w, d.wsi = some w →
      (w = wsi ∧ d.num = c.num) ∨ (d ∈ s.clients ∧ w ≠ wsi) := by
    intro d hd w hw
    rcases mem_modify.mp hd with ⟨hmem, hne⟩ | ⟨d', -, hn, rfl⟩
    · exact .inr ⟨hmem, fun heq => hne (hfresh d hmem (heq ▸ hw))⟩
    · exact .inl ⟨(Option.some.inj hw).symm, hn⟩
  constructor
  · have hmap : (modify Client.num c.num (fun c => (c.begin wsi).setState .connecting)
        s.clients).map Client.num = s.clients.map Client.num := map_modify fun _ => rfl
    exact hmap.symm ▸ h.nums
  · intro d hd
    rcases mem_modify.mp hd with ⟨hmem, -⟩ | ⟨d', hmem, -, rfl⟩
    · exact h.below d hmem
    · exact h.below d' hmem
  · rw [List.map_cons, List.nodup_cons]
    refine ⟨fun hmem => ?_, h.wsis⟩
    obtain ⟨conn, hconn, heq⟩ := List.mem_map.mp hmem
    exact hconns conn hconn heq
  · intro d hd d' hd' w hw hw'
    rcases hheld d hd w hw with ⟨rfl, hn⟩ | ⟨hmem, hne⟩
    · rcases hheld d' hd' _ hw' with ⟨-, hn'⟩ | ⟨-, hne'⟩
      · rw [hn, hn']
      · exact absurd rfl hne'
    · rcases hheld d' hd' w hw' with ⟨heq, -⟩ | ⟨hmem', -⟩
      · exact absurd heq hne
      · exact h.single d hmem d' hmem' w hw hw'
  · intro conn hconn d hd hw
    rcases List.mem_cons.mp hconn with rfl | hconn
    · rcases hheld d hd _ hw with ⟨-, hn⟩ | ⟨-, hne⟩
      · exact hn
      · exact absurd rfl hne
    · rcases hheld d hd _ hw with ⟨heq, -⟩ | ⟨hmem, -⟩
      · exact absurd heq (hconns conn hconn)
      · exact h.own conn hconn d hmem hw

theorem owned_effect (h : Owned s) (he : Effect net s e s') : Owned s' := by
  cases he with
  | idle => exact h
  | refusedAdd => exact ⟨h.nums, fun c hc => (h.below c hc).trans (Nat.lt_succ_self _), h.wsis,
      h.single, h.own⟩
  | created _ hcreated _ => exact owned_created h hcreated
  | armed => exact h.of_kept (kept_connectIn 0) rfl (.refl _)
  | removed p => exact h.of_kept (kept_removeWhere p) rfl (.refl _)
  | gaveUp _ _ => exact h.of_kept (kept_giveUp _) rfl (.refl _)
  | refused _ _ _ =>
      exact h.of_kept (kept_modify (fun _ => rfl) (fun _ => rfl) fun _ => .inr rfl) rfl (.refl _)
  | refusedLast _ _ _ => exact h.of_kept kept_remove rfl (.refl _)
  | opened _ _ hconns hfresh => exact owned_opened h hconns hfresh
  | peer _ _ => exact h.of_kept (.refl _) rfl (fewer_setPeer s _ _)
  | established _ _ _ _ _ _ =>
      exact h.of_kept (kept_modify (fun _ => rfl) (fun _ => rfl) fun _ => .inl rfl) rfl
        (fewer_setPeer _ _ _)
  | lost _ _ _ => exact h.of_kept (.refl _) rfl (fewer_disconnect s _)
  | destroyed _ _ _ _ _ _ => exact h.of_kept kept_remove rfl (fewer_disconnect s _)
  | again _ _ _ _ _ _ hagain hwsi =>
      exact h.of_kept (kept_modify hagain.num hagain.address hwsi) rfl (fewer_disconnect s _)

/-- What becomes of the clients: nothing new comes of them, or one is created,
or one gets a new connection. -/
theorem clients_effect (he : Effect net s e s') :
    (Kept s.clients s'.clients ∧ ∀ wsi ∈ s.given, wsi ∈ s'.given) ∨
    (∃ addr c, e.address = some addr ∧ Created s addr c s'.clients ∧ s'.given = s.given) ∨
    ∃ n wsi, s'.given = wsi :: s.given ∧
      s'.clients = modify Client.num n (fun c => (c.begin wsi).setState .connecting)
        s.clients := by
  have hsame : ∀ wsi ∈ s.given, wsi ∈ s.given := fun _ h => h
  cases he with
  | idle => exact .inl ⟨.refl _, hsame⟩
  | refusedAdd => exact .inl ⟨.refl _, hsame⟩
  | created haddr hcreated _ => exact .inr (.inl ⟨_, _, haddr, hcreated, rfl⟩)
  | armed => exact .inl ⟨kept_connectIn 0, hsame⟩
  | removed p => exact .inl ⟨kept_removeWhere p, hsame⟩
  | gaveUp _ _ => exact .inl ⟨kept_giveUp _, hsame⟩
  | refused _ _ _ =>
      exact .inl ⟨kept_modify (fun _ => rfl) (fun _ => rfl) fun _ => .inr rfl,
        fun _ h => List.mem_cons_of_mem _ h⟩
  | refusedLast _ _ _ => exact .inl ⟨kept_remove, fun _ h => List.mem_cons_of_mem _ h⟩
  | opened _ _ _ _ => exact .inr (.inr ⟨_, _, rfl, rfl⟩)
  | peer _ _ => exact .inl ⟨.refl _, hsame⟩
  | established _ _ _ _ _ _ =>
      exact .inl ⟨kept_modify (fun _ => rfl) (fun _ => rfl) fun _ => .inl rfl, hsame⟩
  | lost _ _ _ => exact .inl ⟨.refl _, hsame⟩
  | destroyed _ _ _ _ _ _ => exact .inl ⟨kept_remove, hsame⟩
  | again _ _ _ _ _ _ hagain hwsi =>
      exact .inl ⟨kept_modify hagain.num hagain.address hwsi, hsame⟩

theorem owned_step (h : Owned s) (hfresh : FreshAddress s e) (hstep : step net s e = .ok s') :
    Owned s' :=
  owned_effect h (step_effect h hfresh hstep)

theorem owned_run {es : List Event} (hg : Guarded (step net) FreshAddress init es)
    (hrun : run (step net) init es = .ok s) : Owned s :=
  run_invariant Owned (fun _ _ _ h hf hs => owned_step h hf hs) owned_init hg hrun

end

/-! ### Acting on the own client -/

def Event.callback : Event → Option Wsi
  | .established wsi _ _ => some wsi
  | .writeable wsi => some wsi
  | .closed wsi => some wsi
  | .connectionError wsi => some wsi
  | _ => none

/-- The event acts on no client but the one whose connection it is about. -/
structure ActsOnOwn (s : State) (e : Event) (s' : State) : Prop where
  /-- The client a callback finds is that of its connection. -/
  reads : ∀ conn ∈ s.conns, e.callback = some conn.wsi →
    ∀ c, getClientByWsi s.clients conn.wsi = some c → c.num = conn.owner
  /-- A callback leaves the other clients as they are. -/
  changes : ∀ conn ∈ s.conns, e.callback = some conn.wsi →
    remove Client.num conn.owner s'.clients = remove Client.num conn.owner s.clients
  /-- So does the callback of a timer, and what it finds is the client of the
  timer. -/
  connects : ∀ num attempt, e = .timer num attempt →
    remove Client.num num s'.clients = remove Client.num num s.clients ∧
      ∀ wsi, attempt.wsi = some wsi →
        ∀ c, getClientByWsi (modify Client.num num (Client.begin wsi) s.clients) wsi = some c →
          c.num = num

section

variable {net : Net} {s s' : State} {e : Event}

/-- The connection of a callback is determined by its address. -/
theorem Owned.conn_eq (h : Owned s) {conn conn' : Conn} (hc : conn ∈ s.conns)
    (hc' : conn' ∈ s.conns) (hwsi : conn.wsi = conn'.wsi) : conn = conn' :=
  eq_of_num_eq h.wsis hc hc' hwsi

theorem changes_effect (h : Owned s) (he : Effect net s e s') :
    ∀ conn ∈ s.conns, e.callback = some conn.wsi →
      remove Client.num conn.owner s'.clients = remove Client.num conn.owner s.clients := by
  intro conn hconn hcall
  have hends : ∀ conn' ∈ s.conns, e.ends = some conn'.wsi → conn' = conn := by
    intro conn' hconn' hend
    refine h.conn_eq hconn' hconn (Option.some.inj ?_)
    cases e with
    | closed wsi => exact hend.symm.trans hcall
    | connectionError wsi => exact hend.symm.trans hcall
    | _ => cases hend
  cases he with
  | idle => rfl
  | refusedAdd => rfl
  | @created e _ _ _ haddr _ _ =>
      cases e with
      | create _ _ _ _ => cases hcall
      | add _ _ => cases hcall
      | _ => cases haddr
  | armed => cases hcall
  | removed p => cases hcall
  | gaveUp _ _ => cases hcall
  | refused _ _ _ => cases hcall
  | refusedLast _ _ _ => cases hcall
  | opened _ _ _ _ => cases hcall
  | peer _ _ => rfl
  | @established _ conn' c peer hconn' hpeer _ hown _ _ =>
      have hwsi : conn'.wsi = conn.wsi := by
        rcases hpeer.event with ⟨_, _, rfl⟩ | ⟨_, rfl⟩
        · exact Option.some.inj hcall
        · cases hcall
      obtain rfl := h.conn_eq hconn' hconn hwsi
      rw [← hown]
      exact remove_modify fun _ => rfl
  | lost _ _ _ => rfl
  | destroyed hconn' hend _ hown _ _ =>
      obtain rfl := hends _ hconn' hend
      rw [← hown]
      exact remove_remove
  | again hconn' hend _ hown _ _ hagain _ =>
      obtain rfl := hends _ hconn' hend
      rw [← hown]
      exact remove_modify hagain.num

theorem connects_effect {num : ℕ} {attempt : Attempt}
    (he : Effect net s (.timer num attempt) s') :
    remove Client.num num s'.clients = remove Client.num num s.clients := by
  cases he with
  | idle => rfl
  | refusedAdd => rfl
  | created haddr _ _ => cases haddr
  | gaveUp _ _ => exact remove_modify fun _ => rfl
  | refused _ _ _ => exact remove_modify fun _ => rfl
  | refusedLast _ _ _ => exact remove_remove
  | opened _ _ _ _ => exact remove_modify fun _ => rfl
  | peer _ _ => rfl
  | established _ hpeer _ _ _ _ =>
      rcases hpeer.event with ⟨_, _, heq⟩ | ⟨_, heq⟩ <;> cases heq
  | lost _ hend _ => cases hend
  | destroyed _ hend _ _ _ _ => cases hend
  | again _ hend _ _ _ _ _ _ => cases hend

theorem actsOnOwn_step (h : Owned s) (hfresh : FreshAddress s e)
    (hstep : step net s e = .ok s') : ActsOnOwn s e s' where
  reads := by
    intro conn hconn _ c hfound
    obtain ⟨hc, hwsi⟩ := getClientByWsi_eq_some hfound
    exact h.own conn hconn c hc hwsi
  changes := changes_effect h (step_effect h hfresh hstep)
  connects := by
    rintro num attempt rfl
    refine ⟨connects_effect (step_effect h hfresh hstep), fun wsi hwsi c hfound => ?_⟩
    obtain ⟨hc, hcw⟩ := getClientByWsi_eq_some hfound
    obtain ⟨d, -, hn, rfl⟩ := num_of_begin (fun d hd hw => hfresh d hd wsi hwsi hw) hc hcw
    exact hn

end

/-- Connections act on their own clients. In a run in which no new connection
gets an address that another client still holds, no two clients ever hold the
same pointer, and every callback and every timer reads and changes only the
client its connection was opened for. -/
theorem ownClients_run {net : Net} {s : State} {es : List Event}
    (hg : Guarded (step net) FreshAddress init es) (hrun : run (step net) init es = .ok s) :
    s.clients.Pairwise (fun c d => c.wsi = none ∨ c.wsi ≠ d.wsi) ∧
      ∀ e s', FreshAddress s e → step net s e = .ok s' → ActsOnOwn s e s' := by
  have ho := owned_run hg hrun
  refine ⟨pairwise_of_ne ho.nums fun c hc d hd hne => ?_, fun e s' => actsOnOwn_step ho⟩
  cases hwsi : c.wsi with
  | none => exact .inl rfl
  | some wsi => exact .inr fun heq => hne (ho.single c hc d hd wsi hwsi heq.symm)

def twoHosts : Net where
  inetPton addr := addr = .ofString "10.0.0.1" ∨ addr = .ofString "10.0.0.2"
  inetPton_short := by
    intro addr h
    have : addr = .ofString "10.0.0.1" ∨ addr = .ofString "10.0.0.2" := by simpa using h
    rcases this with rfl | rfl <;> decide
  peerSimple addr := addr.filter fun c => c ≠ slash
  peerSimple_noSlash := by simp
  retryTimeout := 2000
  allocator := Proxy.bumpAllocator
  matchPattern := Proxy.acceptAll

/-- Both hosts are configured, and the connection to the first one was
closed. -/
def firstClosed : List Event :=
  [.create (.ofString "10.0.0.1") 443 (.ofString "/") true,
    .create (.ofString "10.0.0.2") 443 (.ofString "/") true,
    .connectAll, .timer 0 (.opened 7), .established 7 true ⟨false, none⟩, .closed 7]

/-- The second one gets another address. -/
theorem ownClients_run_two :
    ∃ s, run (step twoHosts) init (firstClosed ++ [.timer 1 (.opened 8)]) = .ok s ∧
      s.clients.map Client.wsi = [some 7, some 8] ∧
      s.clients.Pairwise (fun c d => c.wsi = none ∨ c.wsi ≠ d.wsi) := by
  have hg : Guarded (step twoHosts) FreshAddress init
      (firstClosed ++ [.timer 1 (.opened 8)]) :=
    .cons trivial rfl (.cons trivial rfl (.cons trivial rfl (.cons (by decide) rfl
      (.cons trivial rfl (.cons trivial rfl (.cons (by decide) rfl trivial))))))
  obtain ⟨s, hrun, hwsi⟩ : ∃ s, run (step twoHosts) init
      (firstClosed ++ [.timer 1 (.opened 8)]) = .ok s ∧
      s.clients.map Client.wsi = [some 7, some 8] := ⟨_, rfl, rfl⟩
  exact ⟨s, hrun, hwsi, (ownClients_run hg hrun).1⟩

/-- The second one gets the address of the connection that was closed: both
clients hold it, and the state of the first is changed in place of that of the
second. -/
theorem stale_pointer_shared :
    ∃ s s', run (step twoHosts) init firstClosed = .ok s ∧
      step twoHosts s (.timer 1 (.opened 7)) = .ok s' ∧
      s.clients.map Client.state = [.disconnected, .disconnected] ∧
      s'.clients.map Client.state = [.connecting, .disconnected] ∧
      s'.clients.map Client.wsi = [some 7, some 7] :=
  ⟨_, _, rfl, rfl, rfl, rfl, rfl⟩

end Owsd.Registry
