import Owsd.Registry.LifeCycle
import Owsd.Uproxyd.StaleClients

/-!
Hosts of the network and clients of owsd (`uproxyd.c`).

uproxyd hears of hosts that come and go, asks for all hosts from time to
time, and has owsd add and remove clients accordingly. The two daemons run
side by side, so between two calls of uproxyd anything can happen in owsd:
connections open, fail and are closed, and a client that was removed stays
until its connection is gone. A client is live until then, and which clients
are live follows from what uproxyd heard last (`clients_follow_hosts`).
-/

namespace Owsd.Uproxyd

open Registry Numbered

/-! ### The daemon -/

def jsonGetBool (object : Json) (key : CString) : Int :=
  match object.getEx key with
  | some (.bool b) => if b then 1 else 0
  | _ => -1

def jsonGetString (object : Json) (key : CString) : Option CString :=
  match object.getEx key with
  | some (.string s) => some s
  | _ => none

/-- What uproxyd calls of `owsd.ubusproxy`. -/
inductive Call where
  | add (ip : CString)
  | removeIp (ip : CString)
  | removeIndex (index : Int)

/-- `owsd_add_client` and `owsd_remove_client`, when owsd is on the bus and
has the memory for a client. -/
def Call.event : Call → Event
  | .add ip => .add [(.ofString "ip", .string ip)] true
  | .removeIp ip => .remove [(.ofString "ip", .string ip)]
  | .removeIndex index => .remove [(.ofString "index", .int32 (BitVec.ofInt 32 index))]

/-- `receive_event_cb` on the parsed message, if it could be parsed. -/
def receiveEventCb (msg : Option Json) : List Call :=
  match msg.bind fun m => jsonGetString m (.ofString "action") with
  | none => []
  | some action =>
      match msg.bind fun m => jsonGetString m (.ofString "ipaddr") with
      | none => []
      | some ipaddr =>
          if strcmp action (.ofString "connect") = 0 then [.add ipaddr]
          else if strcmp action (.ofString "disconnect") = 0 then [.removeIp ipaddr]
          else []

/-- The loop of `add_all_clients_cb`. `-1` counts as connected. -/
def addHosts : List Json → List Call
  | [] => []
  | elem :: rest =>
      if isNull elem then addHosts rest
      else if jsonGetBool elem (.ofString "connected") = 0 then addHosts rest
      else
        match jsonGetString elem (.ofString "ipaddr") with
        | some ipaddr => .add ipaddr :: addHosts rest
        | none => addHosts rest

/-- `add_all_clients_cb` on the parsed message. -/
def addAllClientsCb (msg : Option Json) : List Call :=
  match msg.bind fun m => m.getEx (.ofString "hosts") with
  | some (.array hosts) => addHosts hosts
  | _ => []

/-- What comes in: an event about a host, the hosts of the network, or the
clients of owsd. -/
inductive Message where
  | event (msg : Option Json)
  | hosts (msg : Option Json)
  | clients (msg : Option Json)

def Makes (max : MaxReconnectTime) : Message → List Call → Prop
  | .event msg, calls => calls = receiveEventCb msg
  | .hosts msg, calls => calls = addAllClientsCb msg
  | .clients msg, calls => ∃ fuel indexes,
      cleanStaleClientsCb max msg fuel = some indexes ∧ calls = indexes.map .removeIndex

/-! ### Both daemons -/

inductive Happening where
  | call (c : Call)
  | owsd (e : Event)

namespace Happening

def event : Happening → Event
  | call c => c.event
  | owsd e => e

def call? : Happening → Option Call
  | call c => some c
  | owsd _ => none

end Happening

def together (net : Net) (s : State) (h : Happening) : Except Fault State := step net s h.event

/-- The event does not add or remove clients of the address. -/
def Leaves (a : CString) (s : State) : Event → Prop
  | .create addr _ _ _ => addr ≠ a
  | .add msg _ => addedIp msg ≠ some a
  | .remove msg => ∀ rc clients, removeClient s.clients msg = some (rc, clients) →
      ∀ c ∈ s.clients, c.address = a → c ∈ clients
  | _ => True

/-- Only the events about hosts and the scans of all hosts make owsd add or
remove clients of the address, and lws keeps its promises. -/
def Undisturbed (a : CString) (s : State) : Happening → Prop
  | .call (.add _) => True
  | .call (.removeIp _) => True
  | .call (.removeIndex index) => Leaves a s (Call.removeIndex index).event
  | .owsd e => Leaves a s e ∧ Orderly s e

/-! ### What it is for -/

/-- A client of the address that is not being torn down. -/
def Live (a : CString) (c : Client) : Prop := c.address = a ∧ c.state ≠ .tearingdown

def HasLive (a : CString) (clients : List Client) : Prop := ∃ c ∈ clients, Live a c

/-! ### Calls -/

def Call.tells (a : CString) (there : Bool) : Call → Bool
  | .add ip => if ip = a then true else there
  | .removeIp ip => if ip = a then false else there
  | .removeIndex _ => there

section
variable {net : Net} {s s' : State} {a : CString} {c : Client} {f : Client → Client}

theorem disconnected_ne : ConnectionState.disconnected ≠ .tearingdown := by decide

theorem connecting_ne : ConnectionState.connecting ≠ .tearingdown := by decide

theorem connected_ne : ConnectionState.connected ≠ .tearingdown := by decide

/-- A write to a client that is not being torn down, and is not afterwards. -/
theorem hasLive_modify (hnums : (s.clients.map Client.num).Nodup) (hc : c ∈ s.clients)
    (hup : c.state ≠ .tearingdown) (haddr : (f c).address = c.address)
    (hup' : (f c).state ≠ .tearingdown) :
    HasLive a (modify Client.num c.num f s.clients) ↔ HasLive a s.clients := by
  constructor
  · rintro ⟨d, hd, hlive⟩
    rcases mem_modify.mp hd with ⟨hd, -⟩ | ⟨d', hd', hnum, rfl⟩
    · exact ⟨d, hd, hlive⟩
    · obtain rfl := eq_of_num_eq hnums hd' hc hnum
      exact ⟨d', hc, haddr ▸ hlive.1, hup⟩
  · rintro ⟨d, hd, hlive⟩
    by_cases hnum : d.num = c.num
    · obtain rfl := eq_of_num_eq hnums hd hc hnum
      exact ⟨f d, mem_modify.mpr (.inr ⟨d, hc, rfl, rfl⟩), haddr.trans hlive.1, hup'⟩
    · exact ⟨d, mem_modify.mpr (.inl ⟨hd, hnum⟩), hlive⟩

theorem hasLive_remove (hnums : (s.clients.map Client.num).Nodup) (hc : c ∈ s.clients)
    (htd : c.state = .tearingdown) :
    HasLive a (remove Client.num c.num s.clients) ↔ HasLive a s.clients := by
  constructor
  · rintro ⟨d, hd, hlive⟩
    exact ⟨d, (mem_remove.mp hd).1, hlive⟩
  · rintro ⟨d, hd, hlive⟩
    refine ⟨d, mem_remove.mpr ⟨hd, fun hnum => ?_⟩, hlive⟩
    obtain rfl := eq_of_num_eq hnums hd hc hnum
    exact hlive.2 htd

theorem hasLive_connectIn (clients : List Client) :
    HasLive a (clients.map fun c => c.connectIn 0) ↔ HasLive a clients := by
  constructor
  · rintro ⟨d, hd, hlive⟩
    obtain ⟨c, hc, rfl⟩ := List.mem_map.mp hd
    exact ⟨c, hc, hlive⟩
  · rintro ⟨c, hc, hlive⟩
    exact ⟨c.connectIn 0, List.mem_map_of_mem hc, hlive⟩

theorem hasLive_removeWhere {p : Client → Bool} {clients : List Client} :
    HasLive a (removeWhere p clients) ↔ ∃ c ∈ clients, Live a c ∧ p c = false := by
  constructor
  · rintro ⟨d, hd, hlive⟩
    rcases mem_removeWhere.mp hd with ⟨hd, hp⟩ | ⟨c, -, -, -, rfl⟩
    · exact ⟨d, hd, hlive, hp⟩
    · exact absurd rfl hlive.2
  · rintro ⟨c, hc, hlive, hp⟩
    exact ⟨c, mem_removeWhere.mpr (.inl ⟨hc, hp⟩), hlive⟩

theorem Created.hasLive {addr : CString} {clients : List Client} (h : Created s addr c clients) :
    HasLive a clients ↔ addr = a ∨ HasLive a s.clients := by
  constructor
  · rintro ⟨d, hd, hlive⟩
    rcases h.mem_iff.mp hd with rfl | hd
    · exact .inl (h.address.symm.trans hlive.1)
    · exact .inr ⟨d, hd, hlive⟩
  · rintro (rfl | ⟨d, hd, hlive⟩)
    · refine ⟨c, h.mem_iff.mpr (.inl rfl), h.address, ?_⟩
      rw [h.state]
      decide
    · exact ⟨d, h.mem_iff.mpr (.inr hd), hlive⟩

/-- An event that does not add or remove clients of the address. -/
theorem hasLive_step {e : Event} (ht : Tidy s) (hreg : Regular s e) (hleaves : Leaves a s e)
    (hstep : step net s e = .ok s') : HasLive a s'.clients ↔ HasLive a s.clients := by
  have htimer : ∀ {d : Client}, d ∈ s.clients → d.timer ≠ none → d.state ≠ .tearingdown := by
    intro d hd ht'
    rw [(ht.settled d hd).timer ht']
    decide
  have heffect := step_effect ht.owned hreg.1 hstep
  cases heffect with
  | idle => exact Iff.rfl
  | refusedAdd => exact Iff.rfl
  | @created _ addr c clients haddr hcreated _ =>
      have hne : addr ≠ a := by
        rintro rfl
        cases e with
        | create addr' port path alloc => exact hleaves (Option.some.inj haddr)
        | add msg alloc => exact hleaves haddr
        | _ => cases haddr
      rw [Created.hasLive hcreated]
      exact or_iff_right hne
  | armed => exact hasLive_connectIn s.clients
  | @removed msg p =>
      simp only [step] at hstep
      split at hstep
      · cases hstep
      · next rc clients hremove =>
        cases hstep
        constructor
        · intro h
          obtain ⟨c, hc, hlive, -⟩ := hasLive_removeWhere.mp h
          exact ⟨c, hc, hlive⟩
        · rintro ⟨c, hc, hlive⟩
          exact ⟨c, hleaves rc _ hremove c hc hlive.1, hlive⟩
  | gaveUp hc ht' =>
      have hup := htimer hc ht'
      exact hasLive_modify ht.owned.nums hc hup rfl hup
  | refused hc ht' hup => exact hasLive_modify ht.owned.nums hc hup rfl disconnected_ne
  | refusedLast hc ht' htd => exact absurd htd (htimer hc ht')
  | opened hc ht' _ _ =>
      exact hasLive_modify ht.owned.nums hc (htimer hc ht') rfl connecting_ne
  | peer _ _ => exact Iff.rfl
  | established _ _ hc _ _ hup => exact hasLive_modify ht.owned.nums hc hup rfl connected_ne
  | lost _ _ _ => exact Iff.rfl
  | destroyed _ _ hc _ _ htd => exact hasLive_remove ht.owned.nums hc htd
  | @again _ _ c _ _ _ hc _ _ hup hagain _ =>
      refine hasLive_modify ht.owned.nums hc hup (hagain.address c) ?_
      rw [hagain.state]
      exact disconnected_ne

theorem hasLive_add {ip : CString} (hstep : step net s (Call.add ip).event = .ok s') :
    HasLive a s'.clients ↔ (ip = a ∧ net.inetPton a = true) ∨ HasLive a s.clients := by
  have hadd : addClient net s.clients s.created [(.ofString "ip", .string ip)] true =
      wsubusClientCreate net s.clients s.created ip wssPort (.ofString "/") .fromUbus true := rfl
  simp only [Call.event, step, hadd] at hstep
  cases hstep
  show HasLive a (wsubusClientCreate net s.clients s.created ip wssPort _ _ true).2 ↔ _
  by_cases hvalid : net.inetPton ip = true
  · have hport : validateIpPortPath net ip wssPort = some wssPort := by
      rw [validateIpPortPath, hvalid]
      rfl
    by_cases hunique : uniqueIp s.clients ip = false
    · -- There is a live client of this address already.
      rw [wsubusClientCreate, hport]
      simp only [if_pos hunique]
      refine ⟨.inr, ?_⟩
      rintro (⟨rfl, -⟩ | hlive)
      · obtain ⟨c, hc, hnot⟩ := List.all_eq_false.mp hunique
        simp only [decide_eq_true_iff, not_or, not_not] at hnot
        exact ⟨c, hc, (strcmp_eq_zero_iff.mp hnot.1).symm, hnot.2⟩
      · exact hlive
    · rcases @wsubusClientCreate_cases net s ip (.ofString "/") wssPort .fromUbus true with
        ⟨rc, hrc, heq⟩ | ⟨c, clients, heq, hcreated, -⟩
      · rw [wsubusClientCreate, hport] at heq
        simp only [if_neg hunique] at heq
        exact absurd (congrArg Prod.fst heq).symm hrc
      · rw [heq, Created.hasLive hcreated]
        constructor
        · rintro (rfl | hlive)
          · exact .inl ⟨rfl, hvalid⟩
          · exact .inr hlive
        · rintro (⟨rfl, -⟩ | hlive)
          · exact .inl rfl
          · exact .inr hlive
  · have hport : validateIpPortPath net ip wssPort = none := by
      rw [validateIpPortPath, if_pos (Bool.eq_false_iff.mpr hvalid)]
    rw [wsubusClientCreate, hport]
    refine ⟨.inr, ?_⟩
    rintro (⟨rfl, h⟩ | hlive)
    · exact absurd h hvalid
    · exact hlive

theorem hasLive_removeIp {ip : CString} (hstep : step net s (Call.removeIp ip).event = .ok s') :
    HasLive a s'.clients ↔ ip ≠ a ∧ HasLive a s.clients := by
  have hremove : removeClient s.clients [(.ofString "ip", .string ip)] =
      some (Rpc.ubusStatusOk, removeWhere (fun c => strcmp ip c.address = 0) s.clients) := rfl
  simp only [Call.event, step, hremove] at hstep
  cases hstep
  rw [hasLive_removeWhere]
  simp only [decide_eq_false_iff_not, strcmp_eq_zero_iff]
  constructor
  · rintro ⟨c, hc, hlive, hne⟩
    exact ⟨fun h => hne (h.trans hlive.1.symm), c, hc, hlive⟩
  · rintro ⟨hne, c, hc, hlive⟩
    exact ⟨c, hc, hlive, fun h => hne (h.trans hlive.1)⟩

end

/-! ### Runs -/

section
variable {net : Net} {s s' : State} {a : CString}

theorem Undisturbed.orderly {h : Happening} (hg : Undisturbed a s h) : Orderly s h.event := by
  cases h with
  | call c => cases c <;> exact trivial
  | owsd e => exact hg.2

theorem follows_step {h : Happening} {there : Bool} (ht : Tidy s) (hgiven : Given s)
    (hg : Undisturbed a s h) (hlive : HasLive a s.clients ↔ net.inetPton a = true ∧ there = true)
    (hstep : together net s h = .ok s') :
    HasLive a s'.clients ↔
      net.inetPton a = true ∧ (h.call?.toList.foldl (Call.tells a) there) = true := by
  have hreg := hg.orderly.regular hgiven
  cases h with
  | owsd e => exact (hasLive_step ht hreg hg.1 hstep).trans hlive
  | call c =>
      cases c with
      | removeIndex index => exact (hasLive_step ht hreg hg hstep).trans hlive
      | add ip =>
          rw [hasLive_add hstep, hlive]
          by_cases hip : ip = a
          · simp [Happening.call?, Call.tells, hip]
            tauto
          · simp [Happening.call?, Call.tells, hip]
      | removeIp ip =>
          rw [hasLive_removeIp hstep, hlive]
          by_cases hip : ip = a
          · simp [Happening.call?, Call.tells, hip]
          · simp [Happening.call?, Call.tells, hip]

theorem follows_run {hs : List Happening} (hg : Guarded (together net) (Undisturbed a) init hs)
    (hrun : run (together net) init hs = .ok s) :
    Tidy s ∧ (HasLive a s.clients ↔ net.inetPton a = true ∧
      (hs.filterMap Happening.call?).foldl (Call.tells a) false = true) := by
  have hall : (Tidy s ∧ Given s) ∧ (HasLive a s.clients ↔ net.inetPton a = true ∧
      (hs.filterMap Happening.call?).foldl (Call.tells a) false = true) := by
    refine guarded_history (fun hs s => (Tidy s ∧ Given s) ∧ (HasLive a s.clients ↔
      net.inetPton a = true ∧ (hs.filterMap Happening.call?).foldl (Call.tells a) false = true))
      ⟨⟨tidy_init, by simp [Given, init]⟩, by simp [HasLive, init]⟩ ?_ hg hrun
    rintro hs s h s' ⟨⟨ht, hgiven⟩, hlive⟩ hg hstep
    have hreg := hg.orderly.regular hgiven
    refine ⟨⟨tidy_step ht hreg hstep, given_effect hgiven (step_effect ht.owned hreg.1 hstep)⟩, ?_⟩
    rw [follows_step ht hgiven hg hlive hstep, List.filterMap_append, List.foldl_append]
    cases h <;> rfl
  exact ⟨hall.1.1, hall.2⟩

end

end Owsd.Uproxyd
