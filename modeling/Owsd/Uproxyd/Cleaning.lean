import Owsd.Basis.Decimal
import Owsd.Registry.Indexes
import Owsd.Uproxyd.Hosts

/-!
Cleanings (`clean_stale_clients` of `uproxyd.c`, `list_client` of
`wsubus_client.c`).

Every few seconds uproxyd has owsd list its clients and removes those that
were not reached for too long. The loop over the list passes clients over:
after a removal it goes on behind the position that the index of the client
names. In a list of owsd that is never before the client itself, so a
cleaning ends, and the first client out of reach is always found. What is
left over is found by the cleanings after it (`cleanings_remove_stale`).
-/

namespace Owsd.Uproxyd

open Registry Numbered

/-! ### The list of clients -/

/-- `state_names`. -/
def stateName : ConnectionState → CString
  | .disconnected => .ofString "Disconnected"
  | .connecting => .ofString "Connecting"
  | .connected => .ofString "Connected"
  | .tearingdown => .ofString "Teardown"

/-- `dump_client`. The name is cut where its buffer ends; every client is made
for the same protocol and with SSL. -/
def dumpClient (c : Client) : Attr :=
  ((.ofString "proxy-" ++ natText c.index).take 15, .table
    [(.ofString "index", .int32 (BitVec.ofNat 32 c.index)),
      (.ofString "ip", .string c.address),
      (.ofString "port", .int32 (BitVec.ofInt 32 c.port)),
      (.ofString "path", .string c.path),
      (.ofString "protocol", .string (.ofString "ubus-json")),
      (.ofString "SSL", .int8 1),
      (.ofString "type", .string
        (if c.type = .fromUbus then .ofString "ubus" else .ofString "uci")),
      (.ofString "state", .string (stateName c.state)),
      (.ofString "reconnect_count", .int32 (BitVec.ofNat 32 c.reconnectCount))])

/-- What `list_client` replies. The clients are in an array unless one of them
was asked for. -/
def listReply (clients : List Client) (msg : List Attr) : List Attr :=
  let dumped := (listClient clients msg).map dumpClient
  match blobmsgParse clientIndexPolicy msg with
  | [some _] => dumped
  | _ => [(.ofString "clients", .array dumped)]

def listed (clients : List Client) : Json := (Blob.table (listReply clients [])).toJson

/-! ### Cleanings -/

/-- A cleaning: the callback for the list ends, and owsd takes its calls. -/
def Cleans (net : Net) (max : MaxReconnectTime) (s s' : State) : Prop :=
  ∃ calls, Makes max (.clients (some (listed s.clients))) calls ∧
    run (together net) s (calls.map .call) = .ok s'

/-- The client was not reached for too long. -/
def OutOfReach (max : MaxReconnectTime) (c : Client) : Prop := max.val < c.reconnectCount

instance (max : MaxReconnectTime) (c : Client) : Decidable (OutOfReach max c) :=
  inferInstanceAs (Decidable (_ < _))

/-- The index and the count of a client are an `int`, with room for one more
client. -/
structure InRange (c : Client) : Prop where
  index : (c.index : Int) < intMax
  reconnectCount : (c.reconnectCount : Int) ≤ intMax

/-! ### What uproxyd reads -/

section
variable {c : Client} {clients : List Client} {max : MaxReconnectTime}

theorem listed_eq (clients : List Client) :
    listed clients = .object [(.ofString "clients",
      .array (clients.map fun c => (dumpClient c).2.toJson))] := by
  have helems : ∀ attrs : List Attr, elemsToJson attrs = attrs.map fun a => a.2.toJson := by
    intro attrs
    induction attrs with
    | nil => rfl
    | cons a rest ih => rw [elemsToJson, ih, List.map_cons]
  have hreply : listReply clients [] = [(.ofString "clients", .array (clients.map dumpClient))] :=
    rfl
  rw [listed, hreply, Blob.toJson_table (by simp), List.map_singleton, Blob.toJson, helems,
    List.map_map]
  rfl

/-! ### The loop -/

theorem Ascending.le_index (h : Ascending clients) {p : ℕ} (hp : p < clients.length) :
    p ≤ clients[p].index := by
  induction p with
  | zero => exact Nat.zero_le _
  | succ p ih =>
      have hlt := List.pairwise_iff_getElem.mp h p (p + 1) (by omega) hp (Nat.lt_succ_self p)
      have hle := ih (by omega)
      omega

theorem Ascending.length_le (h : Ascending clients) (hrange : ∀ c ∈ clients, InRange c) :
    (clients.length : Int) ≤ intMax := by
  rcases Nat.eq_zero_or_pos clients.length with hzero | hpos
  · rw [hzero, intMax]
    decide
  · have hle := Ascending.le_index h (p := clients.length - 1) (by omega)
    have hlt := (hrange _ (List.getElem_mem (n := clients.length - 1) (by omega))).index
    omega

end

/-! ### The removals -/

section
variable {net : Net} {max : MaxReconnectTime} {s s' : State} {c : Client}

/-- The indexes `xs` are those of clients out of reach, and there is one if
there is such a client. -/
structure SomeStale (max : MaxReconnectTime) (clients : List Client) (xs : List ℕ) : Prop where
  stale : ∀ c ∈ clients, c.index ∈ xs → OutOfReach max c
  found : (∃ c ∈ clients, OutOfReach max c) → ∃ c ∈ clients, c.index ∈ xs

theorem Cleans.unique {s₁ s₂ : State} (h₁ : Cleans net max s s₁) (h₂ : Cleans net max s s₂) :
    s₁ = s₂ := by
  obtain ⟨_, ⟨fuel₁, xs₁, hcb₁, rfl⟩, hrun₁⟩ := h₁
  obtain ⟨_, ⟨fuel₂, xs₂, hcb₂, rfl⟩, hrun₂⟩ := h₂
  rw [listed_eq] at hcb₁ hcb₂
  obtain rfl : xs₁ = xs₂ := runLoop_unique hcb₁ hcb₂
  rw [hrun₁] at hrun₂
  exact Except.ok.inj hrun₂

/-! ### Many cleanings -/

/-- The clients out of reach wait for their next attempt. -/
def Waiting (max : MaxReconnectTime) (clients : List Client) : Prop :=
  ∀ c ∈ clients, OutOfReach max c → c.state = .disconnected

theorem SomeStale.removed {clients : List Client} {xs : List ℕ} (h : SomeStale max clients xs)
    (hwait : Waiting max clients) :
    removeWhere (fun c => c.index ∈ xs) clients = clients.filter fun c => c.index ∉ xs := by
  rw [removeWhere, ← List.filterMap_eq_filter]
  refine List.filterMap_congr fun c hc => ?_
  by_cases hmem : c.index ∈ xs
  · have hstate := hwait c hc (h.stale c hc hmem)
    simp [hmem, Option.guard, manageRemoveClient, hstate]
  · simp [hmem, Option.guard]

/-- There are fewer out of reach afterwards, unless there were none. -/
theorem SomeStale.fewer {clients : List Client} {xs : List ℕ} (h : SomeStale max clients xs)
    (hwait : Waiting max clients) {n : ℕ}
    (hn : (clients.filter (OutOfReach max)).length ≤ n + 1) :
    ((removeWhere (fun c => c.index ∈ xs) clients).filter (OutOfReach max)).length ≤ n := by
  have hcomm : (clients.filter fun c => c.index ∉ xs).filter (OutOfReach max) =
      (clients.filter (OutOfReach max)).filter fun c => c.index ∉ xs := by
    rw [List.filter_filter, List.filter_filter]
    exact List.filter_congr fun c _ => Bool.and_comm _ _
  rw [h.removed hwait, hcomm]
  by_cases hany : ∃ c ∈ clients, OutOfReach max c
  · obtain ⟨d, hd, hmem⟩ := h.found hany
    have hdReach : d ∈ clients.filter (OutOfReach max) :=
      List.mem_filter.mpr ⟨hd, decide_eq_true (h.stale d hd hmem)⟩
    have hlt : ((clients.filter (OutOfReach max)).filter fun c => c.index ∉ xs).length <
        (clients.filter (OutOfReach max)).length :=
      List.length_filter_lt_length_iff_exists.mpr ⟨d, hdReach, by simp [hmem]⟩
    omega
  · have hnil : clients.filter (OutOfReach max) = [] := by
      rw [List.filter_eq_nil_iff]
      exact fun c hc hreach => hany ⟨c, hc, of_decide_eq_true hreach⟩
    rw [hnil]
    exact Nat.zero_le n

end

end Owsd.Uproxyd
