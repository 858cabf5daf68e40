import Owsd.Registry.Indexes

/-!
The method `remove` of `owsd.ubusproxy`.

A message asks for the client with an index or for those with an address.
What is to become of the clients is said here without the loops of the
source, together with when `remove_client` does that. Its test for a client
that was not found comes after the client was used, and after a loop whose
cursor is never null.
-/

namespace Owsd.Registry

open Numbered Rpc

/-- Which clients a message asks to remove. The index comes first. -/
inductive Removal where
  | index (i : Int)
  | ip (addr : CString)
  | neither
  deriving DecidableEq

def removalOf (msg : List Attr) : Removal :=
  match blobmsgParse clientRemovePolicy msg with
  | [some index, _] => .index (getU32 index.2).toInt
  | [none, some ip] => .ip ip.2.getString
  | _ => .neither

def Removal.names : Removal → Client → Bool
  | .index i, c => (c.index : Int) = i
  | .ip addr, c => c.address = addr
  | .neither, _ => false

/-- The clients after those that `p` names were removed: one that is
disconnected is gone, any other is torn down, and the rest are as they were
and in the same order. -/
def removing (p : Client → Bool) (clients : List Client) : List Client :=
  (clients.filter fun c => !(p c && c.state = .disconnected)).map fun c =>
    if p c then { c with state := .tearingdown } else c

/-- The clients that are asked for are removed; if there are none the message
is answered with an error and nothing is done. -/
def RemovesAsAsked (clients : List Client) (msg : List Attr) : Prop :=
  removeClient clients msg =
    if clients.any (removalOf msg).names then
      some (ubusStatusOk, removing (removalOf msg).names clients)
    else some (ubusStatusInvalidArgument, clients)

section

variable {clients : List Client} {p q : Client → Bool}

theorem removeWhere_eq_removing (p : Client → Bool) (clients : List Client) :
    removeWhere p clients = removing p clients := by
  induction clients with
  | nil => rfl
  | cons c clients ih =>
      rw [removeWhere, removing] at ih
      rw [removeWhere, removing, List.filterMap_cons, ih]
      cases hp : p c with
      | false => simp [hp]
      | true =>
          obtain ⟨num, index, wsi, timer, type, reconnectCount, state, address, port, path⟩ := c
          cases state <;> simp [hp, manageRemoveClient]

theorem removeWhere_congr (h : ∀ c ∈ clients, p c = q c) :
    removeWhere p clients = removeWhere q clients := by
  refine List.filterMap_congr fun c hc => ?_
  rw [h c hc]

/-- The one client with the index is the one that is removed. -/
theorem removeWhere_of_index {s : State} (hi : Indexed s) {i : Int} {client : Client}
    (hfound : getClientByIndex s.clients i = some client) :
    removeWhere (fun c => c.num = client.num) s.clients =
      removing (Removal.index i).names s.clients := by
  have hmem := List.mem_of_find?_eq_some hfound
  have hindex : (client.index : Int) = i := by simpa using List.find?_some hfound
  have honly : ∀ c ∈ s.clients, (c.index : Int) = i → c = client := by
    intro c hc hci
    have hin : c ∈ s.clients.filter fun c => (c.index : Int) = i :=
      List.mem_filter.mpr ⟨hc, by simpa using hci⟩
    rw [hi.filter_index, hfound] at hin
    simpa using hin
  rw [← removeWhere_eq_removing]
  refine removeWhere_congr fun c hc => ?_
  simp only [Removal.names, decide_eq_decide]
  constructor
  · intro hnum
    rw [eq_of_num_eq hi.nums hc hmem hnum, hindex]
  · intro hci
    rw [honly c hc hci]

end

/-- In every state that is reached and for every message, the clients asked
for are removed as they should be exactly if the message asks for none or
there is one of those it asks for. -/
theorem removesAsAsked_iff {net : Net} {es : List Event} {s : State} {msg : List Attr}
    (hrun : run (step net) init es = .ok s) :
    RemovesAsAsked s.clients msg ↔
      removalOf msg = .neither ∨ ∃ c ∈ s.clients, (removalOf msg).names c := by
  have hi := indexed_run hrun
  obtain ⟨index, ip, hparse⟩ : ∃ index ip, blobmsgParse clientRemovePolicy msg = [index, ip] :=
    ⟨_, _, rfl⟩
  have hany : (∃ c ∈ s.clients, (removalOf msg).names c) ↔
      s.clients.any (removalOf msg).names = true := List.any_eq_true.symm
  rw [hany]
  simp only [RemovesAsAsked, removeClient, removalOf, hparse]
  cases index with
  | some index =>
      simp only [reduceCtorEq, false_or]
      cases hfound : getClientByIndex s.clients (getU32 index.2).toInt with
      | none =>
          -- the client that was not found is read all the same
          have hnone : s.clients.any (Removal.index (getU32 index.2).toInt).names = false := by
            simpa [getClientByIndex, Removal.names] using hfound
          simp [hnone]
      | some client =>
          have hsome : s.clients.any (Removal.index (getU32 index.2).toInt).names = true := by
            refine List.any_eq_true.mpr ⟨client, List.mem_of_find?_eq_some hfound, ?_⟩
            exact List.find?_some hfound
          simp [hsome, removeWhere_of_index hi hfound]
  | none =>
      cases ip with
      | some ip =>
          simp only [reduceCtorEq, false_or]
          have hsame : removeWhere (fun c => strcmp ip.2.getString c.address = 0) s.clients =
              removing (Removal.ip ip.2.getString).names s.clients := by
            rw [← removeWhere_eq_removing]
            refine removeWhere_congr fun c _ => ?_
            simp only [Removal.names, decide_eq_decide, strcmp_eq_zero_iff]
            exact eq_comm
          cases hany : s.clients.any (Removal.ip ip.2.getString).names with
          | true => simp [hsame]
          | false =>
              -- the cursor of the loop is not null behind the last client
              have hstatus : ubusStatusOk ≠ ubusStatusInvalidArgument := by decide
              simp [hstatus]
      | none => simp [Removal.names]

def oneConfigured : List Event := [.create (.ofString "10.0.0.1") 443 (.ofString "/") true]

def removeByIndex (i : BitVec 32) : List Attr := [(.ofString "index", .int32 i)]

def removeByIp (addr : CString) : List Attr := [(.ofString "ip", .string addr)]

theorem removesAsAsked_oneConfigured :
    ∃ s, run (step twoHosts) init oneConfigured = .ok s ∧
      removing (removalOf (removeByIndex 0)).names s.clients = [] ∧
      RemovesAsAsked s.clients (removeByIndex 0) := by
  obtain ⟨s, hrun, hempty, hnamed⟩ : ∃ s, run (step twoHosts) init oneConfigured = .ok s ∧
      removing (removalOf (removeByIndex 0)).names s.clients = [] ∧
      ∃ c ∈ s.clients, (removalOf (removeByIndex 0)).names c := by
    refine ⟨_, rfl, rfl, _, List.mem_cons_self, rfl⟩
  exact ⟨s, hrun, hempty, (removesAsAsked_iff hrun).mpr (.inr hnamed)⟩

/-- There is no client with the index, and its state is read. There is none
with the address, and the answer is that all is well. -/
theorem removal_of_unknown :
    ∃ s, run (step twoHosts) init oneConfigured = .ok s ∧
      removeClient s.clients (removeByIndex 1) = none ∧
      ¬RemovesAsAsked s.clients (removeByIndex 1) ∧
      removeClient s.clients (removeByIp (.ofString "10.0.0.2")) =
        some (ubusStatusOk, s.clients) ∧
      ¬RemovesAsAsked s.clients (removeByIp (.ofString "10.0.0.2")) := by
  refine ⟨_, rfl, rfl, ?_, rfl, ?_⟩
  · intro h
    cases h
  · intro h
    have hrc : ubusStatusOk = ubusStatusInvalidArgument :=
      congrArg (fun r => (r.map Prod.fst).getD 0) h
    exact absurd hrc (by decide)

end Owsd.Registry
