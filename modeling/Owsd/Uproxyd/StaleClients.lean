import Mathlib.Data.List.GetD
import Owsd.Basis.Blob
import Owsd.Basis.Loop

/-!
Removing stale clients (`uproxyd.c`).

uproxyd asks owsd for the list of its clients and removes those that were
not reached for too long. The loop over the reply counts positions in the
array and reads the index of a client into the same variable, so that after
a removal it goes on at the position behind that index. The lemmas follow
the variable: where it lands, what it passes over, and when it comes back.
-/

namespace Owsd.Uproxyd

/-- `client_max_reconnect_time`: ten, or what `-r` sets if that is positive. -/
structure MaxReconnectTime where
  val : Int
  pos : 0 < val

def jsonGetInt (object : Json) (key : CString) : Int :=
  match object.getEx key with
  | some value => if value.isInt then value.getInt else -1
  | none => -1

/-- `!client`. -/
def isNull : Json → Bool
  | .null => true
  | _ => false

/-- The `INT_MAX` of an `int`. -/
def intMax : Int := 2147483647

/-- `index++` at the end of a round. -/
def increment (index : Int) (calls : List Int) : Round Int Int :=
  if index = intMax then .fault else .next (index + 1) calls

/-- One round of the loop of `clean_stale_clients_cb`, with the calls of
`owsd_remove_client`. The length of the array is a `size_t`, so that a
negative index is not below it. -/
def cleanRound (max : MaxReconnectTime) (clients : List Json) (index : Int) : Round Int Int :=
  if index < 0 ∨ clients.length ≤ index.toNat then .done
  else
    let client := clients.getD index.toNat .null
    if isNull client ∨ jsonGetInt client (.ofString "reconnect_count") ≤ max.val then
      increment index []
    else
      let index := jsonGetInt client (.ofString "index")
      increment index (if 0 ≤ index then [index] else [])

/-- `clean_stale_clients_cb` on the parsed message, if it could be parsed: the
calls of `owsd_remove_client`, if the loop ends within `fuel` rounds. -/
def cleanStaleClientsCb (max : MaxReconnectTime) (msg : Option Json) (fuel : ℕ) :
    Option (List Int) :=
  match msg.bind fun m => m.getEx (.ofString "clients") with
  | some (.array clients) => runLoop (cleanRound max clients) fuel 0
  | _ => some []

/-! ### What it is for -/

def integerField (client : Json) (key : CString) : Option Int :=
  match client.getEx key with
  | some (.int v) => some v
  | _ => none

/-- The client was not reached for too long. The integers of json-c are
clamped to an `int`. -/
def Stale (max : MaxReconnectTime) (client : Json) : Prop :=
  ∃ n ∈ integerField client (.ofString "reconnect_count"), max.val < Json.saturate n

instance (max : MaxReconnectTime) (client : Json) : Decidable (Stale max client) :=
  inferInstanceAs (Decidable (∃ n ∈ _, max.val < Json.saturate n))

def toRemove (max : MaxReconnectTime) (client : Json) : Option Int :=
  if Stale max client then
    ((integerField client (.ofString "index")).map Json.saturate).filter fun i => 0 ≤ i
  else none

/-- A reply of `owsd.ubusproxy list`: clients in the order of their indexes,
which are integers where they are given. A message of ubus has no room for
more than `INT_MAX` clients. -/
structure Reply where
  clients : List Json
  short : (clients.length : Int) ≤ intMax
  increasing : clients.Pairwise fun c d =>
    ∀ a ∈ integerField c (.ofString "index"), ∀ b ∈ integerField d (.ofString "index"), a < b

def Reply.json (r : Reply) : Json := .object [(.ofString "clients", .array r.clients)]

/-- The callback ends, and has called `owsd_remove_client` once for each
client that has to be removed, with its index, and for no other. -/
def RemovesExactlyStale (max : MaxReconnectTime) (r : Reply) : Prop :=
  ∃ fuel calls, cleanStaleClientsCb max (some r.json) fuel = some calls ∧
    calls.Perm (r.clients.filterMap (toRemove max))

/-! ### Positions and indexes -/

section Positions

variable (max : MaxReconnectTime) (clients : List Json)

/-- The client at position `p` is stale. -/
def StaleAt (p : ℕ) : Prop := ∃ c ∈ clients[p]?, Stale max c

/-- The index of the client at a position, as the loop reads it. -/
def indexAt (p : ℕ) : Int := jsonGetInt (clients.getD p .null) (.ofString "index")

/-- The client at position `p` has to be removed. -/
def RemovedAt (p : ℕ) : Prop := StaleAt max clients p ∧ 0 ≤ indexAt clients p

/-- From position `i` on, the positions go with the indexes. Each client to
remove stands at its index or before it, and no other one to remove stands on
the way there; and a stale client without an index stands on such a way. If
there is nothing to remove, the first stale client may also have an index
below `-1`. -/
structure Aligned (i : ℕ) : Prop where
  removed : ∀ p, i ≤ p → RemovedAt max clients p →
    (p : Int) ≤ indexAt clients p ∧ indexAt clients p < intMax ∧
      ∀ q : ℕ, p < q → (q : Int) ≤ indexAt clients p → ¬ RemovedAt max clients q
  kept : ∀ q, i ≤ q → StaleAt max clients q → indexAt clients q < 0 →
    (∃ p, i ≤ p ∧ p < q ∧ RemovedAt max clients p ∧ (q : Int) ≤ indexAt clients p) ∨
    ((∀ p, i ≤ p → ¬ RemovedAt max clients p) ∧
      ∃ s, i ≤ s ∧ s ≤ q ∧ StaleAt max clients s ∧ indexAt clients s < -1)

end Positions

/-! ### Fields -/

theorem jsonGetInt_eq (client : Json) (key : CString) :
    jsonGetInt client key = (integerField client key).elim (-1) Json.saturate := by
  rw [jsonGetInt, integerField]
  cases hget : client.getEx key with
  | none => rfl
  | some value => cases value <;> rfl

theorem jsonGetInt_of_isNull {client : Json} (h : isNull client = true) (key : CString) :
    jsonGetInt client key = -1 := by
  cases client with
  | null => rfl
  | _ => cases h

theorem stale_iff {max : MaxReconnectTime} {client : Json} :
    Stale max client ↔ max.val < jsonGetInt client (.ofString "reconnect_count") := by
  have hpos := max.pos
  rw [Stale, jsonGetInt_eq]
  cases integerField client (.ofString "reconnect_count") with
  | none =>
      refine iff_of_false (by simp) ?_
      show ¬ max.val < -1
      omega
  | some n => simp

theorem toRemove_eq (max : MaxReconnectTime) (client : Json) :
    toRemove max client =
      if Stale max client ∧ 0 ≤ jsonGetInt client (.ofString "index") then
        some (jsonGetInt client (.ofString "index"))
      else none := by
  rw [toRemove, jsonGetInt_eq]
  by_cases hstale : Stale max client
  · cases integerField client (.ofString "index") with
    | none => simp [hstale]
    | some v => simp [hstale, Option.filter]
  · simp [hstale]

theorem saturate_le_intMax (a : Int) : Json.saturate a ≤ intMax := by
  rw [Json.saturate, intMax]
  split
  · omega
  · split
    · exact le_rfl
    · omega

theorem indexAt_le_intMax (clients : List Json) (p : ℕ) : indexAt clients p ≤ intMax := by
  rw [indexAt, jsonGetInt_eq]
  cases integerField (clients.getD p .null) (.ofString "index") with
  | none => show (-1 : Int) ≤ intMax; rw [intMax]; omega
  | some a => exact saturate_le_intMax a

theorem saturate_le_saturate {a b : Int} (h : a ≤ b) : Json.saturate a ≤ Json.saturate b := by
  simp only [Json.saturate]
  split <;> split <;> (try split) <;> (try split) <;> omega

theorem exists_integerField {clients : List Json} {p : ℕ} (h : indexAt clients p ≠ -1) :
    ∃ (hp : p < clients.length), ∃ a,
      integerField clients[p] (.ofString "index") = some a ∧
        indexAt clients p = Json.saturate a := by
  by_cases hp : p < clients.length
  · refine ⟨hp, ?_⟩
    rw [indexAt, List.getD_eq_getElem _ _ hp, jsonGetInt_eq] at h ⊢
    cases hfield : integerField clients[p] (.ofString "index") with
    | none =>
        rw [hfield] at h
        exact absurd rfl h
    | some a => exact ⟨a, rfl, rfl⟩
  · rw [indexAt, List.getD_eq_default _ _ (by omega)] at h
    exact absurd rfl h

theorem Reply.indexAt_le (r : Reply) {p q : ℕ} (hpq : p < q) (hp : indexAt r.clients p ≠ -1)
    (hq : indexAt r.clients q ≠ -1) : indexAt r.clients p ≤ indexAt r.clients q := by
  obtain ⟨hplen, a, hfa, ha⟩ := exists_integerField hp
  obtain ⟨hqlen, b, hfb, hb⟩ := exists_integerField hq
  have hlt := List.pairwise_iff_getElem.mp r.increasing p q hplen hqlen hpq a hfa b hfb
  rw [ha, hb]
  exact saturate_le_saturate hlt.le

/-! ### The clients to remove from a position on -/

section Rest

variable {max : MaxReconnectTime} {clients : List Json}

/-- The indexes to remove at position `i` and behind it. -/
def removeFrom (max : MaxReconnectTime) (clients : List Json) (i : ℕ) : List Int :=
  (clients.drop i).filterMap (toRemove max)

theorem StaleAt.lt {p : ℕ} (h : StaleAt max clients p) : p < clients.length := by
  obtain ⟨c, hc, -⟩ := h
  by_contra hlen
  rw [List.getElem?_eq_none (by omega)] at hc
  cases hc

theorem staleAt_iff {p : ℕ} (hp : p < clients.length) :
    StaleAt max clients p ↔
      max.val < jsonGetInt (clients.getD p .null) (.ofString "reconnect_count") := by
  rw [StaleAt, List.getElem?_eq_getElem hp, List.getD_eq_getElem _ _ hp, ← stale_iff]
  simp

theorem removedAt_iff {p : ℕ} (hp : p < clients.length) :
    RemovedAt max clients p ↔
      Stale max clients[p] ∧ 0 ≤ jsonGetInt clients[p] (.ofString "index") := by
  rw [RemovedAt, StaleAt, indexAt, List.getElem?_eq_getElem hp, List.getD_eq_getElem _ _ hp]
  simp

theorem removeFrom_removed {p : ℕ} (h : RemovedAt max clients p) :
    removeFrom max clients p = indexAt clients p :: removeFrom max clients (p + 1) := by
  have hp := h.1.lt
  rw [removeFrom, List.drop_eq_getElem_cons hp, List.filterMap_cons, toRemove_eq,
    if_pos ((removedAt_iff hp).mp h), indexAt, List.getD_eq_getElem _ _ hp]
  rfl

theorem removeFrom_kept {p : ℕ} (h : ¬ RemovedAt max clients p) :
    removeFrom max clients p = removeFrom max clients (p + 1) := by
  by_cases hp : p < clients.length
  · rw [removeFrom, List.drop_eq_getElem_cons hp, List.filterMap_cons, toRemove_eq,
      if_neg (mt (removedAt_iff hp).mpr h)]
    rfl
  · rw [removeFrom, removeFrom, List.drop_eq_nil_of_le (by omega),
      List.drop_eq_nil_of_le (by omega)]

theorem removeFrom_skip {i j : ℕ} (hij : i ≤ j)
    (h : ∀ q, i ≤ q → q < j → ¬ RemovedAt max clients q) :
    removeFrom max clients i = removeFrom max clients j := by
  induction j, hij using Nat.le_induction with
  | base => rfl
  | succ j hij ih =>
      rw [ih fun q hiq hqj => h q hiq (by omega), removeFrom_kept (h j hij (Nat.lt_succ_self j))]

theorem removeFrom_eq_nil {i : ℕ} (h : ∀ q, i ≤ q → ¬ RemovedAt max clients q) :
    removeFrom max clients i = [] := by
  rw [removeFrom_skip (Nat.le_add_right i clients.length) fun q hiq _ => h q hiq, removeFrom,
    List.drop_eq_nil_of_le (by omega)]
  rfl

theorem removeFrom_sublist {i j : ℕ} (hij : i ≤ j) :
    (removeFrom max clients j).Sublist (removeFrom max clients i) := by
  have hdrop : clients.drop j = (clients.drop i).drop (j - i) := by
    rw [List.drop_drop]
    congr 1
    omega
  rw [removeFrom, removeFrom, hdrop]
  exact (List.drop_sublist _ _).filterMap _

/-- Where nothing is missing, nothing to remove was passed over. -/
theorem not_removedAt_of_length {i j : ℕ}
    (hlen : (removeFrom max clients i).length ≤ (removeFrom max clients j).length) :
    ∀ q, i ≤ q → q < j → ¬ RemovedAt max clients q := by
  intro q hiq hqj hremoved
  have hi := (@removeFrom_sublist max clients i q hiq).length_le
  have hj := (@removeFrom_sublist max clients (q + 1) j hqj).length_le
  rw [removeFrom_removed hremoved, List.length_cons] at hi
  omega

end Rest

/-! ### Rounds -/

section Rounds

variable {max : MaxReconnectTime} {clients : List Json}

theorem cleanRound_end {i : ℕ} (h : clients.length ≤ i) : cleanRound max clients i = .done := by
  rw [cleanRound, if_pos (Or.inr (by simpa using h))]

theorem cleanRound_neg {index : Int} (h : index < 0) : cleanRound max clients index = .done := by
  rw [cleanRound, if_pos (Or.inl h)]

theorem cleanRound_pass {i : ℕ} (hi : i < clients.length) (h : ¬ StaleAt max clients i)
    (hmax : (i : Int) ≠ intMax) : cleanRound max clients i = .next ((i + 1 : ℕ) : Int) [] := by
  rw [staleAt_iff hi] at h
  have hin : ¬ ((i : Int) < 0 ∨ clients.length ≤ (i : Int).toNat) := by
    rw [Int.toNat_natCast]
    omega
  rw [cleanRound, if_neg hin]
  simp only [Int.toNat_natCast]
  rw [if_pos (Or.inr (by omega)), increment, if_neg hmax]
  rfl

/-- The round of a stale client takes its index for the position. -/
theorem cleanRound_stale {i : ℕ} (h : StaleAt max clients i) :
    cleanRound max clients i = increment (indexAt clients i)
      (if 0 ≤ indexAt clients i then [indexAt clients i] else []) := by
  have hi := h.lt
  rw [staleAt_iff hi] at h
  have hin : ¬ ((i : Int) < 0 ∨ clients.length ≤ (i : Int).toNat) := by
    rw [Int.toNat_natCast]
    omega
  have hnull : ¬ (isNull (clients.getD i .null) = true ∨
      jsonGetInt (clients.getD i .null) (.ofString "reconnect_count") ≤ max.val) := by
    rintro (hnull | hle)
    · have hpos := max.pos
      rw [jsonGetInt_of_isNull hnull] at h
      omega
    · omega
  rw [cleanRound, if_neg hin]
  simp only [Int.toNat_natCast]
  rw [if_neg hnull]
  rfl

theorem goes_of_stale {i : ℕ} (h : StaleAt max clients i) (hmax : indexAt clients i ≠ intMax) :
    Goes (cleanRound max clients) i (indexAt clients i + 1) :=
  ⟨_, by rw [cleanRound_stale h, increment, if_neg hmax]⟩

theorem goes_clear {j i : ℕ} (hji : j ≤ i) (hi : i ≤ clients.length)
    (hlen : (clients.length : Int) ≤ intMax)
    (h : ∀ p, j ≤ p → p < i → ¬ StaleAt max clients p) :
    Relation.ReflTransGen (Goes (cleanRound max clients)) j i := by
  induction i, hji using Nat.le_induction with
  | base => exact .refl
  | succ i hji ih =>
      have hback := ih (by omega) fun p hjp hpi => h p hjp (by omega)
      apply hback.tail
      exact ⟨[], cleanRound_pass (by omega) (h i hji (Nat.lt_succ_self i)) (by omega)⟩

end Rounds

/-! ### Aligned arrays are swept -/

section Aligned

variable {max : MaxReconnectTime} {clients : List Json} {i : ℕ}

theorem Aligned.pass (h : Aligned max clients i) (hi : ¬ StaleAt max clients i) :
    Aligned max clients (i + 1) where
  removed p hip := h.removed p (by omega)
  kept q hiq hq hneg := by
    rcases h.kept q (by omega) hq hneg with ⟨p, hip, hpq, hp, hle⟩ | ⟨hnone, s, his, hsq, hs, hlt⟩
    · have hne : i ≠ p := fun heq => hi (heq ▸ hp.1)
      exact Or.inl ⟨p, by omega, hpq, hp, hle⟩
    · have hne : i ≠ s := fun heq => hi (heq ▸ hs)
      exact Or.inr ⟨fun p hip => hnone p (by omega), s, by omega, hsq, hs, hlt⟩

theorem Aligned.jump (h : Aligned max clients i) (hi : RemovedAt max clients i) {v : ℕ}
    (hv : indexAt clients i = v) : Aligned max clients (v + 1) := by
  obtain ⟨hle, -, hclear⟩ := h.removed i le_rfl hi
  rw [hv] at hle hclear
  constructor
  · intro p hip
    exact h.removed p (by omega)
  · intro q hiq hq hneg
    rcases h.kept q (by omega) hq hneg with ⟨p, hip, hpq, hp, hpv⟩ | ⟨hnone, -⟩
    · -- The client at `i` is behind, and none to remove stands up to its index.
      have hpv' : v < p := by
        by_contra hnot
        rcases Nat.lt_or_ge i p with hlt | hge
        · exact hclear p hlt (by omega) hp
        · have heq : p = i := by omega
          rw [heq, hv] at hpv
          omega
      exact Or.inl ⟨p, hpv', hpq, hp, hpv⟩
    · exact absurd hi (hnone i le_rfl)

theorem runLoop_of_aligned (hlen : (clients.length : Int) ≤ intMax) (h : Aligned max clients i) :
    ∃ fuel, runLoop (cleanRound max clients) fuel i = some (removeFrom max clients i) := by
  induction hk : clients.length - i using Nat.strongRecOn generalizing i with
  | ind k ih =>
      by_cases hend : clients.length ≤ i
      · refine ⟨1, ?_⟩
        rw [runLoop_done (cleanRound_end hend), removeFrom, List.drop_eq_nil_of_le hend]
        rfl
      by_cases hstale : StaleAt max clients i
      · by_cases hindex : 0 ≤ indexAt clients i
        · obtain ⟨v, hv⟩ := Int.eq_ofNat_of_zero_le hindex
          have hremoved : RemovedAt max clients i := ⟨hstale, hindex⟩
          obtain ⟨hle, hmax, hclear⟩ := h.removed i le_rfl hremoved
          rw [hv] at hle hmax hclear
          obtain ⟨fuel, hfuel⟩ := ih (clients.length - (v + 1)) (by omega)
            (h.jump hremoved hv) rfl
          refine ⟨fuel + 1, ?_⟩
          have hround : cleanRound max clients i = .next ((v + 1 : ℕ) : Int) [(v : Int)] := by
            rw [cleanRound_stale hstale, hv, increment, if_neg (by omega), if_pos (by omega)]
            rfl
          rw [runLoop_next hround hfuel, removeFrom_removed hremoved, hv,
            removeFrom_skip (j := v + 1) (by omega) fun q hiq hqv => hclear q hiq (by omega)]
          rfl
        · -- Nothing passed over this client, so that its index ends the loop.
          rcases h.kept i le_rfl hstale (by omega) with
            ⟨p, hip, hpi, -⟩ | ⟨hnone, s, his, hsi, hs, hlt⟩
          · omega
          · have heq : s = i := by omega
            subst heq
            refine ⟨2, ?_⟩
            have hround : cleanRound max clients s = .next (indexAt clients s + 1) [] := by
              rw [cleanRound_stale hstale, increment, if_neg (by rw [intMax]; omega),
                if_neg hindex]
            rw [runLoop_next hround (runLoop_done (cleanRound_neg (by omega)) 0),
              removeFrom_eq_nil hnone]
            rfl
      · obtain ⟨fuel, hfuel⟩ := ih (clients.length - (i + 1)) (by omega) (h.pass hstale) rfl
        refine ⟨fuel + 1, ?_⟩
        rw [runLoop_next (cleanRound_pass (by omega) hstale (by omega)) hfuel,
          removeFrom_kept fun hremoved => hstale hremoved.1]
        rfl

end Aligned

/-! ### Nothing else is -/

section Forward

variable {max : MaxReconnectTime} {r : Reply} {l i : ℕ}

/-- The loop came to `i` without going back: it landed at `l` after a removal,
or started there, and no client since then is stale. -/
structure Forward (max : MaxReconnectTime) (r : Reply) (l i : ℕ) : Prop where
  le : l ≤ i
  clear : ∀ p, l ≤ p → p < i → ¬ StaleAt max r.clients p
  landed : l = 0 ∨ ∃ q < l, RemovedAt max r.clients q ∧ indexAt r.clients q + 1 = l
  start : Relation.ReflTransGen (Goes (cleanRound max r.clients)) 0 i

theorem Forward.init : Forward max r 0 0 where
  le := le_rfl
  clear p _ hp := absurd hp (by omega)
  landed := Or.inl rfl
  start := .refl

theorem Forward.pass (h : Forward max r l i) (hi : i < r.clients.length)
    (hstale : ¬ StaleAt max r.clients i) : Forward max r l (i + 1) where
  le := by have := h.le; omega
  clear p hlp hpi := by
    rcases Nat.lt_or_ge p i with hlt | hge
    · exact h.clear p hlp hlt
    · have heq : p = i := by omega
      exact heq ▸ hstale
  landed := h.landed
  start := by
    have hshort := r.short
    exact h.start.tail ⟨[], cleanRound_pass hi hstale (by omega)⟩

theorem Forward.jump (h : Forward max r l i) (hremoved : RemovedAt max r.clients i) {v : ℕ}
    (hv : indexAt r.clients i = v) (hiv : i ≤ v) (hmax : indexAt r.clients i ≠ intMax) :
    Forward max r (v + 1) (v + 1) where
  le := le_rfl
  clear p hlp hpi := absurd hpi (by omega)
  landed := Or.inr ⟨i, by omega, hremoved, by omega⟩
  start := by
    have hgoes := goes_of_stale hremoved.1 hmax
    rw [hv] at hgoes
    exact h.start.tail hgoes

/-- An index below its position leads back to it: the indexes before are not
larger, so that everything from there on was passed already. -/
theorem Forward.not_back (h : Forward max r l i) (hstale : StaleAt max r.clients i)
    (hlow : -1 ≤ indexAt r.clients i) (hback : indexAt r.clients i < i) (fuel : ℕ) :
    runLoop (cleanRound max r.clients) fuel i = none := by
  apply runLoop_of_cycle
  have hshort := r.short
  have hlt := hstale.lt
  have hgoes := goes_of_stale hstale (by omega)
  by_cases hmissing : indexAt r.clients i = -1
  · rw [hmissing] at hgoes
    exact .head' hgoes h.start
  · obtain ⟨v, hv⟩ := Int.eq_ofNat_of_zero_le (show 0 ≤ indexAt r.clients i by omega)
    have hland : l ≤ v + 1 := by
      rcases h.landed with hzero | ⟨q, hql, hq, hl⟩
      · omega
      · have hle := h.le
        have hmono := r.indexAt_le (show q < i by omega)
          (by have := hq.2; omega) hmissing
        omega
    rw [hv] at hgoes hback
    have hclear := goes_clear (j := v + 1) (by omega) hlt.le hshort
      fun p hp hpi => h.clear p (by omega) hpi
    exact .head' hgoes hclear

theorem aligned_end {clients : List Json} (h : clients.length ≤ i) : Aligned max clients i where
  removed p hip hp := by
    have := hp.1.lt
    omega
  kept q hiq hq _ := by
    have := hq.lt
    omega

theorem aligned_stop {clients : List Json} (hi : StaleAt max clients i)
    (hlow : indexAt clients i < -1) (hnone : ∀ q, i ≤ q → ¬ RemovedAt max clients q) :
    Aligned max clients i where
  removed p hip hp := absurd hp (hnone p hip)
  kept _ hiq _ _ := Or.inr ⟨hnone, i, le_rfl, hiq, hi, hlow⟩

theorem aligned_pass {clients : List Json} (hi : ¬ StaleAt max clients i)
    (h : Aligned max clients (i + 1)) : Aligned max clients i where
  removed p hip hp := by
    have hne : i ≠ p := fun heq => hi (heq ▸ hp.1)
    exact h.removed p (by omega) hp
  kept q hiq hq hneg := by
    have hne : i ≠ q := fun heq => hi (heq ▸ hq)
    rcases h.kept q (by omega) hq hneg with ⟨p, hip, hrest⟩ | ⟨hnone, s, his, hrest⟩
    · exact Or.inl ⟨p, by omega, hrest⟩
    · refine Or.inr ⟨?_, s, by omega, hrest⟩
      intro p hip hp
      have hne : i ≠ p := fun heq => hi (heq ▸ hp.1)
      exact hnone p (by omega) hp

theorem aligned_jump (hi : RemovedAt max r.clients i) {v : ℕ} (hv : indexAt r.clients i = v)
    (hiv : i ≤ v) (hmax : indexAt r.clients i < intMax)
    (hclear : ∀ q, i + 1 ≤ q → q < v + 1 → ¬ RemovedAt max r.clients q)
    (h : Aligned max r.clients (v + 1)) : Aligned max r.clients i where
  removed p hip hp := by
    rcases Nat.lt_or_ge v p with hvp | hpv
    · exact h.removed p hvp hp
    · have heq : p = i := by
        by_contra hne
        exact hclear p (by omega) (by omega) hp
      subst heq
      refine ⟨by omega, hmax, ?_⟩
      intro q hpq hqv
      exact hclear q hpq (by omega)
  kept q hiq hq hneg := by
    rcases Nat.lt_or_ge v q with hvq | hqv
    · rcases h.kept q hvq hq hneg with ⟨p, hip, hrest⟩ | ⟨-, s, his, -, -, hlow⟩
      · exact Or.inl ⟨p, by omega, hrest⟩
      · -- Indexes do not go down, so none behind `i` is below `-1`.
        have hmono := r.indexAt_le (show i < s by omega) (by omega) (by omega)
        omega
    · have hne : i ≠ q := by
        rintro rfl
        omega
      exact Or.inl ⟨i, le_rfl, by omega, hi, by omega⟩

/-- What a loop that ends removes was to be removed, and if nothing is missing
the array is aligned. -/
theorem aligned_of_runLoop {fuel : ℕ} {calls : List Int} (hf : Forward max r l i)
    (h : runLoop (cleanRound max r.clients) fuel i = some calls) :
    calls.Sublist (removeFrom max r.clients i) ∧
      (calls.Perm (removeFrom max r.clients i) → Aligned max r.clients i) := by
  induction fuel generalizing l i calls with
  | zero => cases h
  | succ fuel ih =>
      by_cases hend : r.clients.length ≤ i
      · rw [runLoop_done (cleanRound_end hend), Option.some.injEq] at h
        subst h
        exact ⟨List.nil_sublist _, fun _ => aligned_end hend⟩
      by_cases hstale : StaleAt max r.clients i
      · have hmax : indexAt r.clients i ≠ intMax := by
          intro hmax
          rw [runLoop, cleanRound_stale hstale, increment, if_pos hmax] at h
          cases h
        have hround := cleanRound_stale hstale
        rw [increment, if_neg hmax] at hround
        obtain ⟨_, rest, hfuel, hrest, rfl⟩ := runLoop_after hround h
        cases hfuel
        by_cases hlow : indexAt r.clients i < -1
        · -- The loop ends here, so nothing may be left to remove.
          rw [runLoop_eq_nil (cleanRound_neg (by omega)) hrest, if_neg (by omega)]
          refine ⟨List.nil_sublist _, ?_⟩
          intro hperm
          apply aligned_stop hstale hlow
          intro q hiq
          rw [List.append_nil, List.nil_perm] at hperm
          exact not_removedAt_of_length (j := q + 1) (by rw [hperm]; exact Nat.zero_le _) q hiq
            (Nat.lt_succ_self q)
        by_cases hback : indexAt r.clients i < i
        · rw [hf.not_back hstale (by omega) hback] at h
          cases h
        obtain ⟨v, hv⟩ := Int.eq_ofNat_of_zero_le (show 0 ≤ indexAt r.clients i by omega)
        have hremoved : RemovedAt max r.clients i := ⟨hstale, by omega⟩
        have hjump := hf.jump hremoved hv (by omega) hmax
        rw [hv] at hrest
        obtain ⟨hsub, halign⟩ := ih hjump hrest
        rw [if_pos (by omega), List.singleton_append, removeFrom_removed hremoved]
        refine ⟨(hsub.trans (removeFrom_sublist (by omega))).cons_cons _, ?_⟩
        intro hperm
        have htail := hperm.cons_inv
        -- As many calls as clients to remove: none of them was jumped over.
        have hclear := not_removedAt_of_length (i := i + 1) (j := v + 1)
          (by rw [← htail.length_eq]; exact hsub.length_le)
        rw [removeFrom_skip (by omega) hclear] at htail
        exact aligned_jump hremoved hv (by omega) (lt_of_le_of_ne (indexAt_le_intMax _ _) hmax)
          hclear (halign htail)
      · have hshort := r.short
        have hround := cleanRound_pass (by omega) hstale (by omega)
        obtain ⟨_, rest, hfuel, hrest, rfl⟩ := runLoop_after hround h
        cases hfuel
        obtain ⟨hsub, halign⟩ := ih (hf.pass (by omega) hstale) hrest
        rw [removeFrom_kept fun hremoved => hstale hremoved.1]
        exact ⟨hsub, fun hperm => aligned_pass hstale (halign hperm)⟩

end Forward

/-- uproxyd removes exactly the stale clients of a reply if and only if the
positions of the reply go with its indexes. -/
theorem removes_exactly_stale_iff (max : MaxReconnectTime) (r : Reply) :
    RemovesExactlyStale max r ↔ Aligned max r.clients 0 := by
  have hcb : ∀ fuel, cleanStaleClientsCb max (some r.json) fuel =
      runLoop (cleanRound max r.clients) fuel 0 := fun fuel => rfl
  constructor
  · rintro ⟨fuel, calls, hcalls, hperm⟩
    rw [hcb] at hcalls
    exact (aligned_of_runLoop Forward.init hcalls).2 hperm
  · intro h
    obtain ⟨fuel, hfuel⟩ := runLoop_of_aligned r.short h
    exact ⟨fuel, _, (hcb fuel).trans hfuel, .refl _⟩

/-- A client as `dump_client` has it. -/
def dumped (index reconnectCount : Int) : Json :=
  .object [(.ofString "index", .int index), (.ofString "reconnect_count", .int reconnectCount)]

/-- The reply after the first of three clients was removed: two clients, at
positions below their indexes, and both out of reach. -/
def firstRemoved : Reply where
  clients := [dumped 1 20, dumped 2 20]
  short := by decide
  increasing := by decide

/-- Only one of the two is removed. -/
theorem removes_not_all_stale :
    cleanStaleClientsCb ⟨10, by decide⟩ (some firstRemoved.json) 2 = some [1] ∧
      ¬ RemovesExactlyStale ⟨10, by decide⟩ firstRemoved := by
  have hone : cleanStaleClientsCb ⟨10, by decide⟩ (some firstRemoved.json) 2 = some [1] := by
    decide
  refine ⟨hone, ?_⟩
  rintro ⟨fuel, calls, hcalls, hperm⟩
  have hloop : runLoop (cleanRound ⟨10, by decide⟩ firstRemoved.clients) fuel 0 = some calls :=
    hcalls
  have htwo : runLoop (cleanRound ⟨10, by decide⟩ firstRemoved.clients) 2 0 = some [1] := hone
  rw [runLoop_unique hloop htwo] at hperm
  exact absurd hperm.length_eq (by decide)

end Owsd.Uproxyd
