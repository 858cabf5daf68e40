import Owsd.Basis.TextFile
import Owsd.Registry.ProxiedName

/-!
The MAC of a remote (`get_mac_by_ip` of `local_stub.c`).

The lookup reads the DHCP leases with `fgets` and `sscanf` and stops at the
line of the address. It returns its buffer in any case: when no line has the
address, that is what the last line left there.
-/

namespace Owsd.Registry

abbrev Byte := Fin 256

/-- `isspace` in the C locale. -/
def isspace (c : Byte) : Bool := c = 32 ∨ 9 ≤ c ∧ c ≤ 13

def newline : Byte := 10

def toCString : List Byte → CString
  | [] => []
  | c :: rest => if h : c ≠ 0 then ⟨c, h⟩ :: toCString rest else []

def bytes (s : CString) : List Byte := s.map Subtype.val

/-! ### The lookup -/

/-- `sscanf(line, "%*s %18s %15s", mac, ip)` after the two buffers were
cleared: its result, and what the buffers hold. -/
def sscanfLease (line : List Byte) : Int × List Byte × List Byte :=
  let word := scanWord isspace none line
  if word.1 = [] then (-1, [], [])
  else
    let mac := scanWord isspace (some 18) word.2
    if mac.1 = [] then (0, [], [])
    else
      let ip := scanWord isspace (some 15) mac.2
      if ip.1 = [] then (1, mac.1, []) else (2, mac.1, ip.1)

/-- The line as `sscanf` sees it: up to a terminator, if the file has one. -/
def scanPiece (piece : List Byte) : Int × List Byte × List Byte :=
  sscanfLease (piece.takeWhile (· ≠ 0))

/-- The loop of `get_mac_by_ip` over the rest of the file, with what `mac`
holds before it. Every round reads a byte at least, so that a file ends
within as many rounds as it has bytes. -/
def readLeases (ipaddr : CString) : ℕ → List Byte → CString → CString
  | 0, _, mac => mac
  | _ + 1, [], mac => mac
  | fuel + 1, c :: content, _ =>
      let read := fgets newline 255 (c :: content)
      let scanned := scanPiece read.1
      let mac := toCString scanned.2.1
      if scanned.1 ≠ 2 then readLeases ipaddr fuel read.2 mac
      else if strcmp ipaddr (toCString scanned.2.2) = 0 then mac
      else readLeases ipaddr fuel read.2 mac

/-- `get_mac_by_ip`; a file that cannot be opened is `none`. -/
def getMacByIp (leases : Option (List Byte)) (ipaddr : CString) : Option CString :=
  leases.map fun content => readLeases ipaddr content.length content []

/-! ### Leases -/

/-- A line of the file has the MAC as its second word and the address as its
third. -/
def Lease (content : List Byte) (mac ip : CString) : Prop :=
  ∃ line ∈ content.splitOn newline,
    (wordsBy isspace line)[1]? = some (bytes mac) ∧ (wordsBy isspace line)[2]? = some (bytes ip)

instance (content : List Byte) (mac ip : CString) : Decidable (Lease content mac ip) :=
  inferInstanceAs (Decidable (∃ line ∈ content.splitOn newline, _ ∧ _))

/-- The file has the MAC together with the address. -/
def Leased (leases : Option (List Byte)) (mac ip : CString) : Prop :=
  ∃ content ∈ leases, Lease content mac ip

/-- Every line fits `line`, every MAC fits `mac` and every address fits `ip`,
and no byte of the file is zero. -/
def FitsBuffers (content : List Byte) : Prop :=
  ∀ line ∈ content.splitOn newline, line.length < 255 ∧ 0 ∉ line ∧
    (∀ mac ∈ (wordsBy isspace line)[1]?, mac.length ≤ 18) ∧
    ∀ ip ∈ (wordsBy isspace line)[2]?, ip.length ≤ 15

/-- What the lookup is for: a MAC it returns is leased to the address, and a
stub of the host is published under such a MAC or under the address, under
the address when it has no lease. -/
def NamesOnlyHost (leases : Option (List Byte)) (ip : CString) : Prop :=
  (∀ mac, getMacByIp leases ip = some mac → Leased leases mac ip) ∧
  ∀ peer object, peer.length ≤ 45 → slash ∉ peer → ipPrefix peer = ip →
    ∃ b pre, InBuffer.proxiedObjname .mac (getMacByIp leases) peer object = some b ∧
      Buffer.str b = some (pre ++ slash :: object) ∧
      (pre = ip ∨ Leased leases pre ip) ∧
      ((¬ ∃ mac, Leased leases mac ip) → pre = ip)

/-! ### The piece of the file that decides -/

def readsIp (ip : CString) (piece : List Byte) : Bool :=
  (scanPiece piece).1 = 2 ∧ strcmp ip (toCString (scanPiece piece).2.2) = 0

def pieceMac (piece : List Byte) : CString := toCString (scanPiece piece).2.1

/-- The first piece of the file with the address, or else its last one. -/
def decidingPiece (content : List Byte) (ip : CString) : Option (List Byte) :=
  let ps := pieces newline 255 content.length content
  (ps.find? (readsIp ip)).or ps.getLast?

theorem readLeases_eq (ip : CString) (fuel : ℕ) (content : List Byte) (mac : CString) :
    readLeases ip fuel content mac =
      (((pieces newline 255 fuel content).find? (readsIp ip)).or
        (pieces newline 255 fuel content).getLast?).elim mac pieceMac := by
  induction fuel generalizing content mac with
  | zero => rfl
  | succ fuel ih =>
      cases content with
      | nil => rfl
      | cons c content =>
          simp only [readLeases, pieces]
          generalize fgets newline 255 (c :: content) = read
          by_cases hreads : readsIp ip read.1 = true
          · have hip := hreads
            simp only [readsIp, Bool.decide_and, Bool.and_eq_true, decide_eq_true_eq] at hip
            rw [if_neg (not_not.mpr hip.1), if_pos hip.2, List.find?_cons_of_pos hreads]
            rfl
          · have hloop : (if (scanPiece read.1).1 ≠ 2 then
                  readLeases ip fuel read.2 (pieceMac read.1)
                else if strcmp ip (toCString (scanPiece read.1).2.2) = 0 then pieceMac read.1
                else readLeases ip fuel read.2 (pieceMac read.1)) =
                readLeases ip fuel read.2 (pieceMac read.1) := by
              split
              · rfl
              · rename_i htwo
                rw [if_neg fun h => hreads (by simp [readsIp, not_not.mp htwo, h])]
            refine hloop.trans ?_
            rw [ih, List.find?_cons_of_neg hreads, List.getLast?_cons]
            -- The buffer of a piece without the address is what the next ones start from.
            cases (pieces newline 255 fuel read.2).find? (readsIp ip) with
            | some p => rfl
            | none => cases (pieces newline 255 fuel read.2).getLast? <;> rfl

theorem getMacByIp_some (content : List Byte) (ip : CString) :
    getMacByIp (some content) ip = some ((decidingPiece content ip).elim [] pieceMac) :=
  congrArg some (readLeases_eq ip content.length content [])

/-! ### Bytes and strings -/

theorem toCString_length_le (s : List Byte) : (toCString s).length ≤ s.length := by
  induction s with
  | nil => exact le_rfl
  | cons c s ih =>
      rw [toCString]
      split
      · simpa using ih
      · exact Nat.zero_le _

theorem toCString_bytes (s : CString) : toCString (bytes s) = s := by
  induction s with
  | nil => rfl
  | cons c s ih =>
      rw [bytes] at ih ⊢
      rw [List.map_cons, toCString, dif_pos c.property, ih]

theorem bytes_toCString {s : List Byte} (h : 0 ∉ s) : bytes (toCString s) = s := by
  induction s with
  | nil => rfl
  | cons c s ih =>
      have hc : c ≠ 0 := fun heq => h (heq ▸ List.mem_cons_self)
      have hih := ih fun hmem => h (List.mem_cons_of_mem c hmem)
      rw [bytes] at hih ⊢
      rw [toCString, dif_pos hc, List.map_cons, hih]

/-! ### What is read of a piece -/

theorem sscanfLease_mac_length (line : List Byte) : (sscanfLease line).2.1.length ≤ 18 := by
  simp only [sscanfLease]
  split
  · exact Nat.zero_le _
  · split
    · exact Nat.zero_le _
    · split
      · exact scanWord_length_le 18 _
      · exact scanWord_length_le 18 _

theorem mem_of_mem_sscanfLease {line : List Byte} {c : Byte}
    (h : c ∈ (sscanfLease line).2.1 ∨ c ∈ (sscanfLease line).2.2) : c ∈ line := by
  have hmac : ∀ c, c ∈ (scanWord isspace (some 18) (scanWord isspace none line).2).1 → c ∈ line :=
    fun c hc => mem_of_mem_scanWord (Or.inr (mem_of_mem_scanWord (Or.inl hc)))
  have hip : ∀ c, c ∈ (scanWord isspace (some 15)
      (scanWord isspace (some 18) (scanWord isspace none line).2).2).1 → c ∈ line :=
    fun c hc => mem_of_mem_scanWord
      (Or.inr (mem_of_mem_scanWord (Or.inr (mem_of_mem_scanWord (Or.inl hc)))))
  simp only [sscanfLease] at h
  split at h
  · simp at h
  · split at h
    · simp at h
    · split at h
      · exact h.elim (hmac c) (by simp)
      · exact h.elim (hmac c) (hip c)

theorem pieceMac_length_le (piece : List Byte) : (pieceMac piece).length ≤ 18 :=
  (toCString_length_le _).trans (sscanfLease_mac_length _)

theorem zero_not_mem_scanPiece (piece : List Byte) :
    0 ∉ (scanPiece piece).2.1 ∧ 0 ∉ (scanPiece piece).2.2 := by
  have hno : (0 : Byte) ∉ piece.takeWhile (· ≠ 0) := by
    intro hmem
    simpa using List.mem_takeWhile_imp hmem
  exact ⟨fun h => hno (mem_of_mem_sscanfLease (Or.inl h)),
    fun h => hno (mem_of_mem_sscanfLease (Or.inr h))⟩

section Fits

variable {line : List Byte} (hmac : ∀ mac ∈ (wordsBy isspace line)[1]?, mac.length ≤ 18)
  (hip : ∀ ip ∈ (wordsBy isspace line)[2]?, ip.length ≤ 15)

include hmac hip

/-- The three words at the start of a line that fits are what is read. -/
theorem sscanfLease_of_words {w mac ip : List Byte} {rest : List (List Byte)}
    (h : wordsBy isspace line = w :: mac :: ip :: rest) : sscanfLease line = (2, mac, ip) := by
  have hne : ∀ v ∈ wordsBy isspace line, v ≠ [] := fun v hv => ne_nil_of_mem_wordsBy hv
  rw [h] at hmac hip hne
  obtain ⟨hfirst, h₁⟩ := scanWord_of_cons none h (by simp)
  obtain ⟨hsecond, h₂⟩ := scanWord_of_cons (some 18) h₁ (by simpa using hmac)
  obtain ⟨hthird, -⟩ := scanWord_of_cons (some 15) h₂ (by simpa using hip)
  simp only [sscanfLease, hfirst, hsecond, hthird]
  rw [if_neg (hne w (by simp)), if_neg (hne mac (by simp)), if_neg (hne ip (by simp))]

theorem words_of_sscanfLease (h : (sscanfLease line).1 = 2) :
    ∃ w rest, wordsBy isspace line =
      w :: (sscanfLease line).2.1 :: (sscanfLease line).2.2 :: rest := by
  cases hwords : wordsBy isspace line with
  | nil =>
      have hfirst := scanWord_of_nil hwords none
      simp [sscanfLease, hfirst] at h
  | cons w words =>
      obtain ⟨-, h₁⟩ := scanWord_of_cons none hwords (by simp)
      cases words with
      | nil =>
          have hsecond := scanWord_of_nil h₁ (some 18)
          simp only [sscanfLease, hsecond] at h
          split at h <;> simp at h
      | cons mac words =>
          cases words with
          | nil =>
              rw [hwords] at hmac
              obtain ⟨-, h₂⟩ := scanWord_of_cons (some 18) h₁ (by simpa using hmac)
              have hthird := scanWord_of_nil h₂ (some 15)
              simp only [sscanfLease, hthird] at h
              split at h
              · simp at h
              · split at h <;> simp at h
          | cons ip rest =>
              rw [sscanfLease_of_words hmac hip hwords]
              exact ⟨w, rest, rfl⟩

end Fits

/-- A piece that is a line, with its newline or without, is read as the
line. -/
theorem scanPiece_line {line piece : List Byte} (hzero : 0 ∉ line)
    (hp : piece = line ∨ piece = line ++ [newline]) :
    ∃ s, scanPiece piece = sscanfLease s ∧ wordsBy isspace s = wordsBy isspace line := by
  have hno : 0 ∉ piece := by
    rcases hp with rfl | rfl
    · exact hzero
    · intro hmem
      rcases List.mem_append.mp hmem with hmem | hmem
      · exact hzero hmem
      · exact absurd (List.mem_singleton.mp hmem) (by decide)
  have hall : piece.takeWhile (· ≠ 0) = piece := by
    rw [List.takeWhile_eq_self_iff]
    intro c hc
    have hne : c ≠ 0 := fun heq => hno (heq ▸ hc)
    simp [hne]
  refine ⟨piece, by rw [scanPiece, hall], ?_⟩
  rcases hp with rfl | rfl
  · rfl
  · exact wordsBy_append_blank (by decide) line

/-! ### When the lookup is right -/

/-- In a file that fits, the address is read from the line of a lease. -/
theorem readsIp_of_lease {content line piece : List Byte} (hfits : FitsBuffers content)
    (hline : line ∈ content.splitOn newline) (hp : piece = line ∨ piece = line ++ [newline])
    {mac ip : CString} (hsecond : (wordsBy isspace line)[1]? = some (bytes mac))
    (hthird : (wordsBy isspace line)[2]? = some (bytes ip)) : readsIp ip piece = true := by
  obtain ⟨-, hzero, hmacs, hips⟩ := hfits line hline
  obtain ⟨s, hscan, hwords⟩ := scanPiece_line hzero hp
  rw [← hwords] at hsecond hthird hmacs hips
  have hshape : ∃ w rest, wordsBy isspace s = w :: bytes mac :: bytes ip :: rest := by
    rcases hs : wordsBy isspace s with _ | ⟨w, _ | ⟨m, _ | ⟨i, rest⟩⟩⟩
    · simp [hs] at hthird
    · simp [hs] at hthird
    · simp [hs] at hthird
    · rw [hs] at hsecond hthird
      cases hsecond
      cases hthird
      exact ⟨w, rest, rfl⟩
  obtain ⟨w, rest, hshape⟩ := hshape
  have hread := sscanfLease_of_words hmacs hips hshape
  simp [readsIp, hscan, hread, toCString_bytes]

/-- And a piece the address is read from is the line of a lease. -/
theorem lease_of_readsIp {content line piece : List Byte} (hfits : FitsBuffers content)
    (hline : line ∈ content.splitOn newline) (hp : piece = line ∨ piece = line ++ [newline])
    {ip : CString} (h : readsIp ip piece = true) : Lease content (pieceMac piece) ip := by
  obtain ⟨-, hzero, hmacs, hips⟩ := hfits line hline
  obtain ⟨s, hscan, hwords⟩ := scanPiece_line hzero hp
  rw [← hwords] at hmacs hips
  simp only [readsIp, Bool.decide_and, Bool.and_eq_true, decide_eq_true_eq] at h
  obtain ⟨htwo, hip⟩ := h
  rw [hscan] at htwo
  obtain ⟨w, rest, hshape⟩ := words_of_sscanfLease hmacs hips htwo
  rw [← hscan] at hshape
  obtain ⟨hno₁, hno₂⟩ := zero_not_mem_scanPiece piece
  refine ⟨line, hline, ?_, ?_⟩
  · rw [← hwords, hshape, pieceMac, bytes_toCString hno₁]
    rfl
  · rw [← hwords, hshape, strcmp_eq_zero_iff.mp hip, bytes_toCString hno₂]
    rfl

/-- In a file that fits, the piece that decides about an address with a lease
is the line of one. -/
theorem lease_decidingPiece {content : List Byte} (hfits : FitsBuffers content)
    {mac ip : CString} (hlease : Lease content mac ip) :
    ∃ piece, decidingPiece content ip = some piece ∧ Lease content (pieceMac piece) ip := by
  obtain ⟨line, hline, hsecond, hthird⟩ := hlease
  obtain ⟨hpieces, hback⟩ := pieces_lines (le_refl content.length)
    fun l hl => (hfits l hl).1
  have hne : line ≠ [] := by
    rintro rfl
    simp [wordsBy] at hthird
  obtain ⟨q, hq, hql⟩ := hback line hline hne
  have hreads := readsIp_of_lease hfits hline hql hsecond hthird
  have hfound : ((pieces newline 255 content.length content).find? (readsIp ip)).isSome := by
    rw [List.find?_isSome]
    exact ⟨q, hq, hreads⟩
  obtain ⟨piece, hpiece⟩ := Option.isSome_iff_exists.mp hfound
  refine ⟨piece, by rw [decidingPiece, hpiece]; rfl, ?_⟩
  obtain ⟨l, hl, hpl⟩ := hpieces piece (List.mem_of_find?_eq_some hpiece)
  exact lease_of_readsIp hfits hl hpl (List.find?_some hpiece)

theorem getMacByIp_length_le {leases : Option (List Byte)} {ip mac : CString}
    (h : getMacByIp leases ip = some mac) : mac.length ≤ 18 := by
  cases leases with
  | none => cases h
  | some content =>
      rw [getMacByIp_some, Option.some.injEq] at h
      subst h
      cases decidingPiece content ip with
      | none => exact Nat.zero_le _
      | some piece => exact pieceMac_length_le piece

theorem not_lease_nil (content : List Byte) (ip : CString) : ¬ Lease content [] ip := by
  rintro ⟨line, -, hsecond, -⟩
  exact ne_nil_of_mem_wordsBy (List.mem_of_getElem? hsecond) rfl

theorem publishes_of_leases {leases : Option (List Byte)} {ip : CString}
    (h : ∀ mac, getMacByIp leases ip = some mac → Leased leases mac ip) :
    ∀ peer object, peer.length ≤ 45 → slash ∉ peer → ipPrefix peer = ip →
      ∃ b pre, InBuffer.proxiedObjname .mac (getMacByIp leases) peer object = some b ∧
        Buffer.str b = some (pre ++ slash :: object) ∧ (pre = ip ∨ Leased leases pre ip) ∧
        ((¬ ∃ mac, Leased leases mac ip) → pre = ip) := by
  rintro peer object hpeer hslash rfl
  obtain ⟨b, hb, hstr, hlen⟩ := InBuffer.proxiedNameFill_malloc hpeer object
  have hroom : ∀ mac, getMacByIp leases (ipPrefix peer) = some mac →
      mac.length + 1 + object.length < proxiedNameSize object := by
    intro mac hmac
    have := getMacByIp_length_le hmac
    rw [proxiedNameSize]
    omega
  obtain ⟨b', hb', hstr', -⟩ := InBuffer.proxiedNameMacPrefix_str .mac hstr hlen
    (slash_not_mem_ipPrefix hslash) (by rw [proxiedNameSize]; omega) hroom
  refine ⟨b', _, ?_, hstr', ?_⟩
  · simp only [InBuffer.proxiedObjname, hb, Option.bind_eq_bind, Option.bind_some]
    exact hb'
  · split
    · cases hmac : getMacByIp leases (ipPrefix peer) with
      | none => exact ⟨Or.inl rfl, fun _ => rfl⟩
      | some mac => exact ⟨Or.inr (h mac hmac), fun hno => absurd ⟨mac, h mac hmac⟩ hno⟩
    · exact ⟨Or.inl rfl, fun _ => rfl⟩

/-- The host is named right exactly when there is no file, or the piece that
decides holds a lease of the address. -/
theorem namesOnlyHost_iff_deciding (leases : Option (List Byte)) (ip : CString) :
    NamesOnlyHost leases ip ↔ leases = none ∨
      ∃ content piece, leases = some content ∧ decidingPiece content ip = some piece ∧
        Lease content (pieceMac piece) ip := by
  cases leases with
  | none =>
      refine iff_of_true ?_ (Or.inl rfl)
      have hnone : ∀ mac, getMacByIp none ip = some mac → Leased none mac ip := by
        intro mac hmac
        cases hmac
      exact ⟨hnone, publishes_of_leases hnone⟩
  | some content =>
      constructor
      · intro h
        obtain ⟨c, hc, hlease⟩ := h.1 _ (getMacByIp_some content ip)
        cases hc
        cases hpiece : decidingPiece content ip with
        | none =>
            rw [hpiece] at hlease
            exact absurd hlease (not_lease_nil content ip)
        | some piece =>
            rw [hpiece] at hlease
            exact Or.inr ⟨content, piece, rfl, hpiece, hlease⟩
      · rintro (hnone | ⟨c, piece, hc, hpiece, hlease⟩)
        · cases hnone
        · cases hc
          have honly : ∀ mac, getMacByIp (some content) ip = some mac →
              Leased (some content) mac ip := by
            intro mac hmac
            rw [getMacByIp_some, hpiece] at hmac
            cases hmac
            exact ⟨content, rfl, hlease⟩
          exact ⟨honly, publishes_of_leases honly⟩

/-- The lookup names no other host exactly when the file cannot be opened or
the piece that decides about the address is the line of a lease of it. In a
file that fits the buffers, that is whether the address has a lease. -/
theorem names_only_host_iff (leases : Option (List Byte)) (ip : CString) :
    (NamesOnlyHost leases ip ↔ leases = none ∨
      ∃ content piece, leases = some content ∧ decidingPiece content ip = some piece ∧
        Lease content (pieceMac piece) ip) ∧
    ∀ content, leases = some content → FitsBuffers content →
      (NamesOnlyHost leases ip ↔ ∃ mac, Lease content mac ip) := by
  refine ⟨namesOnlyHost_iff_deciding leases ip, ?_⟩
  rintro content rfl hfits
  rw [namesOnlyHost_iff_deciding]
  constructor
  · rintro (hnone | ⟨c, piece, hc, -, hlease⟩)
    · cases hnone
    · cases hc
      exact ⟨_, hlease⟩
  · rintro ⟨mac, hlease⟩
    obtain ⟨piece, hpiece, hpl⟩ := lease_decidingPiece hfits hlease
    exact Or.inr ⟨content, piece, rfl, hpiece, hpl⟩

def oneLease : List Byte :=
  bytes (.ofString "1700000000 02:00:00:00:00:01 10.0.0.1 host id\n")

/-- Asked for the address of that host, the lookup is right. -/
theorem names_only_host_iff_leased : NamesOnlyHost (some oneLease) (.ofString "10.0.0.1") := by
  have hfits : FitsBuffers oneLease := by
    rw [FitsBuffers]
    decide
  apply ((names_only_host_iff (some oneLease) (.ofString "10.0.0.1")).2 oneLease rfl hfits).mpr
  exact ⟨.ofString "02:00:00:00:00:01", by decide⟩

/-- Asked for the address of another host, the lookup returns the MAC of the
one that has a lease. -/
theorem names_other_host :
    getMacByIp (some oneLease) (.ofString "10.0.0.2") = some (.ofString "02:00:00:00:00:01") ∧
      ¬ NamesOnlyHost (some oneLease) (.ofString "10.0.0.2") := by
  have hmac : getMacByIp (some oneLease) (.ofString "10.0.0.2") =
      some (.ofString "02:00:00:00:00:01") := by
    decide
  refine ⟨hmac, ?_⟩
  intro h
  obtain ⟨content, hcontent, hlease⟩ := h.1 _ hmac
  cases hcontent
  exact absurd hlease (by decide)

end Owsd.Registry
