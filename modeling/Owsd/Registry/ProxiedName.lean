import Owsd.Basis.Buffer
import Owsd.Registry.Step

/-!
Proxied names in the memory they are written to (`local_stub.c`).

The model of the registry takes the name of a stub as a string. Here the
name is written the way the source does it, into one allocation that three
functions edit in place, and what ends up there is the string the registry
takes; nothing is cut off and nothing is written outside.
-/

namespace Owsd.Registry

inductive UbusxPrefix where
  | ip
  | mac
  deriving DecidableEq

/-- The text of a peer address without the prefix of a mapped one. -/
def ipPrefix (peer : CString) : CString :=
  if strncmp peer (.ofString "::ffff:") 7 = 0 then peer.drop 7 else peer

def proxiedNameSize (name : CString) : ℕ := name.length + 50 + 2

namespace InBuffer

/-- `proxied_name_fill`, where `lws_get_peer_simple` writes `peer`. The
string is shorter than the buffer, so that no difference of the two
lengths wraps around. -/
def proxiedNameFill (proxiedName : Buffer) (proxiedNameSz : ℕ) (peer name : CString) :
    Option Buffer := do
  let b ← Buffer.strcpy proxiedName peer
  let s ← Buffer.str b
  let b ← (if strncmp s (.ofString "::ffff:") 7 = 0 then Buffer.memmove b 0 7 (s.length - 6)
    else some b)
  let s ← Buffer.str b
  let b ← Buffer.strncat b [slash] (proxiedNameSz - s.length)
  let s ← Buffer.str b
  Buffer.strncat b name (proxiedNameSz - s.length)

/-- `proxied_name_mac_prefix`. A failed allocation leaves the name as it
is, as an address that `get_mac_by_ip` has no answer for does. -/
def proxiedNameMacPrefix (ubusxPrefix : UbusxPrefix) (getMacByIp : CString → Option CString)
    (name : Buffer) (size : ℕ) : Option Buffer :=
  if ubusxPrefix ≠ .mac then some name
  else
    (Buffer.str name).bind fun s =>
      if s.length < 3 ∨ size ≤ 21 then some name
      else
        match strchr s slash with
        | none => some name
        | some i =>
            match getMacByIp (s.take i) with
            | none => some name
            | some mac => Buffer.snprintf name size (mac ++ slash :: s.drop (i + 1))

/-- The name of a new stub in `wsu_local_stub_create`. -/
def proxiedObjname (ubusxPrefix : UbusxPrefix) (getMacByIp : CString → Option CString)
    (peer object : CString) : Option Buffer := do
  let sz := proxiedNameSize object
  let b ← proxiedNameFill (Buffer.malloc sz) sz peer object
  proxiedNameMacPrefix ubusxPrefix getMacByIp b sz

end InBuffer

/-- `strchr(name, '/')+1`, the key of a stub and the name
`wsu_local_stub_handle_call` sends. -/
def localName (name : CString) : Option CString :=
  (strchr name slash).map fun i => name.drop (i + 1)

/-- The part before the slash that a stub is published under. A name of
less than three characters keeps the address. -/
def publishedPrefix (ubusxPrefix : UbusxPrefix) (getMacByIp : CString → Option CString)
    (peer object : CString) : CString :=
  let ip := ipPrefix peer
  if ubusxPrefix = .mac ∧ 3 ≤ ip.length + 1 + object.length then (getMacByIp ip).getD ip else ip

/-! ### The inverse -/

theorem localName_append {s o : CString} (hs : slash ∉ s) :
    localName (s ++ slash :: o) = some o := by
  rw [localName, strchr_append hs]
  simp

theorem ipPrefix_length_le (peer : CString) : (ipPrefix peer).length ≤ peer.length := by
  rw [ipPrefix]
  split
  · rw [List.length_drop]
    omega
  · exact le_rfl

theorem slash_not_mem_ipPrefix {peer : CString} (h : slash ∉ peer) : slash ∉ ipPrefix peer := by
  rw [ipPrefix]
  split
  · exact fun hmem => h (List.mem_of_mem_drop hmem)
  · exact h

/-- A text that starts as a mapped address is at least that long. -/
theorem seven_le_length {s : CString} (h : strncmp s (.ofString "::ffff:") 7 = 0) :
    7 ≤ s.length := by
  rw [strncmp_eq_strcmp_take, strcmp_eq_zero_iff] at h
  have hlen := congrArg List.length h
  rw [List.length_take, List.length_take] at hlen
  have hseven : (CString.ofString "::ffff:").length = 7 := by decide
  omega

/-! ### The writes -/

namespace InBuffer

theorem memmove_ipPrefix {b : Buffer} {peer : CString} (hstr : Buffer.str b = some peer) :
    ∃ b', (if strncmp peer (.ofString "::ffff:") 7 = 0 then
        Buffer.memmove b 0 7 (peer.length - 6) else some b) = some b' ∧
      Buffer.str b' = some (ipPrefix peer) ∧ b'.length = b.length := by
  rw [ipPrefix]
  split
  · rename_i hmapped
    have hseven := seven_le_length hmapped
    have hlen : peer.length - 6 = peer.length - 7 + 1 := by omega
    rw [hlen]
    exact Buffer.memmove_str hstr hseven
  · exact ⟨b, rfl, hstr, rfl⟩

theorem proxiedNameFill_str {b : Buffer} {sz : ℕ} {peer name : CString} (hb : b.length = sz)
    (hroom : peer.length + 1 + name.length < sz) :
    ∃ b', proxiedNameFill b sz peer name = some b' ∧
      Buffer.str b' = some (ipPrefix peer ++ slash :: name) ∧ b'.length = sz := by
  have hip := ipPrefix_length_le peer
  obtain ⟨b₁, hb₁, hstr₁, hlen₁⟩ := Buffer.strcpy_str (b := b) (s := peer) (by omega)
  obtain ⟨b₂, hb₂, hstr₂, hlen₂⟩ := memmove_ipPrefix hstr₁
  obtain ⟨b₃, hb₃, hstr₃, hlen₃⟩ := Buffer.strncat_str (s := [slash])
    (n := sz - (ipPrefix peer).length) hstr₂
    (by rw [List.length_singleton]; omega) (by rw [List.length_singleton]; omega)
  have hslash : (ipPrefix peer ++ [slash]).length = (ipPrefix peer).length + 1 := by
    rw [List.length_append, List.length_singleton]
  obtain ⟨b₄, hb₄, hstr₄, hlen₄⟩ := Buffer.strncat_str (s := name)
    (n := sz - (ipPrefix peer ++ [slash]).length) hstr₃ (by omega) (by omega)
  rw [List.append_assoc, List.singleton_append] at hstr₄
  refine ⟨b₄, ?_, hstr₄, by omega⟩
  simp only [proxiedNameFill, hb₁, hstr₁, hb₂, hstr₂, hb₃, hstr₃, hb₄, Option.bind_eq_bind,
    Option.bind_some]

/-- The name of a stub in an allocation of the size the source asks for. -/
theorem proxiedNameFill_malloc {peer : CString} (hpeer : peer.length ≤ 45) (name : CString) :
    ∃ b, proxiedNameFill (Buffer.malloc (proxiedNameSize name)) (proxiedNameSize name) peer name =
        some b ∧
      Buffer.str b = some (ipPrefix peer ++ slash :: name) ∧ b.length = proxiedNameSize name := by
  apply proxiedNameFill_str (Buffer.malloc_length _)
  rw [proxiedNameSize]
  omega

/-- In memory, too, the registry's name is what the source writes. -/
theorem proxiedNameFill_refines (net : Net) {address : CString}
    (hpeer : (net.peerSimple address).length ≤ 45) (name : CString) :
    ∃ b, proxiedNameFill (Buffer.malloc (proxiedNameSize name)) (proxiedNameSize name)
        (net.peerSimple address) name = some b ∧
      Buffer.str b = some (Registry.proxiedNameFill net address name) := by
  obtain ⟨b, hb, hstr, -⟩ := proxiedNameFill_malloc hpeer name
  exact ⟨b, hb, hstr⟩

variable {getMacByIp : CString → Option CString}

theorem proxiedNameMacPrefix_str (ubusxPrefix : UbusxPrefix) {b : Buffer} {size : ℕ}
    {ip o : CString} (hstr : Buffer.str b = some (ip ++ slash :: o)) (hb : b.length = size)
    (hip : slash ∉ ip) (hsize : 21 < size)
    (hroom : ∀ mac, getMacByIp ip = some mac → mac.length + 1 + o.length < size) :
    ∃ b', proxiedNameMacPrefix ubusxPrefix getMacByIp b size = some b' ∧
      Buffer.str b' = some ((if ubusxPrefix = .mac ∧ 3 ≤ ip.length + 1 + o.length then
        (getMacByIp ip).getD ip else ip) ++ slash :: o) ∧ b'.length = size := by
  have hlen : (ip ++ slash :: o).length = ip.length + 1 + o.length := by
    rw [List.length_append, List.length_cons]
    omega
  by_cases hmode : ubusxPrefix = .mac
  · rw [proxiedNameMacPrefix, if_neg (not_not.mpr hmode), hstr, Option.bind_some, hlen]
    by_cases hshort : ip.length + 1 + o.length < 3
    · rw [if_pos (Or.inl hshort), if_neg (fun h => absurd h.2 (by omega))]
      exact ⟨b, rfl, hstr, hb⟩
    · rw [if_neg (by omega), if_pos ⟨hmode, by omega⟩]
      simp only [strchr_append hip, List.take_left]
      cases hmac : getMacByIp ip with
      | none => exact ⟨b, rfl, hstr, hb⟩
      | some mac =>
          have hdrop : (ip ++ slash :: o).drop (ip.length + 1) = o := by simp
          have hfits : (mac ++ slash :: o).length < size := by
            have := hroom mac hmac
            rw [List.length_append, List.length_cons]
            omega
          rw [hdrop]
          obtain ⟨b', hb', hstr', hlen'⟩ := Buffer.snprintf_str (b := b) (by omega) hfits
          exact ⟨b', hb', hstr', by omega⟩
  · rw [proxiedNameMacPrefix, if_pos hmode, if_neg (fun h => hmode h.1)]
    exact ⟨b, rfl, hstr, hb⟩

end InBuffer

/-- A prefix has no slash in it and leaves room for what comes after. -/
theorem publishedPrefix_short (ubusxPrefix : UbusxPrefix)
    {getMacByIp : CString → Option CString} {peer : CString} (object : CString)
    (hpeer : peer.length ≤ 45) (hslash : slash ∉ peer)
    (hmac : ∀ ip mac, getMacByIp ip = some mac → mac.length ≤ 18 ∧ slash ∉ mac) :
    (publishedPrefix ubusxPrefix getMacByIp peer object).length ≤ 45 ∧
      slash ∉ publishedPrefix ubusxPrefix getMacByIp peer object := by
  have hip : (ipPrefix peer).length ≤ 45 ∧ slash ∉ ipPrefix peer :=
    ⟨(ipPrefix_length_le peer).trans hpeer, slash_not_mem_ipPrefix hslash⟩
  simp only [publishedPrefix]
  split
  · cases h : getMacByIp (ipPrefix peer) with
    | none => exact hip
    | some mac =>
        obtain ⟨hlen, hno⟩ := hmac _ mac h
        exact ⟨hlen.trans (by omega), hno⟩
  · exact hip

/-- A stub's name is its prefix, the slash and the whole name of the object,
inside the allocation, and the object's name is what follows the first
slash. The same holds of the name of an event, which keeps the address. -/
theorem proxied_name_invertible (ubusxPrefix : UbusxPrefix)
    (getMacByIp : CString → Option CString) (peer object : CString)
    (hpeer : peer.length ≤ 45) (hslash : slash ∉ peer)
    (hmac : ∀ ip mac, getMacByIp ip = some mac → mac.length ≤ 18 ∧ slash ∉ mac) :
    (∃ b, InBuffer.proxiedNameFill (Buffer.malloc (proxiedNameSize object))
        (proxiedNameSize object) peer object = some b ∧
      b.length = proxiedNameSize object ∧
      Buffer.str b = some (ipPrefix peer ++ slash :: object) ∧
      localName (ipPrefix peer ++ slash :: object) = some object) ∧
    ∃ b name, InBuffer.proxiedObjname ubusxPrefix getMacByIp peer object = some b ∧
      b.length = proxiedNameSize object ∧
      name = publishedPrefix ubusxPrefix getMacByIp peer object ++ slash :: object ∧
      Buffer.str b = some name ∧
      name.length + 1 ≤ proxiedNameSize object ∧
      localName name = some object := by
  obtain ⟨b, hb, hstr, hlen⟩ := InBuffer.proxiedNameFill_malloc hpeer object
  have hip := slash_not_mem_ipPrefix hslash
  have hsize : 21 < proxiedNameSize object := by
    rw [proxiedNameSize]
    omega
  obtain ⟨b', hb', hstr', hlen'⟩ := InBuffer.proxiedNameMacPrefix_str ubusxPrefix hstr hlen hip
    hsize (fun mac hm => by
      have := (hmac _ mac hm).1
      rw [proxiedNameSize]
      omega)
  have hshort := publishedPrefix_short ubusxPrefix object hpeer hslash hmac
  refine ⟨⟨b, hb, hlen, hstr, localName_append hip⟩, b', _, ?_, hlen', rfl, hstr', ?_,
    localName_append hshort.2⟩
  · simp only [InBuffer.proxiedObjname, hb, Option.bind_eq_bind, Option.bind_some]
    exact hb'
  · rw [proxiedNameSize, List.length_append, List.length_cons]
    have := hshort.1
    omega

/-- An object whose own name has a slash, behind a mapped address with a
lease. -/
theorem proxied_name_invertible_router :
    (InBuffer.proxiedObjname .mac
      (fun ip => if ip = .ofString "10.0.0.1" then some (.ofString "02:00:00:00:00:01") else none)
      (.ofString "::ffff:10.0.0.1") (.ofString "a/b")).bind Buffer.str =
      some (.ofString "02:00:00:00:00:01/a/b") := by
  obtain ⟨-, b, name, hb, -, hname, hstr, -⟩ := proxied_name_invertible .mac
    (fun ip => if ip = .ofString "10.0.0.1" then some (.ofString "02:00:00:00:00:01") else none)
    (.ofString "::ffff:10.0.0.1") (.ofString "a/b") (by decide) (by decide) (by
      intro ip mac h
      split at h
      · cases h
        decide
      · cases h)
  rw [hb, Option.bind_some, hstr, hname]
  decide

end Owsd.Registry
