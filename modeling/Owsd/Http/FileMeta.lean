import Owsd.Basis.Buffer

/-!
What is known of a file before it is served (`ws_http_serve.c`): its type,
its encoding, and the name under which it is on disk.

The type is looked up by the text behind the last dot of the requested
path. The comparison with an entry of the table ends with that text, not
with the entry, so the entry found is the first one that the text begins.
A path is given the type of its extension exactly when this makes no
difference (`typedByExtension_iff`).

Memory is written through `Buffer`; a result `none` of the functions that
write is an access outside an allocation. No locale is chosen for the
classes of characters, so case is that of ASCII.
-/

namespace Owsd.Http

theorem dot_ne : '.'.toNat % 256 ≠ 0 := by decide

theorem slash_ne : '/'.toNat % 256 ≠ 0 := by decide

def dot : CChar := .ofChar '.' dot_ne

def slash : CChar := .ofChar '/' slash_ne

/-! ### The path on disk -/

/-- `PATH_MAX` of `<linux/limits.h>`. -/
def pathMax : ℕ := 4096

/-- What `ws_http_construct_pathname` formats. -/
def pathnameText (base inp : CString) : CString :=
  base ++ slash :: (inp ++ if inp.getLast? = some slash then CString.ofString "index.html" else [])

/-- `ws_http_construct_pathname`. The last byte of an empty request is
outside of it. -/
def wsHttpConstructPathname (base inp : CString) : Option Buffer :=
  if inp = [] then none
  else do
    let text := pathnameText base inp
    let filepath ← Buffer.snprintf (Buffer.malloc pathMax) pathMax text
    if pathMax ≤ text.length then
      -- The block grows, the second write has the bound of the first.
      let filepath := filepath ++ Buffer.malloc (text.length - pathMax)
      Buffer.snprintf filepath pathMax text
    else some filepath

/-! ### Types and encodings -/

structure FileextMap where
  ext : CString
  val : CString

/-- `filepath_strnrchr`, as an index: the scan starts at the last of the `n`
bytes and goes down. -/
def filepathStrnrchr (filepath : CString) (c : CChar) : ℕ → Option ℕ
  | 0 => none
  | n + 1 => if filepath[n]? = some c then some n else filepathStrnrchr filepath c n

/-- `mapping_by_extension`: the first entry that `strncasecmp` finds
equal. -/
def mappingByExtension (ext : CString) (n : ℕ) (map : List FileextMap) : Option FileextMap :=
  map.find? fun m => strncasecmp ext m.ext n = 0

def mimeMap : List FileextMap := [
  ⟨.ofString "html", .ofString "text/html"⟩,
  ⟨.ofString "js", .ofString "application/javascript"⟩,
  ⟨.ofString "png", .ofString "image/png"⟩,
  ⟨.ofString "gif", .ofString "image/gif"⟩,
  ⟨.ofString "jpg", .ofString "image/jpeg"⟩,
  ⟨.ofString "jpeg", .ofString "image/jpeg"⟩,
  ⟨.ofString "css", .ofString "text/css"⟩,
  ⟨.ofString "txt", .ofString "text/plain"⟩,
  ⟨.ofString "htm", .ofString "text/html"⟩,
  ⟨.ofString "bin", .ofString "application/octet-stream"⟩,
  ⟨.ofString "img", .ofString "application/octet-stream"⟩]

def encMap : List FileextMap := [
  ⟨.ofString "br", .ofString "brotli"⟩,
  ⟨.ofString "gz", .ofString "gzip"⟩,
  ⟨.ofString "zz", .ofString "deflate"⟩]

def determineMimetype (filepath : CString) (n : ℕ) : Option CString :=
  match filepathStrnrchr filepath dot n with
  | some lastDot =>
      let extLen := n - lastDot - 1
      (mappingByExtension (filepath.drop (lastDot + 1)) extLen mimeMap).map FileextMap.val
  | none => none

def octetStream : CString := .ofString "application/octet-stream"

/-- What the program asks the kernel about a path: whether it can be read,
and what `stat` fills in. -/
structure FileSystem (σ : Type) where
  access : CString → Bool
  stat : CString → Option σ

/-- `struct file_meta`, without the headers of the response. -/
structure FileMeta (σ : Type) where
  status : Int
  filestat : σ
  realFilepath : Buffer
  mime : CString
  enc : Option CString

section
variable {σ : Type} (fs : FileSystem σ)

/-- The loop of `determine_file_meta`: one extension after the other, until
there is a file of that name. -/
def findEncoding (n : ℕ) : List FileextMap → Buffer → Option (Buffer × Option CString)
  | [], realFilepath => some (realFilepath, none)
  | m :: rest, realFilepath => do
      let realFilepath ← Buffer.strcat realFilepath [dot]
      let realFilepath ← Buffer.strcat realFilepath m.ext
      let path ← Buffer.str realFilepath
      if fs.access path then some (realFilepath, some m.val)
      else
        let realFilepath ← Buffer.poke realFilepath n [some 0]
        findEncoding n rest realFilepath

def determineFileMeta (fileMeta : FileMeta σ) (filepath : CString) (n : ℕ) :
    Option (FileMeta σ) := do
  let realFilepath ← Buffer.strncpy (Buffer.malloc (n + 4)) filepath (n + 1)
  let path ← Buffer.str realFilepath
  let mime := (determineMimetype path n).getD octetStream
  let (realFilepath, enc) ← findEncoding fs n encMap realFilepath
  let path ← Buffer.str realFilepath
  match fs.stat path with
  | some filestat => some ⟨0, filestat, realFilepath, mime, enc⟩
  | none => some ⟨-1, fileMeta.filestat, realFilepath, mime, enc⟩

/-- The start of `ws_http_serve_file`: what it learns of the file that a
request names. -/
def requestedFileMeta (fileMeta : FileMeta σ) (wwwPath inp : CString) :
    Option (FileMeta σ) := do
  let filepath ← wsHttpConstructPathname wwwPath inp
  let filepath ← Buffer.str filepath
  determineFileMeta fs fileMeta filepath filepath.length

end

/-! ### The scan and the lookup -/

def AfterLastDot (path ext : CString) : Prop := ∃ stem, path = stem ++ dot :: ext ∧ dot ∉ ext

theorem filepathStrnrchr_eq_some {filepath : CString} {c : CChar} {n i : ℕ} (hi : i < n)
    (hc : filepath[i]? = some c) (hlast : ∀ j, i < j → j < n → filepath[j]? ≠ some c) :
    filepathStrnrchr filepath c n = some i := by
  induction n with
  | zero => omega
  | succ n ih =>
      rw [filepathStrnrchr]
      by_cases hin : i = n
      · rw [if_pos (hin ▸ hc), hin]
      · rw [if_neg (hlast n (by omega) (by omega))]
        exact ih (by omega) fun j hij hjn => hlast j hij (by omega)

theorem filepathStrnrchr_eq_none {filepath : CString} {c : CChar} (hc : c ∉ filepath) (n : ℕ) :
    filepathStrnrchr filepath c n = none := by
  induction n with
  | zero => rfl
  | succ n ih =>
      rw [filepathStrnrchr, if_neg (fun h => hc (List.mem_of_getElem? h)), ih]

/-- The scan of a whole path ends at the dot before its last piece. -/
theorem filepathStrnrchr_append {stem ext : CString} (hext : dot ∉ ext) :
    filepathStrnrchr (stem ++ dot :: ext) dot (stem ++ dot :: ext).length =
      some stem.length := by
  have hlen : (stem ++ dot :: ext).length = stem.length + (ext.length + 1) := by
    rw [List.length_append, List.length_cons]
  refine filepathStrnrchr_eq_some (by omega) (by simp) ?_
  intro j hj _ hdot
  obtain ⟨k, rfl⟩ : ∃ k, j = stem.length + (k + 1) := ⟨j - stem.length - 1, by omega⟩
  rw [List.getElem?_append_right (by omega), Nat.add_sub_cancel_left,
    List.getElem?_cons_succ] at hdot
  exact hext (List.mem_of_getElem? hdot)

theorem AfterLastDot.unique {path e₁ e₂ : CString} (h₁ : AfterLastDot path e₁)
    (h₂ : AfterLastDot path e₂) : e₁ = e₂ := by
  obtain ⟨s₁, rfl, hd₁⟩ := h₁
  obtain ⟨s₂, hp, hd₂⟩ := h₂
  have hscan : filepathStrnrchr (s₁ ++ dot :: e₁) dot (s₁ ++ dot :: e₁).length = some s₁.length :=
    filepathStrnrchr_append hd₁
  rw [hp, filepathStrnrchr_append hd₂, Option.some.injEq] at hscan
  have hdots := (List.append_inj hp hscan.symm).2
  exact (List.cons.inj hdots).2

theorem exists_afterLastDot {path : CString} (h : dot ∈ path) : ∃ ext, AfterLastDot path ext := by
  induction path with
  | nil => cases h
  | cons c path ih =>
      by_cases hpath : dot ∈ path
      · obtain ⟨ext, stem, rfl, hext⟩ := ih hpath
        exact ⟨ext, c :: stem, rfl, hext⟩
      · rcases List.mem_cons.mp h with rfl | h
        · exact ⟨path, [], rfl, hpath⟩
        · exact absurd h hpath

theorem determineMimetype_eq_none {path : CString} (h : dot ∉ path) (n : ℕ) :
    determineMimetype path n = none := by
  rw [determineMimetype, filepathStrnrchr_eq_none h]

/-- The entry found is the first one of which the extension is a
beginning. -/
theorem determineMimetype_eq {path ext : CString} (h : AfterLastDot path ext) :
    determineMimetype path path.length =
      (mimeMap.find? fun m => lowercase ext <+: lowercase m.ext).map FileextMap.val := by
  obtain ⟨stem, rfl, hext⟩ := h
  have hdrop : (stem ++ dot :: ext).drop (stem.length + 1) = ext := by
    rw [← List.drop_drop, List.drop_left]
    rfl
  have hlen : (stem ++ dot :: ext).length - stem.length - 1 = ext.length := by
    rw [List.length_append, List.length_cons]
    omega
  simp only [determineMimetype, filepathStrnrchr_append hext, hdrop, hlen, mappingByExtension,
    strncasecmp_length_eq_zero_iff]

/-- A type that is found is that of an entry which the extension begins. -/
theorem exists_of_determineMimetype {path ext val : CString} (hext : AfterLastDot path ext)
    (h : determineMimetype path path.length = some val) :
    ∃ m ∈ mimeMap, m.val = val ∧ lowercase ext <+: lowercase m.ext := by
  rw [determineMimetype_eq hext, Option.map_eq_some_iff] at h
  obtain ⟨m, hfind, rfl⟩ := h
  exact ⟨m, List.mem_of_find?_eq_some hfind, rfl, by simpa using List.find?_some hfind⟩

theorem determineMimetype_isSome {path ext : CString} (hext : AfterLastDot path ext)
    {m : FileextMap} (hm : m ∈ mimeMap) (hpre : lowercase ext <+: lowercase m.ext) :
    ∃ val, determineMimetype path path.length = some val := by
  apply Option.isSome_iff_exists.mp
  rw [determineMimetype_eq hext, Option.isSome_map, List.find?_isSome]
  exact ⟨m, hm, by simpa using hpre⟩

/-! ### The writes -/

section
variable {σ : Type}

def encodingOnDisk (fs : FileSystem σ) (path : CString) (maps : List FileextMap) :
    Option FileextMap :=
  maps.find? fun m => fs.access (path ++ dot :: m.ext)

def diskPath (path : CString) : Option FileextMap → CString
  | some m => path ++ dot :: m.ext
  | none => path

/-- The loop ends with the first encoding on disk. The name it tries and a
terminator fit where there is room for two bytes behind the dot. -/
theorem findEncoding_eq_some (fs : FileSystem σ) {path : CString} {maps : List FileextMap}
    {b : Buffer} (hmaps : ∀ m ∈ maps, m.ext.length ≤ 2) (hstr : Buffer.str b = some path)
    (hlen : b.length = path.length + 4) :
    ∃ b', findEncoding fs path.length maps b =
        some (b', (encodingOnDisk fs path maps).map FileextMap.val) ∧
      Buffer.str b' = some (diskPath path (encodingOnDisk fs path maps)) := by
  induction maps generalizing b with
  | nil => exact ⟨b, rfl, hstr⟩
  | cons m rest ih =>
      have hm : m.ext.length ≤ 2 := hmaps m (by simp)
      obtain ⟨b₁, hb₁, hstr₁, hlen₁⟩ := Buffer.strcat_str (s := [dot]) hstr
        (by rw [List.length_singleton]; omega)
      obtain ⟨b₂, hb₂, hstr₂, hlen₂⟩ := Buffer.strcat_str (s := m.ext) hstr₁
        (by rw [List.length_append, List.length_singleton]; omega)
      rw [List.append_assoc, List.singleton_append] at hstr₂
      cases hacc : fs.access (path ++ dot :: m.ext) with
      | true =>
          have henc : encodingOnDisk fs path (m :: rest) = some m := by
            simp [encodingOnDisk, hacc]
          rw [henc]
          refine ⟨b₂, ?_, hstr₂⟩
          simp [findEncoding, hb₁, hb₂, hstr₂, hacc]
      | false =>
          have henc : encodingOnDisk fs path (m :: rest) = encodingOnDisk fs path rest := by
            simp [encodingOnDisk, hacc]
          -- The terminator takes back what was appended.
          obtain ⟨b₃, hb₃, hstr₃, hlen₃⟩ := Buffer.poke_str (n := path.length) hstr₂ (by simp)
          rw [List.take_left] at hstr₃
          obtain ⟨b', hb', hstr'⟩ := ih (fun m hm => hmaps m (by simp [hm])) hstr₃ (by omega)
          rw [henc]
          refine ⟨b', ?_, hstr'⟩
          simpa [findEncoding, hb₁, hb₂, hstr₂, hacc, hb₃] using hb'

theorem encMap_ext_length : ∀ m ∈ encMap, m.ext.length ≤ 2 := by decide

/-- All that is learned of a file. No write leaves the allocation, whatever
is on disk. -/
theorem determineFileMeta_eq_some (fs : FileSystem σ) (fileMeta : FileMeta σ) (path : CString) :
    ∃ fileMeta', determineFileMeta fs fileMeta path path.length = some fileMeta' ∧
      fileMeta'.mime = (determineMimetype path path.length).getD octetStream ∧
      fileMeta'.enc = (encodingOnDisk fs path encMap).map FileextMap.val ∧
      Buffer.str fileMeta'.realFilepath = some (diskPath path (encodingOnDisk fs path encMap)) ∧
      (fileMeta'.status = 0 ↔ (fs.stat (diskPath path (encodingOnDisk fs path encMap))).isSome) ∧
      fileMeta'.filestat =
        (fs.stat (diskPath path (encodingOnDisk fs path encMap))).getD fileMeta.filestat := by
  obtain ⟨b, hb, hstr, hlen⟩ := Buffer.strncpy_str (b := Buffer.malloc (path.length + 4))
    (Nat.lt_succ_self path.length) (by rw [Buffer.malloc_length]; omega)
  rw [Buffer.malloc_length] at hlen
  obtain ⟨b', hb', hstr'⟩ := findEncoding_eq_some fs encMap_ext_length hstr hlen
  generalize encodingOnDisk fs path encMap = enc at hb' hstr'
  cases hstat : fs.stat (diskPath path enc) with
  | some filestat =>
      refine ⟨⟨0, filestat, b', (determineMimetype path path.length).getD octetStream,
        enc.map FileextMap.val⟩, ?_, rfl, rfl, hstr', by simp, by simp⟩
      simp [determineFileMeta, hb, hstr, hb', hstr', hstat]
  | none =>
      refine ⟨⟨-1, fileMeta.filestat, b', (determineMimetype path path.length).getD octetStream,
        enc.map FileextMap.val⟩, ?_, rfl, rfl, hstr', by simp, by simp⟩
      simp [determineFileMeta, hb, hstr, hb', hstr', hstat]

/-- A request with at least one byte gets a path, cut where it is too
long. -/
theorem wsHttpConstructPathname_eq_some (base : CString) {inp : CString} (h : inp ≠ []) :
    ∃ b, wsHttpConstructPathname base inp = some b ∧
      Buffer.str b = some ((pathnameText base inp).take (pathMax - 1)) := by
  have hpos : 0 < pathMax := by decide
  obtain ⟨b, hb, hstr, hlen⟩ := Buffer.snprintf_take (b := Buffer.malloc pathMax)
    (s := pathnameText base inp) hpos (by rw [Buffer.malloc_length])
  rw [Buffer.malloc_length] at hlen
  by_cases hlong : pathMax ≤ (pathnameText base inp).length
  · obtain ⟨b', hb', hstr', -⟩ := Buffer.snprintf_take
      (b := b ++ Buffer.malloc ((pathnameText base inp).length - pathMax))
      (s := pathnameText base inp) hpos (by rw [List.length_append]; omega)
    refine ⟨b', ?_, hstr'⟩
    simp [wsHttpConstructPathname, h, hb, hlong, hb']
  · refine ⟨b, ?_, hstr⟩
    simp [wsHttpConstructPathname, h, hb, hlong]

theorem requestedFileMeta_eq_some (fs : FileSystem σ) (fileMeta : FileMeta σ)
    {wwwPath inp path : CString} (h : inp ≠ [])
    (hpath : path = (pathnameText wwwPath inp).take (pathMax - 1)) :
    ∃ fileMeta', requestedFileMeta fs fileMeta wwwPath inp = some fileMeta' ∧
      fileMeta'.mime = (determineMimetype path path.length).getD octetStream := by
  obtain ⟨b, hb, hstr⟩ := wsHttpConstructPathname_eq_some wwwPath h
  rw [← hpath] at hstr
  obtain ⟨fileMeta', hmeta, hmime, -⟩ := determineFileMeta_eq_some fs fileMeta path
  refine ⟨fileMeta', ?_, hmime⟩
  simp [requestedFileMeta, hb, hstr, hmeta]

end

/-! ### The type of a file -/

/-- The path ends in a dot and the extension, in letters of any case. -/
def HasExtension (path ext : CString) : Prop :=
  ∃ e, AfterLastDot path e ∧ lowercase e = lowercase ext

/-- The type of a path follows the whole extension: it is the type of the
entry with that extension, and where there is none, there is no type and the
file is served as a stream of bytes. -/
structure TypedByExtension (path : CString) : Prop where
  typed : ∀ val, determineMimetype path path.length = some val ↔
    ∃ m ∈ mimeMap, m.val = val ∧ HasExtension path m.ext
  untyped : determineMimetype path path.length = none ↔
    ∀ m ∈ mimeMap, ¬HasExtension path m.ext
  served : ∀ (σ : Type) (fs : FileSystem σ) (fileMeta : FileMeta σ),
    ∃ fileMeta', determineFileMeta fs fileMeta path path.length = some fileMeta' ∧
      (∀ m ∈ mimeMap, HasExtension path m.ext → fileMeta'.mime = m.val) ∧
      ((∀ m ∈ mimeMap, ¬HasExtension path m.ext) → fileMeta'.mime = octetStream)

/-- The text behind the last dot begins an extension of the table, and is
none itself. -/
def OnlyBeginsExtension (path : CString) : Prop :=
  ∃ ext, AfterLastDot path ext ∧ (∃ m ∈ mimeMap, lowercase ext <+: lowercase m.ext) ∧
    ∀ m ∈ mimeMap, lowercase ext ≠ lowercase m.ext

/-- Where one extension of the table begins another, both have one type. -/
theorem mimeMap_val_eq : ∀ m ∈ mimeMap, ∀ m' ∈ mimeMap,
    lowercase m'.ext <+: lowercase m.ext → m.val = m'.val := by decide

theorem hasExtension_iff {path e ext : CString} (h : AfterLastDot path e) :
    HasExtension path ext ↔ lowercase e = lowercase ext := by
  constructor
  · rintro ⟨e', he', hcase⟩
    rw [h.unique he']
    exact hcase
  · intro hcase
    exact ⟨e, h, hcase⟩

/-- Where the text behind the dot does not merely begin an extension, the
entry that it begins has the type of its own entry. -/
theorem typed_of_not_onlyBegins {path : CString} (h : ¬OnlyBeginsExtension path) (val : CString) :
    determineMimetype path path.length = some val ↔
      ∃ m ∈ mimeMap, m.val = val ∧ HasExtension path m.ext := by
  by_cases hdot : dot ∈ path
  · obtain ⟨ext, hext⟩ := exists_afterLastDot hdot
    simp only [hasExtension_iff hext]
    constructor
    · intro hval
      obtain ⟨m, hm, rfl, hpre⟩ := exists_of_determineMimetype hext hval
      obtain ⟨m', hm', hcase⟩ : ∃ m' ∈ mimeMap, lowercase ext = lowercase m'.ext := by
        by_contra hnone
        push Not at hnone
        exact h ⟨ext, hext, ⟨m, hm, hpre⟩, hnone⟩
      rw [hcase] at hpre
      exact ⟨m', hm', (mimeMap_val_eq m hm m' hm' hpre).symm, hcase⟩
    · rintro ⟨m', hm', rfl, hcase⟩
      have hself : lowercase ext <+: lowercase m'.ext := by rw [hcase]
      obtain ⟨val, hval⟩ := determineMimetype_isSome hext hm' hself
      obtain ⟨m, hm, rfl, hpre⟩ := exists_of_determineMimetype hext hval
      rw [hcase] at hpre
      rw [hval, mimeMap_val_eq m hm m' hm' hpre]
  · rw [determineMimetype_eq_none hdot]
    refine iff_of_false (by simp) ?_
    rintro ⟨m, -, -, e, ⟨stem, rfl, -⟩, -⟩
    exact hdot (by simp)

/-- A text that only begins an extension is given a type, without having an
entry. -/
theorem not_typed_of_onlyBegins {path : CString} (h : OnlyBeginsExtension path) :
    ∃ val, determineMimetype path path.length = some val ∧
      ∀ m ∈ mimeMap, ¬HasExtension path m.ext := by
  obtain ⟨ext, hext, ⟨m, hm, hpre⟩, hnone⟩ := h
  obtain ⟨val, hval⟩ := determineMimetype_isSome hext hm hpre
  refine ⟨val, hval, fun m hm => ?_⟩
  rw [hasExtension_iff hext]
  exact hnone m hm

/-- When the type follows the extension: exactly for the paths whose last
piece does not merely begin an extension of the table. A path that ends in a
dot is one of the others, and so is one that ends in `.h` or `.JP`; `.htm` is
not, for it is in the table, with the type of the entry that it begins. -/
theorem typedByExtension_iff (path : CString) :
    TypedByExtension path ↔ ¬OnlyBeginsExtension path := by
  constructor
  · intro h hbegins
    obtain ⟨val, hval, hnone⟩ := not_typed_of_onlyBegins hbegins
    obtain ⟨m, hm, -, hext⟩ := (h.typed val).mp hval
    exact hnone m hm hext
  · intro h
    have htyped := typed_of_not_onlyBegins h
    have huntyped : determineMimetype path path.length = none ↔
        ∀ m ∈ mimeMap, ¬HasExtension path m.ext := by
      rw [Option.eq_none_iff_forall_ne_some]
      simp only [ne_eq, htyped]
      constructor
      · intro hnone m hm hext
        exact hnone m.val ⟨m, hm, rfl, hext⟩
      · rintro hnone val ⟨m, hm, -, hext⟩
        exact hnone m hm hext
    refine ⟨htyped, huntyped, fun σ fs fileMeta => ?_⟩
    obtain ⟨fileMeta', hmeta, hmime, -⟩ := determineFileMeta_eq_some fs fileMeta path
    refine ⟨fileMeta', hmeta, fun m hm hext => ?_, fun hnone => ?_⟩
    · rw [hmime, (htyped m.val).mpr ⟨m, hm, rfl, hext⟩]
      rfl
    · rw [hmime, huntyped.mpr hnone]
      rfl

/-- The path that a request for `/notes.t` is turned into. -/
def notesPath : CString := .ofString "/www//notes.t"

theorem onlyBeginsExtension_notesPath : OnlyBeginsExtension notesPath :=
  ⟨.ofString "t", ⟨.ofString "/www//notes", by decide, by decide⟩, by decide, by decide⟩

/-- The request is answered with `text/plain`, although `t` is no extension
of the table. -/
theorem not_typedByExtension_notesPath :
    (∃ fileMeta : FileMeta Unit,
      requestedFileMeta ⟨fun _ => false, fun _ => some ()⟩ ⟨-1, (), [], [], none⟩ (.ofString "/www")
        (.ofString "/notes.t") = some fileMeta ∧ fileMeta.mime = .ofString "text/plain") ∧
    determineMimetype notesPath notesPath.length = some (.ofString "text/plain") ∧
    (∀ m ∈ mimeMap, ¬HasExtension notesPath m.ext) ∧ ¬TypedByExtension notesPath := by
  have hmime : determineMimetype notesPath notesPath.length = some (.ofString "text/plain") := by
    decide
  obtain ⟨val, hval, hnone⟩ := not_typed_of_onlyBegins onlyBeginsExtension_notesPath
  have hreq : CString.ofString "/notes.t" ≠ [] := by decide
  have hpath : notesPath =
      (pathnameText (.ofString "/www") (.ofString "/notes.t")).take (pathMax - 1) := by decide
  refine ⟨?_, hmime, hnone, fun h => ?_⟩
  · obtain ⟨fileMeta, hmeta, hserved⟩ := requestedFileMeta_eq_some
      (⟨fun _ => false, fun _ => some ()⟩ : FileSystem Unit) ⟨-1, (), [], [], none⟩
      hreq hpath
    refine ⟨fileMeta, hmeta, ?_⟩
    rw [hserved, hmime]
    rfl
  · obtain ⟨m, hm, -, hext⟩ := (h.typed val).mp hval
    exact hnone m hm hext

end Owsd.Http
