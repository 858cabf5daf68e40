import Owsd.Basis.Run
import Owsd.Basis.TextFile
import Owsd.Http.Dates
import Owsd.Http.FileMeta

/-!
Serving files over HTTP (`ws_http_serve_file`), and the caches of browsers.

With a file goes the date of its last modification. A browser that has the
file sends the date back, and is told to use what it has when the file is not
newer. The program runs in UTC, so the date that comes back is the one that
was sent (`canReplyNotmodified_echo`), and a browser that revalidates shows
the file as it is (`shows_current`).
-/

namespace Owsd.Http

/-! ### Requests and replies -/

structure Headers where
  cacheControl : Option CString
  ifModifiedSince : Option CString

/-- `lws_hdr_copy` into a buffer of 256 bytes that starts with a terminator.
What does not fit is not copied. -/
def lwsHdrCopy (header : Option CString) : CString :=
  match header with
  | none => []
  | some text => if 255 ≤ text.length then [] else text

theorem semicolon_ne : ';'.toNat % 256 ≠ 0 := by decide

def semicolon : CChar := .ofChar ';' semicolon_ne

/-- `foreach_strtoken` over the header stops at a mention of `no-cache`. -/
def noCache (header : Option CString) : Bool :=
  (wordsBy (fun c => c = comma ∨ c = semicolon ∨ c = space) (lwsHdrCopy header)).any fun cur =>
    cur = CString.ofString "no-cache" ∨ CString.ofString "no-cache=" <+: cur

/-- A file on disk: `st_mtime` of its `struct stat`, and what is in it. -/
structure File where
  mtime : Int
  content : CString

/-- `can_reply_notmodified`. What is left of the date is the time zone at
most. -/
def canReplyNotmodified (fileMeta : FileMeta File) (headers : Headers) : Bool :=
  if fileMeta.status ≠ 0 then false
  else if noCache headers.cacheControl then false
  else
    match strptime httpTimestr zeroTm (lwsHdrCopy headers.ifModifiedSince) with
    | none => false
    | some (tm, p) => if 4 < p.length then false else fileMeta.filestat.mtime ≤ timegm tm

inductive Reply where
  | redirect (target : CString)
  | notModified (enc : Option CString)
  | notFound
  | served (mime : CString) (enc : Option CString) (lastModified content : CString)

structure Paths where
  www : CString
  redirFrom : Option CString
  redirTo : CString

/-- `struct file_meta` before anything is known. -/
def noMeta : FileMeta File := ⟨-1, ⟨0, []⟩, [], [], none⟩

/-- `ws_http_serve_file`, when lws takes the headers. -/
def wsHttpServeFile (paths : Paths) (fs : FileSystem File) (inp : CString) (headers : Headers) :
    Option Reply := do
  let fileMeta ← requestedFileMeta fs noMeta paths.www inp
  if paths.redirFrom = some inp then return .redirect paths.redirTo
  else if canReplyNotmodified fileMeta headers then return .notModified fileMeta.enc
  else if fileMeta.status ≠ 0 then return .notFound
  else
    let lastModified := strftime httpTimestr (gmtime fileMeta.filestat.mtime)
    return .served fileMeta.mime fileMeta.enc lastModified fileMeta.filestat.content

/-! ### What is there -/

/-- The file that a request is answered with, if there is one: the first that
is there of the encoded ones, and else the one that is named. -/
def fileAt (paths : Paths) (fs : FileSystem File) (inp : CString) : Option File :=
  let path := (pathnameText paths.www inp).take (pathMax - 1)
  fs.stat (diskPath path (encodingOnDisk fs path encMap))

section
variable {paths : Paths} {fs : FileSystem File} {inp : CString} {headers : Headers}

theorem lwsHdrCopy_strftime {tm : Tm} (h : Printable tm) :
    lwsHdrCopy (some (strftime httpTimestr tm)) = strftime httpTimestr tm := by
  have hwday : (abbreviation weekdayNames tm.wday).length ≤ 3 := List.length_take_le 3 _
  have hmon : (abbreviation monthNames tm.mon).length ≤ 3 := List.length_take_le 3 _
  have hgmt : (CString.ofString "GMT").length = 3 := rfl
  rw [lwsHdrCopy, if_neg]
  rw [strftime_eq h]
  simp only [List.length_append, List.length_cons, padded_length, hgmt]
  omega

theorem canReplyNotmodified_echo {fileMeta : FileMeta File} {t : Int} (ht : Datable t)
    (hecho : headers.ifModifiedSince = some (strftime httpTimestr (gmtime t))) :
    canReplyNotmodified fileMeta headers = true ↔
      fileMeta.status = 0 ∧ noCache headers.cacheControl = false ∧ fileMeta.filestat.mtime ≤ t := by
  have hprintable := printable_gmtime ht
  rw [canReplyNotmodified, hecho, lwsHdrCopy_strftime hprintable, strptime_strftime hprintable]
  simp [timegm_gmtime]

theorem canReplyNotmodified_undated {fileMeta : FileMeta File}
    (h : headers.ifModifiedSince = none) : canReplyNotmodified fileMeta headers = false := by
  have hread : strptime httpTimestr zeroTm (lwsHdrCopy none) = none := rfl
  rw [canReplyNotmodified, h, hread]
  split
  · rfl
  · split <;> rfl

theorem exists_fileMeta (hinp : inp ≠ []) (fs : FileSystem File) :
    ∃ fileMeta, requestedFileMeta fs noMeta paths.www inp = some fileMeta ∧
      (fileMeta.status = 0 ↔ (fileAt paths fs inp).isSome) ∧
      fileMeta.filestat = (fileAt paths fs inp).getD noMeta.filestat := by
  obtain ⟨b, hb, hstr⟩ := wsHttpConstructPathname_eq_some paths.www hinp
  obtain ⟨fileMeta, hmeta, -, -, -, hstatus, hfilestat⟩ := determineFileMeta_eq_some fs noMeta
    ((pathnameText paths.www inp).take (pathMax - 1))
  refine ⟨fileMeta, ?_, hstatus, hfilestat⟩
  simp only [requestedFileMeta, hb, hstr, hmeta, Option.bind_eq_bind, Option.bind_some]

theorem wsHttpServeFile_cases (hinp : inp ≠ []) (hredir : paths.redirFrom ≠ some inp)
    (fs : FileSystem File) (headers : Headers) :
    (fileAt paths fs inp = none ∧ wsHttpServeFile paths fs inp headers = some .notFound) ∨
    ∃ fileMeta : FileMeta File, fileMeta.status = 0 ∧
      fileAt paths fs inp = some fileMeta.filestat ∧
      wsHttpServeFile paths fs inp headers =
        some (if canReplyNotmodified fileMeta headers then .notModified fileMeta.enc
          else .served fileMeta.mime fileMeta.enc
            (strftime httpTimestr (gmtime fileMeta.filestat.mtime)) fileMeta.filestat.content) := by
  obtain ⟨fileMeta, hmeta, hstatus, hfilestat⟩ := @exists_fileMeta paths inp hinp fs
  cases hfile : fileAt paths fs inp with
  | none =>
      have hne : fileMeta.status ≠ 0 := by simp [hstatus, hfile]
      have hnot : canReplyNotmodified fileMeta headers = false := by
        rw [canReplyNotmodified, if_pos hne]
      refine .inl ⟨rfl, ?_⟩
      simp only [wsHttpServeFile, hmeta, Option.bind_eq_bind, Option.bind_some, if_neg hredir, hnot,
        if_pos hne]
      rfl
  | some f =>
      have hzero : fileMeta.status = 0 := by simp [hstatus, hfile]
      have hsame : fileMeta.filestat = f := by simp [hfilestat, hfile]
      refine .inr ⟨fileMeta, hzero, congrArg some hsame.symm, ?_⟩
      simp only [wsHttpServeFile, hmeta, Option.bind_eq_bind, Option.bind_some, if_neg hredir,
        if_neg (not_not.mpr hzero)]
      split <;> rfl

theorem fileAt_of_served (hinp : inp ≠ []) (hredir : paths.redirFrom ≠ some inp)
    {mime lastModified content : CString} {enc : Option CString}
    (h : wsHttpServeFile paths fs inp headers = some (.served mime enc lastModified content)) :
    ∃ f, fileAt paths fs inp = some f ∧ lastModified = strftime httpTimestr (gmtime f.mtime) ∧
      content = f.content := by
  rcases wsHttpServeFile_cases hinp hredir fs headers with ⟨-, heq⟩ | ⟨fileMeta, -, hfile, heq⟩
  · rw [heq] at h
    cases h
  · rw [heq] at h
    split at h <;> cases h
    exact ⟨_, hfile, rfl, rfl⟩

end

/-- A date that is sent back tells whether the file was modified. Let a file
be served with its date, and let a later request carry that date. Then the
client is told to use what it has exactly when it did not forbid this, and the
file that is there by then is not newer, in whole seconds. -/
theorem notModified_iff {paths : Paths} {fs fs' : FileSystem File} {inp : CString}
    {headers headers' : Headers} {mime lastModified content : CString} {enc : Option CString}
    (hinp : inp ≠ []) (hredir : paths.redirFrom ≠ some inp)
    (hdate : ∀ f, fileAt paths fs inp = some f → Datable f.mtime)
    (hserved : wsHttpServeFile paths fs inp headers =
      some (.served mime enc lastModified content))
    (hecho : headers'.ifModifiedSince = some lastModified) :
    (∃ enc', wsHttpServeFile paths fs' inp headers' = some (.notModified enc')) ↔
      noCache headers'.cacheControl = false ∧ ∃ f f', fileAt paths fs inp = some f ∧
        fileAt paths fs' inp = some f' ∧ f'.mtime ≤ f.mtime := by
  obtain ⟨f, hfile, rfl, -⟩ := fileAt_of_served hinp hredir hserved
  rcases wsHttpServeFile_cases hinp hredir fs' headers' with
    ⟨hnone, heq⟩ | ⟨fileMeta, hstatus, hfile', heq⟩
  · rw [heq]
    constructor
    · rintro ⟨enc', h⟩
      cases h
    · rintro ⟨-, f₁, f', -, hf', -⟩
      rw [hnone] at hf'
      cases hf'
  · have hcan := @canReplyNotmodified_echo headers' fileMeta f.mtime (hdate f hfile) hecho
    rw [heq]
    constructor
    · rintro ⟨enc', h⟩
      split at h
      · next hreply =>
        obtain ⟨-, hcache, hle⟩ := hcan.mp hreply
        exact ⟨hcache, f, fileMeta.filestat, hfile, hfile', hle⟩
      · cases h
    · rintro ⟨hcache, f₁, f', hf, hf', hle⟩
      cases hfile.symm.trans hf
      cases hfile'.symm.trans hf'
      rw [if_pos (hcan.mpr ⟨hstatus, hcache, hle⟩)]
      exact ⟨_, rfl⟩

def onlyFile (f : File) : FileSystem File := ⟨fun _ => false, fun _ => some f⟩

theorem notModified_iff_unchanged :
    let paths : Paths := ⟨.ofString "/www", none, []⟩
    let fs := onlyFile ⟨784111777, .ofString "hello"⟩
    ∃ mime enc lastModified content,
      wsHttpServeFile paths fs (.ofString "/a.txt") ⟨none, none⟩ =
        some (.served mime enc lastModified content) ∧
      lastModified = .ofString "Sun, 06 Nov 1994 08:49:37 GMT" ∧
      ∃ enc', wsHttpServeFile paths fs (.ofString "/a.txt") ⟨none, some lastModified⟩ =
        some (.notModified enc') := by
  intro paths fs
  have hinp : CString.ofString "/a.txt" ≠ [] := by decide
  have hredir : paths.redirFrom ≠ some (.ofString "/a.txt") := by simp [paths]
  have hfile : fileAt paths fs (.ofString "/a.txt") = some ⟨784111777, .ofString "hello"⟩ := rfl
  rcases wsHttpServeFile_cases hinp hredir fs ⟨none, none⟩ with ⟨hnone, -⟩ | ⟨fileMeta, -, hf, heq⟩
  · rw [hfile] at hnone
    cases hnone
  · have hsame := Option.some.inj (hf.symm.trans hfile)
    rw [canReplyNotmodified_undated rfl, if_neg Bool.false_ne_true] at heq
    refine ⟨_, _, _, _, heq, by rw [hsame]; decide, ?_⟩
    refine (notModified_iff hinp hredir (fun f hf => ?_) heq rfl).mpr
      ⟨rfl, _, _, hfile, hfile, le_refl _⟩
    cases hfile.symm.trans hf
    exact ⟨by decide, by decide⟩

/-! ### Browsers -/

/-- A page that a browser shows: the file it has with the date it came with,
and what it shows. The files that were there so far are recorded. -/
structure Page where
  disk : FileSystem File
  seen : List File
  cache : Option (CString × CString)
  shown : Option CString

inductive PageEvent where
  /-- The disk is written to. -/
  | write (fs : FileSystem File)
  /-- The page is requested, with what the browser has to be revalidated. -/
  | get (cacheControl : Option CString)

section
variable (paths : Paths) (inp : CString)

def Page.take (page : Page) : Reply → Page
  | .served _ _ lastModified content =>
      { page with cache := some (lastModified, content), shown := some content }
  | .notModified _ => { page with shown := page.cache.map Prod.snd }
  | .notFound => { page with cache := none, shown := none }
  | .redirect _ => { page with shown := none }

theorem Page.take_seen (page : Page) (reply : Reply) : (page.take reply).seen = page.seen := by
  cases reply <;> rfl

/-- One event. A request that cannot be served ends the run. -/
def Page.step (page : Page) : PageEvent → Except Unit Page
  | .write fs => .ok { page with disk := fs, seen := (fileAt paths fs inp).toList ++ page.seen }
  | .get cacheControl =>
      match wsHttpServeFile paths page.disk inp ⟨cacheControl, page.cache.map Prod.fst⟩ with
      | none => .error ()
      | some reply => .ok (page.take reply)

/-- A file that is not the one before is newer than all there were. -/
def Newer (page : Page) : PageEvent → Prop
  | .write fs => ∀ f, fileAt paths fs inp = some f →
      Datable f.mtime ∧ (fileAt paths page.disk inp = some f ∨ ∀ f' ∈ page.seen, f'.mtime < f.mtime)
  | .get _ => True

/-- The browser has what was once there, and what is there now is the same or
newer. -/
structure Cached (page : Page) : Prop where
  seen : ∀ f, fileAt paths page.disk inp = some f → f ∈ page.seen ∧ Datable f.mtime
  cache : ∀ date content, page.cache = some (date, content) →
    ∃ f ∈ page.seen, Datable f.mtime ∧ date = strftime httpTimestr (gmtime f.mtime) ∧
      content = f.content ∧
      ∀ f', fileAt paths page.disk inp = some f' → f' = f ∨ f.mtime < f'.mtime

end

section
variable {paths : Paths} {inp : CString} {page page' : Page}

theorem cached_write {fs : FileSystem File} (h : Cached paths inp page)
    (hnew : Newer paths inp page (.write fs)) :
    Cached paths inp
      { page with disk := fs, seen := (fileAt paths fs inp).toList ++ page.seen } := by
  refine ⟨fun f hf => ⟨?_, (hnew f hf).1⟩, fun date content hcache => ?_⟩
  · have hf : fileAt paths fs inp = some f := hf
    simp [hf]
  · obtain ⟨f, hmem, hdate, rfl, rfl, hlater⟩ := h.cache date content hcache
    refine ⟨f, List.mem_append_right _ hmem, hdate, rfl, rfl, fun f' hf' => ?_⟩
    rcases (hnew f' hf').2 with hsame | hnewer
    · exact hlater f' hsame
    · exact .inr (hnewer f hmem)

theorem cached_get (hinp : inp ≠ []) (hredir : paths.redirFrom ≠ some inp)
    (h : Cached paths inp page) (cacheControl : Option CString)
    (hstep : page.step paths inp (.get cacheControl) = .ok page') :
    Cached paths inp page' ∧ page'.shown = (fileAt paths page'.disk inp).map File.content := by
  rcases wsHttpServeFile_cases hinp hredir page.disk
    ⟨cacheControl, page.cache.map Prod.fst⟩ with ⟨hnone, heq⟩ | ⟨fileMeta, hstatus, hfile, heq⟩
  · simp only [Page.step, heq] at hstep
    cases hstep
    refine ⟨⟨h.seen, fun date content hcache => ?_⟩, ?_⟩
    · cases hcache
    · show none = (fileAt paths page.disk inp).map File.content
      rw [hnone]
      rfl
  · simp only [Page.step, heq] at hstep
    cases hstep
    split
    · next hreply =>
      refine ⟨⟨h.seen, h.cache⟩, ?_⟩
      cases hcache : page.cache with
      | none =>
          have hundated : canReplyNotmodified fileMeta ⟨cacheControl, page.cache.map Prod.fst⟩ =
              false := canReplyNotmodified_undated (by simp [hcache])
          rw [hundated] at hreply
          cases hreply
      | some entry =>
          obtain ⟨f, -, hdate, hsent, hcontent, hlater⟩ := h.cache entry.1 entry.2 hcache
          have hcan := (canReplyNotmodified_echo hdate (by simp [hcache, hsent])).mp hreply
          -- The file is not newer, so it is the one the browser has.
          have hsame : fileMeta.filestat = f := by
            rcases hlater _ hfile with hsame | hlt
            · exact hsame
            · exact absurd hcan.2.2 (by omega)
          show page.cache.map Prod.snd = (fileAt paths page.disk inp).map File.content
          rw [hcache, hfile, hsame, Option.map_some, Option.map_some, hcontent]
    · refine ⟨⟨h.seen, fun date content hcache => ?_⟩, ?_⟩
      · cases hcache
        obtain ⟨hmem, hdate⟩ := h.seen _ hfile
        refine ⟨fileMeta.filestat, hmem, hdate, rfl, rfl, fun f' hf' => ?_⟩
        exact .inl (Option.some.inj (hf'.symm.trans hfile))
      · show some _ = (fileAt paths page.disk inp).map File.content
        rw [hfile]
        rfl

theorem step_ok (hinp : inp ≠ []) (hredir : paths.redirFrom ≠ some inp) (page : Page)
    (e : PageEvent) : ∃ page', page.step paths inp e = .ok page' := by
  cases e with
  | write fs => exact ⟨_, rfl⟩
  | get cacheControl =>
      rcases wsHttpServeFile_cases hinp hredir page.disk
        ⟨cacheControl, page.cache.map Prod.fst⟩ with ⟨-, heq⟩ | ⟨fileMeta, -, -, heq⟩
      · exact ⟨_, by simp only [Page.step, heq]; rfl⟩
      · exact ⟨_, by simp only [Page.step, heq]; rfl⟩

end

def Page.fresh (paths : Paths) (inp : CString) (fs : FileSystem File) : Page :=
  ⟨fs, (fileAt paths fs inp).toList, none, none⟩

/-- A browser that revalidates shows the file as it is. Whatever is written to
the disk and whenever the page is requested, with any wish about caches, every
request is served and after it the page shows what is in the file at that
time, or nothing if there is none; as long as a file that takes the place of
another one is newer by a second. -/
theorem shows_current {paths : Paths} {inp : CString} (hinp : inp ≠ [])
    (hredir : paths.redirFrom ≠ some inp) {fs : FileSystem File}
    (hdate : ∀ f, fileAt paths fs inp = some f → Datable f.mtime) {es : List PageEvent}
    (hg : Guarded (Page.step paths inp) (Newer paths inp) (.fresh paths inp fs) es)
    (cacheControl : Option CString) :
    ∃ page, run (Page.step paths inp) (.fresh paths inp fs) (es ++ [.get cacheControl]) =
      .ok page ∧ page.shown = (fileAt paths page.disk inp).map File.content := by
  have hstart : Cached paths inp (.fresh paths inp fs) := by
    refine ⟨fun f hf => ⟨?_, hdate f hf⟩, fun date content hcache => ?_⟩
    · have hf : fileAt paths fs inp = some f := hf
      simp [Page.fresh, hf]
    · cases hcache
  obtain ⟨page, hrun, hcached⟩ : ∃ page, run (Page.step paths inp) (.fresh paths inp fs) es =
      .ok page ∧ Cached paths inp page := by
    cases hrun : run (Page.step paths inp) (.fresh paths inp fs) es with
    | ok page =>
        refine ⟨page, rfl, run_invariant (Cached paths inp) ?_ hstart hg hrun⟩
        intro page e page' hcached hnew hstep
        cases e with
        | write fs =>
            cases hstep
            exact cached_write hcached hnew
        | get cacheControl => exact (cached_get hinp hredir hcached cacheControl hstep).1
    | error f =>
        obtain ⟨-, e, -, page, -, -, -, -, hfault⟩ := run_error hg hrun
        obtain ⟨page', hstep⟩ := step_ok hinp hredir page e
        rw [hstep] at hfault
        cases hfault
  obtain ⟨page', hstep⟩ := step_ok hinp hredir page (.get cacheControl)
  refine ⟨page', ?_, (cached_get hinp hredir hcached cacheControl hstep).2⟩
  rw [run_append hrun, run_cons hstep]
  rfl

/-- A file is requested, replaced a second later, and requested again. -/
theorem shows_current_replaced :
    let paths : Paths := ⟨.ofString "/www", none, []⟩
    let es : List PageEvent := [.get none, .write (onlyFile ⟨784111778, .ofString "world"⟩)]
    ∃ page, run (Page.step paths (.ofString "/a.txt"))
        (.fresh paths (.ofString "/a.txt") (onlyFile ⟨784111777, .ofString "hello"⟩))
        (es ++ [.get none]) = .ok page ∧
      page.shown = (fileAt paths page.disk (.ofString "/a.txt")).map File.content := by
  intro paths es
  have hredir : paths.redirFrom ≠ some (.ofString "/a.txt") := by simp [paths]
  have hg : Guarded (Page.step paths (.ofString "/a.txt")) (Newer paths (.ofString "/a.txt"))
      (.fresh paths (.ofString "/a.txt") (onlyFile ⟨784111777, .ofString "hello"⟩)) es := by
    refine ⟨trivial, fun page hstep => ⟨fun f hf => ?_, fun _ _ => trivial⟩⟩
    cases hf
    refine ⟨⟨by decide, by decide⟩, .inr fun f' hf' => ?_⟩
    simp only [Page.step] at hstep
    split at hstep
    · cases hstep
    · cases hstep
      rw [Page.take_seen] at hf'
      rw [List.mem_singleton.mp hf']
      decide
  refine shows_current (by decide) hredir (fun f hf => ?_) hg none
  cases hf
  exact ⟨by decide, by decide⟩

end Owsd.Http
