import Owsd.Config.Addresses

/-!
The virtual hosts of an address, and which web pages may connect there.

For every address lws gets a vhost called `default` and one for each origin
that is allowed there, called after the origin. Which of them serves a
connection depends on the name that the client asks for. All of them carry a
copy of what is set up for the address, so it does not matter for what is
checked (`vhosts_serve`).
-/

namespace Owsd.Config

/-- What `lws_create_vhost` is asked for. -/
structure Vhost where
  vhostName : CString
  vh : Vhinfo

/-- `contains_substring`: the length of `b` if `a` starts with it. -/
def containsSubstring (a b : CString) : ℕ := if strncmp a b b.length = 0 then b.length else 0

/-- `create_vhost`: the name is used without the scheme of a URL. -/
def createVhost (vh : Vhinfo) (name : CString) : Vhost :=
  let offset := containsSubstring name (.ofString "http://") |||
    containsSubstring name (.ofString "https://")
  ⟨name.drop offset, vh⟩

def copyStrList (strs : List CString) : List CString :=
  strs.foldl (fun copy str => copy ++ [str]) []

/-- `copy_vhinfo_list`. -/
def copyVhinfo (orig : Vhinfo) : Vhinfo :=
  { orig with
    name := orig.name
    restrictOrigins := orig.restrictOrigins
    users := copyStrList orig.users
    origins := copyStrList orig.origins }

/-- Clients are asked for a certificate when there is one to trust. -/
def Vhinfo.askPeerCert (v : Vhinfo) : Vhinfo :=
  if v.sslCaFilepath.isSome then
    { v with
      options := { v.options with
        peerCertNotRequired := true, requireValidOpensslClientCert := true } }
  else v

def vhostsOf (c : Vhinfo) : List Vhost :=
  let c := c.askPeerCert
  createVhost c (.ofString "default") ::
    c.origins.map fun origin => createVhost (copyVhinfo c) origin

/-- The loop that creates all vhosts, in the order in which lws is asked for
them. -/
def createVhosts (currvh : List Vhinfo) : List Vhost := currvh.flatMap vhostsOf

section
variable (fnmatch : CString → CString → Bool)

/-- `origin_allowed`: a pattern of the list matches, without regard to case. -/
def originAllowed (originList : List CString) (origin : CString) : Bool :=
  originList.any fun str => fnmatch str origin

/-- `wsubus_filter` for a connection on the vhost, with the length of the
header and what `lws_hdr_copy` returned for it. Requests without an origin
come from no web page. -/
def wsubusFilter (vc : Vhinfo) (origin : CString) (copied : Int) : Int :=
  if origin.length = 0 then 0
  else if copied < 0 then -3
  else if vc.restrictOrigins && !originAllowed fnmatch vc.origins origin then -5
  else 0

end

/-! ### What a vhost serves -/

/-- The vhost serves what is described: connections of the same web pages and
users, under the same certificates. -/
structure Serves (d : Address) (vhost : Vhost) : Prop where
  port : vhost.vh.port = d.port
  iface : vhost.vh.iface = d.last Opt.iface
  name : vhost.vh.name = d.name
  users : ∀ user, user ∈ vhost.vh.users ↔ .u user ∈ d.own
  paths : vhost.vh.sslCertFilepath = d.last Opt.cert ∧
    vhost.vh.sslPrivateKeyFilepath = d.last Opt.key ∧ vhost.vh.sslCaFilepath = d.last Opt.ca
  /-- Certificates of clients are checked when there is a CA for them. -/
  peerCert : vhost.vh.options.requireValidOpensslClientCert = true ↔ ∃ ca, .a ca ∈ d.own
  /-- A web page gets through when origins are not restricted, or when it
  matches one of those allowed. -/
  admits : ∀ fnmatch origin copied, wsubusFilter fnmatch vhost.vh origin copied = 0 ↔
    origin = [] ∨ 0 ≤ copied ∧ (.O ∈ d.own ∨
      ∃ pattern, .o pattern ∈ d.own ∧ fnmatch pattern origin = true)

theorem copyStrList_eq (strs : List CString) : copyStrList strs = strs := by
  have hfrom : ∀ copy, strs.foldl (fun copy str => copy ++ [str]) copy = copy ++ strs := by
    induction strs with
    | nil => simp
    | cons str strs ih => simp [ih]
  simpa [copyStrList] using hfrom []

theorem copyVhinfo_eq (v : Vhinfo) : copyVhinfo v = v := by
  simp [copyVhinfo, copyStrList_eq]

theorem wsubusFilter_eq_zero {fnmatch : CString → CString → Bool} {vc : Vhinfo} {origin : CString}
    {copied : Int} :
    wsubusFilter fnmatch vc origin copied = 0 ↔ origin = [] ∨ 0 ≤ copied ∧
      (vc.restrictOrigins = false ∨ ∃ pattern ∈ vc.origins, fnmatch pattern origin = true) := by
  simp only [wsubusFilter, List.length_eq_zero_iff]
  split
  · next hempty => simp [hempty]
  · next hempty =>
    split
    · next hcopied => simp [hempty, Int.not_le.mpr hcopied]
    · next hcopied =>
      have hcopied : 0 ≤ copied := Int.not_lt.mp hcopied
      cases hrestrict : vc.restrictOrigins <;>
        cases hallowed : originAllowed fnmatch vc.origins origin <;>
        simp_all [originAllowed]

theorem mem_arguments {arg : Opt → Option CString} {make : CString → Opt}
    (h : ∀ opt x, arg opt = some x ↔ opt = make x) {own : List Opt} {x : CString} :
    x ∈ own.filterMap arg ↔ make x ∈ own := by
  simp [List.mem_filterMap, h]

theorem origin_eq_some (opt : Opt) (x : CString) : opt.origin = some x ↔ opt = .o x := by
  cases opt <;> simp

theorem user_eq_some (opt : Opt) (x : CString) : opt.user = some x ↔ opt = .u x := by
  cases opt <;> simp

theorem ca_eq_some (opt : Opt) (x : CString) : opt.ca = some x ↔ opt = .a x := by
  cases opt <;> simp

theorem exists_ca (d : Address) : (d.last Opt.ca).isSome = true ↔ ∃ ca, .a ca ∈ d.own := by
  rw [Address.last, List.getLast?_isSome]
  constructor
  · intro hne
    obtain ⟨ca, hca⟩ := List.exists_mem_of_ne_nil _ hne
    exact ⟨ca, (mem_arguments ca_eq_some).mp hca⟩
  · rintro ⟨ca, hca⟩
    exact List.ne_nil_of_mem ((mem_arguments ca_eq_some).mpr hca)

theorem restrictOrigins_eq_false (d : Address) :
    d.vhinfo.restrictOrigins = false ↔ .O ∈ d.own := by
  simp only [Address.vhinfo, Bool.not_eq_false', List.any_eq_true]
  constructor
  · rintro ⟨opt, hmem, hopt⟩
    cases opt <;> cases hopt
    exact hmem
  · exact fun hmem => ⟨_, hmem, rfl⟩

theorem askPeerCert_eq (d : Address) :
    ∃ options, d.vhinfo.askPeerCert = { d.vhinfo with options := options } ∧
      options.requireValidOpensslClientCert = (d.last Opt.ca).isSome := by
  have hca : d.vhinfo.sslCaFilepath = d.last Opt.ca := rfl
  rw [Vhinfo.askPeerCert, hca]
  split
  · next hsome => exact ⟨_, rfl, hsome.symm⟩
  · next hnone => exact ⟨_, rfl, (Bool.eq_false_iff.mpr hnone).symm⟩

theorem serves_askPeerCert (d : Address) (name : CString) :
    Serves d (createVhost d.vhinfo.askPeerCert name) := by
  obtain ⟨options, heq, hrequire⟩ := askPeerCert_eq d
  rw [heq]
  exact {
    port := rfl
    iface := rfl
    name := rfl
    users := fun user => mem_arguments user_eq_some
    paths := ⟨rfl, rfl, rfl⟩
    peerCert := by
      rw [← exists_ca, ← hrequire]
      rfl
    admits := by
      intro fnmatch origin copied
      have horigins : ∀ pattern, pattern ∈ d.vhinfo.origins ↔ .o pattern ∈ d.own :=
        fun pattern => mem_arguments origin_eq_some
      rw [wsubusFilter_eq_zero, ← restrictOrigins_eq_false]
      simp only [createVhost, horigins] }

theorem serves_of_mem {d : Address} {vhost : Vhost} (h : vhost ∈ vhostsOf d.vhinfo) :
    Serves d vhost := by
  rcases List.mem_cons.mp h with rfl | h
  · exact serves_askPeerCert d _
  · obtain ⟨origin, -, rfl⟩ := List.mem_map.mp h
    rw [copyVhinfo_eq]
    exact serves_askPeerCert d origin

theorem containsSubstring_append (scheme host : CString) :
    containsSubstring (scheme ++ host) scheme = scheme.length := by
  have hzero : strncmp (scheme ++ host) scheme scheme.length = 0 := by
    simp [strncmp_eq_strcmp_take]
  rw [containsSubstring, if_pos hzero]

theorem createVhost_http (v : Vhinfo) (host : CString) :
    (createVhost v (.ofString "http://" ++ host)).vhostName = host := by
  have hdiffer : strncmp (.ofString "http://" ++ host) (.ofString "https://") 8 = -57 := rfl
  have hhttps : containsSubstring (.ofString "http://" ++ host) (.ofString "https://") = 0 :=
    if_neg fun h => absurd (hdiffer.symm.trans h) (by decide)
  simp only [createVhost, containsSubstring_append, hhttps, Nat.or_zero]
  exact List.drop_left

theorem createVhost_https (v : Vhinfo) (host : CString) :
    (createVhost v (.ofString "https://" ++ host)).vhostName = host := by
  have hdiffer : strncmp (.ofString "https://" ++ host) (.ofString "http://") 7 = 57 := rfl
  have hhttp : containsSubstring (.ofString "https://" ++ host) (.ofString "http://") = 0 :=
    if_neg fun h => absurd (hdiffer.symm.trans h) (by decide)
  simp only [createVhost, containsSubstring_append, hhttp, Nat.zero_or]
  exact List.drop_left

/-- Every vhost of an address checks the same. After any accepted command
line, each vhost that lws is asked for serves one of the addresses described
there: it lets in the web pages that the address allows, has its list of
users, its label and its certificates. Every address has a vhost for any name
a client may ask for and one for the host of each of its origins. -/
theorem vhosts_serve {env : Env} {opts : List Opt} {st : Setup}
    (h : takeOpts env defaults opts = .ok st) :
    (∀ vhost ∈ createVhosts st.currvh,
      ∃ d ∈ addresses (opts.flatMap (Opt.expand env)), Serves d vhost) ∧
    ∀ d ∈ addresses (opts.flatMap (Opt.expand env)),
      (∃ vhost ∈ createVhosts st.currvh, vhost.vhostName = .ofString "default" ∧ Serves d vhost) ∧
      ∀ host, .o (.ofString "http://" ++ host) ∈ d.own ∨ .o (.ofString "https://" ++ host) ∈ d.own →
        ∃ vhost ∈ createVhosts st.currvh, vhost.vhostName = host ∧ Serves d vhost := by
  obtain ⟨hcurr, -⟩ := takeOpts_described h
  rw [hcurr, createVhosts, List.flatMap_map]
  refine ⟨?_, fun d hd => ⟨?_, ?_⟩⟩
  · intro vhost hmem
    obtain ⟨d, hd, hmem⟩ := List.mem_flatMap.mp hmem
    exact ⟨d, hd, serves_of_mem hmem⟩
  · have hmem : createVhost d.vhinfo.askPeerCert (.ofString "default") ∈ vhostsOf d.vhinfo :=
      List.mem_cons_self
    exact ⟨_, List.mem_flatMap.mpr ⟨d, hd, hmem⟩, rfl, serves_of_mem hmem⟩
  · have horigin : ∀ origin, .o origin ∈ d.own →
        createVhost d.vhinfo.askPeerCert origin ∈ vhostsOf d.vhinfo := by
      intro origin hown
      obtain ⟨options, heq, -⟩ := askPeerCert_eq d
      refine List.mem_cons_of_mem _ (List.mem_map.mpr ⟨origin, ?_, by rw [copyVhinfo_eq]⟩)
      rw [heq]
      exact (mem_arguments origin_eq_some).mpr hown
    rintro host (hown | hown)
    · have hmem := horigin _ hown
      exact ⟨_, List.mem_flatMap.mpr ⟨d, hd, hmem⟩, createVhost_http _ host, serves_of_mem hmem⟩
    · have hmem := horigin _ hown
      exact ⟨_, List.mem_flatMap.mpr ⟨d, hd, hmem⟩, createVhost_https _ host, serves_of_mem hmem⟩

/-- A port for two interfaces, where only the first one allows a web page. -/
def twoInterfaces : List Opt :=
  [.p (.ofString "80"), .i (.ofString "lan"), .o (.ofString "http://router"),
    .i (.ofString "guest"), .u (.ofString "user")]

theorem vhosts_serve_twoInterfaces :
    let env : Env := ⟨fun _ => [], fun _ => none⟩
    ∃ st, takeOpts env defaults twoInterfaces = .ok st ∧ (createVhosts st.currvh).length = 3 ∧
      ∀ vhost ∈ createVhosts st.currvh, ∃ d ∈ addresses twoInterfaces, Serves d vhost := by
  refine ⟨_, rfl, rfl, ?_⟩
  exact (@vhosts_serve ⟨fun _ => [], fun _ => none⟩ twoInterfaces _ rfl).1

end Owsd.Config
