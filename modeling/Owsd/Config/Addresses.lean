import Owsd.Config.Expansion

/-!
Which addresses the daemon listens on.

An address is described by the port that opened it and by the options that
are its own: those that follow until the next address is opened. What the
loop over the options makes of it, one change after the other, can be read
off that description (`Address.vhinfo`): the origins and the users in the
order in which they were given, the last of several names or paths, and as
much of IPv6 as there were options for.
-/

namespace Owsd.Config

namespace Opt

/-- The option is about the last address opened. -/
@[simp] def isOwn : Opt → Bool
  | i _ | o _ | O | u _ | L _ | six | c _ | k _ | a _ => true
  | _ => false

@[simp] def iface : Opt → Option CString
  | i arg => some arg
  | _ => none

@[simp] def origin : Opt → Option CString
  | o arg => some arg
  | _ => none

@[simp] def user : Opt → Option CString
  | u arg => some arg
  | _ => none

@[simp] def label : Opt → Option CString
  | L arg => some arg
  | _ => none

@[simp] def cert : Opt → Option CString
  | c arg => some arg
  | _ => none

@[simp] def key : Opt → Option CString
  | k arg => some arg
  | _ => none

@[simp] def ca : Opt → Option CString
  | a arg => some arg
  | _ => none

@[simp] def isSix : Opt → Bool
  | six => true
  | _ => false

@[simp] def isAnyOrigin : Opt → Bool
  | O => true
  | _ => false

@[simp] def isSsl : Opt → Bool
  | c _ | k _ | a _ => true
  | _ => false

end Opt

/-- A listening address: its port, the name it starts with, and the options
that are its own. -/
structure Address where
  port : Int
  label : CString
  own : List Opt

namespace Address

def last (d : Address) (arg : Opt → Option CString) : Option CString :=
  (d.own.filterMap arg).getLast?

def name (d : Address) : CString := (d.last Opt.label).getD d.label

/-- How often `-6` was given. -/
def sixes (d : Address) : ℕ := d.own.countP Opt.isSix

def vhinfo (d : Address) : Vhinfo where
  port := d.port
  iface := d.last Opt.iface
  sslCertFilepath := d.last Opt.cert
  sslPrivateKeyFilepath := d.last Opt.key
  sslCaFilepath := d.last Opt.ca
  options :=
    { disableIpv6 := d.sixes = 0
      ipv6V6onlyModify := 2 ≤ d.sixes
      ipv6V6onlyValue := 2 ≤ d.sixes
      doSslGlobalInit := d.own.any Opt.isSsl
      peerCertNotRequired := false
      requireValidOpensslClientCert := false }
  origins := d.own.filterMap Opt.origin
  users := d.own.filterMap Opt.user
  name := d.name
  restrictOrigins := !d.own.any Opt.isAnyOrigin

def add (d : Address) (opt : Opt) : Address := { d with own := d.own ++ [opt] }

end Address

/-- The addresses when one more option is given, the last one first. A port
opens one, and so does an interface for an address that has one, with the
port and the name of that address. -/
def place (ds : List Address) : Opt → List Address
  | .p arg => ⟨asInt (strtol arg).1, arg, []⟩ :: ds
  | .i arg =>
      match ds with
      | [] => []
      | d :: ds =>
          if (d.last Opt.iface).isSome then ⟨d.port, d.name, [.i arg]⟩ :: d :: ds
          else d.add (.i arg) :: ds
  | opt => if opt.isOwn then ds.modifyHead fun d => d.add opt else ds

def addresses (opts : List Opt) : List Address := opts.foldl place []

/-- The option is well formed: a number that is a number, a pair with a colon,
a URL with the right protocol. -/
def Opt.Valid (env : Env) : Opt → Prop
  | .t arg | .p arg => (strtol arg).2 = []
  | .r arg | .m arg => (cutPair arg).isSome = true
  | .P arg => (peerOf env arg).isSome = true
  | .f obj => Readable obj
  | .unknown => False
  | _ => True

/-- Every option about an address comes after the address was opened. -/
def Headed (opts : List Opt) : Prop :=
  ∀ before opt after, opts = before ++ opt :: after → opt.isOwn = true → addresses before ≠ []

section
variable {env : Env} {st st' : Setup} {opt : Opt} {ds : List Address}

theorem Address.last_add (d : Address) (opt : Opt) (arg : Opt → Option CString) :
    (d.add opt).last arg = (arg opt).or (d.last arg) := by
  cases h : arg opt with
  | none => simp [last, add, List.filterMap_append, h]
  | some x => simp [last, add, List.filterMap_append, h]

theorem Address.sixes_add (d : Address) (opt : Opt) :
    (d.add opt).sixes = d.sixes + if opt.isSix then 1 else 0 := by
  simp [sixes, add, List.countP_append, List.countP_cons]

/-- An option changes what is described as it changes the address. -/
theorem Address.vhinfo_add (d : Address) (opt : Opt) :
    (d.add opt).vhinfo =
      { d.vhinfo with
        iface := opt.iface.or d.vhinfo.iface
        sslCertFilepath := opt.cert.or d.vhinfo.sslCertFilepath
        sslPrivateKeyFilepath := opt.key.or d.vhinfo.sslPrivateKeyFilepath
        sslCaFilepath := opt.ca.or d.vhinfo.sslCaFilepath
        options :=
          { (if opt.isSix then d.vhinfo.nextIpv6 else d.vhinfo).options with
            doSslGlobalInit := d.vhinfo.options.doSslGlobalInit || opt.isSsl }
        origins := d.vhinfo.origins ++ opt.origin.toList
        users := d.vhinfo.users ++ opt.user.toList
        name := opt.label.getD d.vhinfo.name
        restrictOrigins := d.vhinfo.restrictOrigins && !opt.isAnyOrigin } := by
  have hsix : (if opt.isSix then d.vhinfo.nextIpv6 else d.vhinfo).options =
      { d.vhinfo.options with
        disableIpv6 := (d.add opt).sixes = 0
        ipv6V6onlyModify := 2 ≤ (d.add opt).sixes
        ipv6V6onlyValue := 2 ≤ (d.add opt).sixes } := by
    rw [sixes_add]
    cases hopt : opt.isSix with
    | false => simp [vhinfo]
    | true =>
        by_cases hzero : d.sixes = 0
        · simp [vhinfo, Vhinfo.nextIpv6, Vhinfo.enableIpv6, hzero]
        · have htwo : 2 ≤ d.sixes + 1 := by omega
          simp [vhinfo, Vhinfo.nextIpv6, Vhinfo.onlyIpv6, hzero, htwo]
  have hone : ∀ f : Opt → Option CString, [opt].filterMap f = (f opt).toList := by
    intro f
    cases h : f opt <;> simp [h]
  rw [hsix]
  simp only [vhinfo, name, last_add]
  simp [add, List.filterMap_append, hone]

theorem accepted_step (hfile : ∀ obj, opt ≠ .f obj) :
    (∃ st', takeOpt env st opt = .ok st') ↔
      opt.Valid env ∧ (opt.isOwn = true → st.currvh ≠ []) := by
  have honCurrvh : ∀ (st : Setup) f, (∃ st', st.onCurrvh f = .ok st') ↔ st.currvh ≠ [] := by
    intro st f
    by_cases hcurr : st.currvh = [] <;> simp [Setup.onCurrvh, hcurr]
  cases opt with
  | f obj => exact absurd rfl (hfile obj)
  | t arg =>
      by_cases hrest : (strtol arg).2 = [] <;> simp [takeOpt, Opt.Valid, Opt.isOwn, hrest]
  | p arg =>
      by_cases hrest : (strtol arg).2 = [] <;> simp [takeOpt, Opt.Valid, Opt.isOwn, hrest]
  | r arg => cases hcut : cutPair arg <;> simp [takeOpt, Opt.Valid, Opt.isOwn, hcut]
  | m arg => cases hcut : cutPair arg <;> simp [takeOpt, Opt.Valid, Opt.isOwn, hcut]
  | P arg => cases hpeer : peerOf env arg <;> simp [takeOpt, Opt.Valid, Opt.isOwn, hpeer]
  | U arg => cases arg <;> simp [takeOpt, Opt.Valid, Opt.isOwn]
  | F arg => cases arg <;> simp [takeOpt, Opt.Valid, Opt.isOwn]
  | i arg =>
      cases hcurr : st.currvh with
      | nil => simp [takeOpt, Opt.Valid, Opt.isOwn, hcurr]
      | cons v rest => 
          by_cases hiface : v.iface.isSome = true <;>
            simp [takeOpt, Opt.Valid, Opt.isOwn, hcurr, hiface]
  | _ => simp [takeOpt, Opt.Valid, Opt.isOwn, Setup.onSsl, honCurrvh, Setup.needSsl]

theorem currvh_other (hown : opt.isOwn = false) (hport : ∀ arg, opt ≠ .p arg)
    (hfile : ∀ obj, opt ≠ .f obj) (h : takeOpt env st opt = .ok st') : st'.currvh = st.currvh := by
  cases opt with
  | f obj => exact absurd rfl (hfile obj)
  | p arg => exact absurd rfl (hport arg)
  | t arg =>
      simp only [takeOpt] at h
      split at h <;> cases h
      rfl
  | r arg =>
      simp only [takeOpt] at h
      split at h <;> cases h
      rfl
  | m arg =>
      simp only [takeOpt] at h
      split at h <;> cases h
      rfl
  | P arg =>
      simp only [takeOpt] at h
      split at h <;> cases h
      rfl
  | U arg => cases arg <;> cases h <;> rfl
  | F arg => cases arg <;> cases h <;> rfl
  | unknown => cases h
  | i arg => cases hown
  | o arg => cases hown
  | O => cases hown
  | u arg => cases hown
  | L arg => cases hown
  | six => cases hown
  | c arg => cases hown
  | k arg => cases hown
  | a arg => cases hown
  | _ =>
      cases h
      rfl

/-- Options about an address change it as they change its description. -/
theorem currvh_own (hown : opt.isOwn = true) (hiface : opt.iface = none)
    (hds : st.currvh = ds.map Address.vhinfo) (h : takeOpt env st opt = .ok st') :
    st'.currvh = (ds.modifyHead fun d => d.add opt).map Address.vhinfo := by
  have honCurrvh : ∀ (st : Setup) f, st.currvh = ds.map Address.vhinfo →
      st.onCurrvh f = .ok st' → (∀ d : Address, f d.vhinfo = (d.add opt).vhinfo) →
      st'.currvh = (ds.modifyHead fun d => d.add opt).map Address.vhinfo := by
    intro st f hcurr hok hf
    rw [Setup.onCurrvh] at hok
    split at hok
    · cases hok
    · cases hok
      cases ds with
      | nil => simp [Setup.change, hcurr]
      | cons d ds => simp [Setup.change, hcurr, hf]
  cases opt with
  | i arg => cases hiface
  | o arg => exact honCurrvh st _ hds h fun d => by simp [d.vhinfo_add, Vhinfo.addOrigin]
  | u arg => exact honCurrvh st _ hds h fun d => by simp [d.vhinfo_add, Vhinfo.addUser]
  | O => exact honCurrvh st _ hds h fun d => by simp [d.vhinfo_add]
  | L arg => exact honCurrvh st _ hds h fun d => by simp [d.vhinfo_add]
  | six =>
      refine honCurrvh st _ hds h fun d => ?_
      rw [d.vhinfo_add]
      cases hv : d.vhinfo.options.disableIpv6 with
      | true => simp [Vhinfo.nextIpv6, Vhinfo.enableIpv6, hv]
      | false => simp [Vhinfo.nextIpv6, Vhinfo.onlyIpv6, hv]
  | c arg => exact honCurrvh st.needSsl _ hds h fun d => by simp [d.vhinfo_add, Vhinfo.initSsl]
  | k arg => exact honCurrvh st.needSsl _ hds h fun d => by simp [d.vhinfo_add, Vhinfo.initSsl]
  | a arg => exact honCurrvh st.needSsl _ hds h fun d => by simp [d.vhinfo_add, Vhinfo.initSsl]
  | _ => cases hown

/-- The option `-i` opens an address or completes the last one. -/
theorem currvh_iface {arg : CString} (hds : st.currvh = ds.map Address.vhinfo)
    (h : takeOpt env st (.i arg) = .ok st') :
    st'.currvh = (place ds (.i arg)).map Address.vhinfo := by
  cases ds with
  | nil =>
      rw [takeOpt, hds] at h
      cases h
  | cons d ds =>
      have hiface : d.vhinfo.iface = d.last Opt.iface := rfl
      simp only [takeOpt, hds, List.map_cons, hiface] at h
      simp only [place]
      split at h
      · next hsome =>
        cases h
        rw [if_pos hsome]
        rfl
      · next hnone =>
        cases h
        rw [if_neg hnone]
        simp [d.vhinfo_add]

theorem place_of_own (hiface : opt.iface = none) (hown : opt.isOwn = true) :
    place ds opt = ds.modifyHead fun d => d.add opt := by
  cases opt with
  | i arg => cases hiface
  | p arg => cases hown
  | _ =>
      simp only [place]
      exact if_pos hown

theorem place_of_other (hport : ∀ arg, opt ≠ .p arg) (hown : opt.isOwn = false) :
    place ds opt = ds := by
  cases opt with
  | i arg => cases hown
  | p arg => exact absurd rfl (hport arg)
  | _ =>
      simp only [place]
      exact if_neg (ne_true_of_eq_false hown)

theorem place_step (hfile : ∀ obj, opt ≠ .f obj) (hds : st.currvh = ds.map Address.vhinfo)
    (h : takeOpt env st opt = .ok st') : st'.currvh = (place ds opt).map Address.vhinfo := by
  by_cases hport : ∃ arg, opt = .p arg
  · obtain ⟨arg, rfl⟩ := hport
    simp only [takeOpt] at h
    split at h
    · cases h
    · cases h
      simp only [place, List.map_cons, hds]
      rfl
  have hport : ∀ arg, opt ≠ .p arg := fun arg heq => hport ⟨arg, heq⟩
  cases hown : opt.isOwn with
  | false =>
      rw [place_of_other hport hown, currvh_other hown hport hfile h]
      exact hds
  | true =>
      cases hiface : opt.iface with
      | none =>
          rw [place_of_own hiface hown]
          exact currvh_own hown hiface hds h
      | some arg =>
          cases opt with
          | i arg' => exact currvh_iface hds h
          | _ => cases hiface

theorem currvh_run {opts : List Opt} (hfile : ∀ obj, .f obj ∉ opts)
    (hds : st.currvh = ds.map Address.vhinfo) (h : run (takeOpt env) st opts = .ok st') :
    st'.currvh = (opts.foldl place ds).map Address.vhinfo := by
  induction opts generalizing st ds with
  | nil =>
      cases h
      exact hds
  | cons opt opts ih =>
      obtain ⟨t, ht, hrest⟩ := run_cons_ok h
      have hstep := place_step (fun obj heq => hfile obj (heq ▸ List.mem_cons_self)) hds ht
      exact ih (fun obj hmem => hfile obj (List.mem_cons_of_mem _ hmem)) hstep hrest

theorem accepted_run {opts : List Opt} (hfile : ∀ obj, .f obj ∉ opts)
    (hds : st.currvh = ds.map Address.vhinfo) :
    (∃ st', run (takeOpt env) st opts = .ok st') ↔
      (∀ opt ∈ opts, opt.Valid env) ∧ ∀ before opt after, opts = before ++ opt :: after →
        opt.isOwn = true → before.foldl place ds ≠ [] := by
  induction opts generalizing st ds with
  | nil => simp [run]
  | cons opt opts ih =>
      have hopt : ∀ obj, opt ≠ .f obj := fun obj heq => hfile obj (heq ▸ List.mem_cons_self)
      have hopts : ∀ obj, .f obj ∉ opts := fun obj hmem =>
        hfile obj (List.mem_cons_of_mem _ hmem)
      have hempty : st.currvh ≠ [] ↔ ds ≠ [] := by rw [hds, Ne, List.map_eq_nil_iff]
      have haccepted : (∃ st', takeOpt env st opt = .ok st') ↔ _ := accepted_step hopt
      rw [hempty] at haccepted
      constructor
      · rintro ⟨st', hrun⟩
        obtain ⟨t, ht, hrest⟩ := run_cons_ok hrun
        obtain ⟨hvalid, hown⟩ := haccepted.mp ⟨t, ht⟩
        obtain ⟨hvalids, hheaded⟩ := (ih hopts (place_step hopt hds ht)).mp ⟨st', hrest⟩
        refine ⟨List.forall_mem_cons.mpr ⟨hvalid, hvalids⟩, ?_⟩
        rintro (_ | ⟨b, before⟩) opt' after heq hopt'
        · cases heq
          exact hown hopt'
        · cases heq
          exact hheaded before opt' after rfl hopt'
      · rintro ⟨hvalids, hheaded⟩
        obtain ⟨hvalid, hvalids⟩ := List.forall_mem_cons.mp hvalids
        obtain ⟨t, ht⟩ := haccepted.mpr ⟨hvalid, hheaded [] opt opts rfl⟩
        have hheaded : ∀ before opt' after, opts = before ++ opt' :: after →
            opt'.isOwn = true → before.foldl place (place ds opt) ≠ [] := by
          rintro before opt' after rfl
          exact hheaded (opt :: before) opt' after rfl
        obtain ⟨st', hrest⟩ := (ih hopts (place_step hopt hds ht)).mpr ⟨hvalids, hheaded⟩
        exact ⟨st', (run_cons ht opts).trans hrest⟩

theorem accepted_file {obj : Json} :
    (∃ st', parseJsonCfg env obj st = .ok st') ↔ Readable obj := by
  constructor
  · rintro ⟨st', h⟩
    simp only [parseJsonCfg] at h
    obtain ⟨t, ht, hrest⟩ := bind_ok h
    refine ⟨fun vhosts hmember => ?_, fun ubusx arg hmember hpeer => ?_⟩
    · rw [ifMember, hmember] at hrest
      obtain ⟨u, -, hvhosts⟩ := bind_ok hrest
      cases vhosts with
      | object members => exact ⟨members, rfl⟩
      | _ => cases hvhosts
    · rw [ifMember, hmember] at ht
      obtain ⟨u, -, hubusx⟩ := bind_ok ht
      rw [parseUbusxJson, hpeer] at hubusx
      split at hubusx
      · cases hubusx
      · next harray => simpa using harray
  · intro hread
    have hubusx : ∀ st, ∃ t, ifMember obj (.ofString "ubusproxy")
        (fun ubusx st => st >>= parseUbusxJson env ubusx) (.ok st) = .ok t := by
      intro st
      cases hmember : member obj (.ofString "ubusproxy") with
      | none => simp [ifMember, hmember]
      | some ubusx =>
          have hrun : ∃ t, parseUbusxJson env ubusx st = .ok t := by
            rw [parseUbusxJson]
            split
            · next harray =>
              cases hpeer : member ubusx (.ofString "peer") with
              | none => simp [hpeer] at harray
              | some arg => simp [hpeer, hread.peers ubusx arg hmember hpeer] at harray
            · exact ⟨_, rfl⟩
          obtain ⟨t, ht⟩ := hrun
          exact ⟨t, by rw [ifMember, hmember]; exact ht⟩
    have hvhosts : ∀ st, ∃ t, ifMember obj (.ofString "owsd-listen")
        (fun vhosts st => st >>= parseVhostsJson env vhosts) (.ok st) = .ok t := by
      intro st
      cases hmember : member obj (.ofString "owsd-listen") with
      | none => simp [ifMember, hmember]
      | some vhosts =>
          obtain ⟨members, rfl⟩ := hread.vhosts vhosts hmember
          exact ⟨_, by rw [ifMember, hmember]; rfl⟩
    obtain ⟨t, ht⟩ := hubusx (ifMember obj (.ofString "global") (parseGlobalJson env) st)
    obtain ⟨t', ht'⟩ := hvhosts t
    exact ⟨t', by simp only [parseJsonCfg, ht]; exact ht'⟩

theorem readable_of_run {opts : List Opt} (h : run (takeOpt env) st opts = .ok st') :
    ∀ obj, .f obj ∈ opts → Readable obj := by
  induction opts generalizing st with
  | nil => exact fun obj hmem => absurd hmem List.not_mem_nil
  | cons opt opts ih =>
      obtain ⟨t, ht, hrest⟩ := run_cons_ok h
      intro obj hmem
      rcases List.mem_cons.mp hmem with rfl | hmem
      · exact accepted_file.mp ⟨t, ht⟩
      · exact ih hrest obj hmem

theorem valid_expand (opt : Opt) :
    opt.Valid env ↔ (∀ obj, opt = .f obj → Readable obj) ∧
      ∀ opt' ∈ opt.expand env, opt'.Valid env := by
  by_cases hopt : ∃ obj, opt = .f obj
  · obtain ⟨obj, rfl⟩ := hopt
    constructor
    · intro hread
      refine ⟨fun obj' heq => by cases heq; exact hread, ?_⟩
      have hparse : ∃ t, parseJsonCfg env obj defaults = .ok t := accepted_file.mpr hread
      obtain ⟨t, ht⟩ := hparse
      have halike : Alike _ (run (takeOpt env) defaults (fileOptions env obj)) :=
        alike_file hread defaults
      rw [ht] at halike
      obtain ⟨t', hrun, -⟩ := halike.exists_ok
      have hnone : defaults.currvh = ([] : List Address).map Address.vhinfo := rfl
      exact ((accepted_run (not_mem_fileOptions obj) hnone).mp ⟨t', hrun⟩).1
    · rintro ⟨hread, -⟩
      exact hread obj rfl
  · have hne : ∀ obj, opt ≠ .f obj := fun obj heq => hopt ⟨obj, heq⟩
    rw [expand_of_ne hne]
    simp [hne]

theorem valid_flatMap (opts : List Opt) :
    (∀ opt ∈ opts, opt.Valid env) ↔ (∀ obj, .f obj ∈ opts → Readable obj) ∧
      ∀ opt ∈ opts.flatMap (Opt.expand env), opt.Valid env := by
  constructor
  · intro h
    refine ⟨fun obj hmem => h _ hmem, fun opt' hmem => ?_⟩
    obtain ⟨opt, hopt, hmem⟩ := List.mem_flatMap.mp hmem
    exact ((valid_expand opt).mp (h opt hopt)).2 opt' hmem
  · rintro ⟨hread, h⟩ opt hopt
    refine (valid_expand opt).mpr ⟨fun obj heq => hread obj (heq ▸ hopt), fun opt' hmem => ?_⟩
    exact h opt' (List.mem_flatMap.mpr ⟨opt, hopt, hmem⟩)

theorem takeOpts_described {opts : List Opt} (h : takeOpts env defaults opts = .ok st) :
    st.currvh = (addresses (opts.flatMap (Opt.expand env))).map Address.vhinfo ∧
      ∃ st', takeOpts env defaults (opts.flatMap (Opt.expand env)) = .ok st' := by
  have halike : Alike (takeOpts env defaults opts) _ := alike_flatMap (readable_of_run h) rfl
  rw [h] at halike
  obtain ⟨st', hrun, hsame⟩ := halike.exists_ok
  have hnone : defaults.currvh = ([] : List Address).map Address.vhinfo := rfl
  refine ⟨?_, st', hrun⟩
  rw [currvh_of_unredirected hsame]
  exact currvh_run (not_mem_flatMap_expand opts) hnone hrun

end

/-- The options are taken to their end exactly when each of them is well
formed and every option about an address comes after the address was opened.
Then the addresses are those the options describe, the last one first: each
has the options of its own and no others, wherever it stands among them. -/
theorem listens_as_described (env : Env) (opts : List Opt) :
    ((∃ st, takeOpts env defaults opts = .ok st) ↔
      (∀ opt ∈ opts, opt.Valid env) ∧ Headed (opts.flatMap (Opt.expand env))) ∧
    ∀ st, takeOpts env defaults opts = .ok st →
      st.currvh = (addresses (opts.flatMap (Opt.expand env))).map Address.vhinfo := by
  have hnone : defaults.currvh = ([] : List Address).map Address.vhinfo := rfl
  have haccepted : (∃ st, takeOpts env defaults (opts.flatMap (Opt.expand env)) = .ok st) ↔ _ :=
    accepted_run (not_mem_flatMap_expand opts) hnone
  have hvalid : (∀ opt ∈ opts, opt.Valid env) ↔ _ := valid_flatMap opts
  refine ⟨⟨?_, ?_⟩, fun st h => (takeOpts_described h).1⟩
  · rintro ⟨st, h⟩
    obtain ⟨hvalids, hheaded⟩ := haccepted.mp (takeOpts_described h).2
    exact ⟨hvalid.mpr ⟨readable_of_run h, hvalids⟩, hheaded⟩
  · rintro ⟨hvalids, hheaded⟩
    obtain ⟨hread, hvalids⟩ := hvalid.mp hvalids
    obtain ⟨st', hrun⟩ := haccepted.mpr ⟨hvalids, hheaded⟩
    have halike : Alike (takeOpts env defaults opts) (takeOpts env defaults _) :=
      alike_flatMap hread rfl
    rw [hrun] at halike
    obtain ⟨st, h, -⟩ := halike.symm.exists_ok
    exact ⟨st, h⟩

end Owsd.Config
