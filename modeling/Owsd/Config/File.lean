import Owsd.Config.Options

/-!
A configuration file as a command line.

What a configuration file sets up could have been set up with options, which
`fileOptions` writes down. Each part of the file is here shown to do what its
options do; only a `redirect` that is no string with a colon has no option
that does the same.
-/

namespace Owsd.Config

section
variable (env : Env)

/-! ### The options of a file -/

def optionFor (obj : Json) (key : CString) (opt : Json → List Opt) : List Opt :=
  match member obj key with
  | some arg => opt arg
  | none => []

def optionsFor (obj : Json) (a b c : CString) (opts : Json → Json → Json → List Opt) : List Opt :=
  match member obj a, member obj b, member obj c with
  | some a, some b, some c => opts a b c
  | _, _, _ => []

/-- The options `-6`: the first one turns IPv6 on, the second one IPv4 off. -/
def ipv6Options (obj : Json) : List Opt :=
  if ((member obj (.ofString "ipv6only")).map jsonGetBoolean).getD false then [.six, .six]
  else if ((member obj (.ofString "ipv6")).map jsonGetBoolean).getD false then [.six]
  else []

/-- The options for a listening address in the section `key`. -/
def listenOptions (key : CString) (obj : Json) : List Opt :=
  match member obj (.ofString "port"), member obj (.ofString "interface") with
  | some port, some interface =>
      [.p (intText port.getInt), .L key, .i (jsonGetString env interface)] ++
      optionsFor obj (.ofString "ca") (.ofString "key") (.ofString "cert") (fun a k c =>
        [.c (jsonGetString env c), .k (jsonGetString env k), .a (jsonGetString env a)]) ++
      optionFor obj (.ofString "ubusx_acl") (fun arg => [.X (jsonGetString env arg)]) ++
      optionFor obj (.ofString "origin") (fun arg =>
        (elements arg).map fun elem => .o (jsonGetString env elem)) ++
      optionFor obj (.ofString "origin_check") (fun arg =>
        if jsonGetBoolean arg then [] else [.O]) ++
      ipv6Options obj ++
      optionFor obj (.ofString "restrict_to_user") fun arg =>
        (elements arg).map fun elem => .u (jsonGetString env elem)
  | _, _ => []

def vhostOptions : Json → List Opt
  | .object members => members.flatMap fun kv => (elements kv.2).flatMap (listenOptions env kv.1)
  | _ => []

def globalOptions (global : Json) : List Opt :=
  optionFor global (.ofString "socket") (fun arg => [.s (jsonGetString env arg)]) ++
  optionFor global (.ofString "www") (fun arg => [.w (jsonGetString env arg)]) ++
  optionFor global (.ofString "redirect") (fun arg =>
    if arg.isString ∧ (cutPair (jsonGetString env arg)).isSome then
      [.r (jsonGetString env arg)] else []) ++
  optionFor global (.ofString "www_maxage") fun arg => [.t (intText arg.getInt)]

def ubusxOptions (ubusx : Json) : List Opt :=
  optionsFor ubusx (.ofString "peer_cert") (.ofString "peer_key") (.ofString "peer_ca")
    (fun cert key ca =>
      [.C (jsonGetString env cert), .K (jsonGetString env key), .A (jsonGetString env ca)]) ++
  [.U none] ++
  optionFor ubusx (.ofString "object") (fun arg =>
    (elements arg).map fun elem => .U (some (jsonGetString env elem))) ++
  optionFor ubusx (.ofString "peer") (fun arg => (elements arg).flatMap fun elem =>
    if (peerOf env (jsonGetString env elem)).isSome then [.P (jsonGetString env elem)] else []) ++
  optionFor ubusx (.ofString "prefix") (fun arg => [.F (some (jsonGetString env arg))]) ++
  optionFor ubusx (.ofString "rpcd_integration") (fun arg =>
    if jsonGetBoolean arg then [.R] else []) ++
  optionFor ubusx (.ofString "reconnect_timeout") fun arg => [.T (intText arg.getInt)]

def fileOptions (obj : Json) : List Opt :=
  optionFor obj (.ofString "global") (globalOptions env) ++
  optionFor obj (.ofString "ubusproxy") (ubusxOptions env) ++
  optionFor obj (.ofString "owsd-listen") (vhostOptions env)

/-- The option, or the options of the file it names. -/
def Opt.expand : Opt → List Opt
  | .f obj => fileOptions env obj
  | opt => [opt]

/-- The file can be read to its end: its addresses are an object, its peers an
array. -/
structure Readable (obj : Json) : Prop where
  vhosts : ∀ vhosts, member obj (.ofString "owsd-listen") = some vhosts →
    ∃ members, vhosts = .object members
  peers : ∀ ubusx arg, member obj (.ofString "ubusproxy") = some ubusx →
    member ubusx (.ofString "peer") = some arg → arg.isArray = true

end

/-! ### Numbers -/

theorem saturate_range (v : Int) :
    -2147483648 ≤ Json.saturate v ∧ Json.saturate v ≤ 2147483647 := by
  rw [Json.saturate]
  split
  · omega
  · split <;> omega

theorem getInt_range (v : Json) : -2147483648 ≤ v.getInt ∧ v.getInt ≤ 2147483647 := by
  cases v with
  | int v => exact saturate_range v
  | double bits => exact saturate_range _
  | string s => exact saturate_range _
  | bool b => cases b <;> decide
  | null => decide
  | array elems => simp [Json.getInt]
  | object members => simp [Json.getInt]

theorem strtol_getInt (v : Json) : strtol (intText v.getInt) = (v.getInt, []) := by
  obtain ⟨hlow, hhigh⟩ := getInt_range v
  exact strtol_intText (by omega) (by omega)

theorem asInt_getInt (v : Json) : asInt v.getInt = v.getInt := by
  obtain ⟨hlow, hhigh⟩ := getInt_range v
  rw [asInt, Int.bmod_eq_of_le] <;> omega

/-! ### Options that perform a change -/

/-- From states with `P`, taking the options makes the change, and `Q` holds
then. -/
def Performs (env : Env) (P Q : Setup → Prop) (opts : List Opt) (change : Setup → Setup) : Prop :=
  ∀ st, P st → run (takeOpt env) st opts = .ok (change st) ∧ Q (change st)

section
variable {env : Env} {P Q R : Setup → Prop}

theorem performs_nil : Performs env P P [] id := fun _ hst => ⟨rfl, hst⟩

theorem performs_one {opt : Opt} {change : Setup → Setup}
    (h : ∀ st, P st → takeOpt env st opt = .ok (change st) ∧ Q (change st)) :
    Performs env P Q [opt] change := by
  intro st hst
  obtain ⟨hopt, hQ⟩ := h st hst
  exact ⟨run_cons hopt [], hQ⟩

theorem Performs.append {opts opts' : List Opt} {change change' : Setup → Setup}
    (h : Performs env P Q opts change) (h' : Performs env Q R opts' change') :
    Performs env P R (opts ++ opts') fun st => change' (change st) := by
  intro st hst
  obtain ⟨hrun, hQ⟩ := h st hst
  obtain ⟨hrun', hR⟩ := h' _ hQ
  exact ⟨(run_append hrun opts').trans hrun', hR⟩

theorem Performs.weaken {opts : List Opt} {change : Setup → Setup}
    (h : Performs env P Q opts change) (hQR : ∀ st, Q st → R st) :
    Performs env P R opts change :=
  fun st hst => ⟨(h st hst).1, hQR _ (h st hst).2⟩

theorem performs_optionFor {obj : Json} {key : CString} {opts : Json → List Opt}
    {change : Json → Setup → Setup} (h : ∀ arg, Performs env P P (opts arg) (change arg)) :
    Performs env P P (optionFor obj key opts) (ifMember obj key change) := by
  intro st hst
  unfold optionFor ifMember
  cases member obj key with
  | none => exact performs_nil st hst
  | some arg => exact h arg st hst

theorem performs_optionsFor {obj : Json} {a b c : CString} {opts : Json → Json → Json → List Opt}
    {change : Json → Json → Json → Setup → Setup}
    (h : ∀ x y z, Performs env P P (opts x y z) (change x y z)) :
    Performs env P P (optionsFor obj a b c opts) (ifMembers obj a b c change) := by
  intro st hst
  unfold optionsFor ifMembers
  cases member obj a with
  | none => exact performs_nil st hst
  | some x =>
      cases member obj b with
      | none => exact performs_nil st hst
      | some y =>
          cases member obj c with
          | none => exact performs_nil st hst
          | some z => exact h x y z st hst

theorem performs_flatMap {α : Type} {opts : α → List Opt} {change : α → Setup → Setup}
    (h : ∀ x, Performs env P P (opts x) (change x)) (xs : List α) :
    Performs env P P (xs.flatMap opts) fun st => xs.foldl (fun st x => change x st) st := by
  induction xs with
  | nil => exact performs_nil
  | cons x xs ih => exact (h x).append ih

theorem performs_map {α : Type} {opt : α → Opt} {change : α → Setup → Setup}
    (h : ∀ x, Performs env P P [opt x] (change x)) (xs : List α) :
    Performs env P P (xs.map opt) fun st => xs.foldl (fun st x => change x st) st := by
  rw [List.map_eq_flatMap]
  exact performs_flatMap h xs

end

/-! ### Listening addresses -/

def Opened (st : Setup) : Prop := st.currvh ≠ []

/-- An address is open, and IPv6 is not on yet. -/
def Fresh (st : Setup) : Prop := ∃ v rest, st.currvh = v :: rest ∧ v.options.disableIpv6 = true

section
variable {env : Env}

theorem Fresh.opened {st : Setup} (h : Fresh st) : Opened st := by
  obtain ⟨v, rest, hcurr, -⟩ := h
  rw [Opened, hcurr]
  exact List.cons_ne_nil v rest

theorem Fresh.change {st : Setup} (h : Fresh st) {f : Vhinfo → Vhinfo}
    (hf : ∀ v, (f v).options.disableIpv6 = v.options.disableIpv6) : Fresh (st.change f) := by
  obtain ⟨v, rest, hcurr, hv⟩ := h
  exact ⟨f v, rest, by simp [Setup.change, hcurr], (hf v).trans hv⟩

theorem Opened.change {st : Setup} (h : Opened st) (f : Vhinfo → Vhinfo) :
    Opened (st.change f) := by
  obtain ⟨v, rest, hcurr⟩ := List.exists_cons_of_ne_nil h
  simp [Opened, Setup.change, hcurr]

theorem Opened.onCurrvh {st : Setup} (h : Opened st) (f : Vhinfo → Vhinfo) :
    st.onCurrvh f = .ok (st.change f) := if_neg h

theorem performs_opening (key : CString) (port interface : Json) :
    Performs env (fun _ => True) Fresh
      [.p (intText port.getInt), .L key, .i (jsonGetString env interface)]
      fun st => { st with
        currvh := { newVhinfo with
          port := port.getInt, name := key, iface := some (jsonGetString env interface) } ::
            st.currvh } := by
  intro st _
  refine ⟨?_, ⟨_, _, rfl, rfl⟩⟩
  simp [run, takeOpt, strtol_getInt, asInt_getInt, Setup.onCurrvh, Setup.change, newVhinfo]

theorem performs_ssl (a k c : CString) :
    Performs env Fresh Fresh [.c c, .k k, .a a] fun st => st.needSsl.change fun v =>
      { v with
        sslCertFilepath := some c
        sslPrivateKeyFilepath := some k
        sslCaFilepath := some a }.initSsl := by
  rintro ⟨cfg, client, acl, currvh⟩ ⟨v, rest, rfl, hv⟩
  refine ⟨?_, ⟨_, rest, rfl, hv⟩⟩
  simp [run, takeOpt, Setup.onSsl, Setup.needSsl, Setup.onCurrvh, Setup.change, Vhinfo.initSsl]

theorem performs_ipv6 (obj : Json) :
    Performs env Fresh Opened (ipv6Options obj) fun st => st
      |> ifMember obj (.ofString "ipv6") (fun arg st =>
        if jsonGetBoolean arg then st.change Vhinfo.enableIpv6 else st)
      |> ifMember obj (.ofString "ipv6only") (fun arg st =>
        if jsonGetBoolean arg then st.change fun v => v.enableIpv6.onlyIpv6 else st) := by
  rintro ⟨cfg, client, acl, currvh⟩ ⟨v, rest, rfl, hv⟩
  unfold ipv6Options ifMember
  have hfirst : v.nextIpv6 = v.enableIpv6 := if_pos hv
  have hsecond : v.enableIpv6.nextIpv6 = v.enableIpv6.onlyIpv6 := rfl
  have hagain : v.enableIpv6.enableIpv6 = v.enableIpv6 := rfl
  cases member obj (.ofString "ipv6only") with
  | none =>
      cases member obj (.ofString "ipv6") with
      | none => simp [run, Opened]
      | some arg =>
          cases h : jsonGetBoolean arg <;>
            simp [h, run, takeOpt, Setup.onCurrvh, Setup.change, hfirst, Opened]
  | some arg' =>
      cases h' : jsonGetBoolean arg' with
      | true =>
          cases member obj (.ofString "ipv6") with
          | none =>
              simp [h', run, takeOpt, Setup.onCurrvh, Setup.change, hfirst, hsecond, Opened]
          | some arg =>
              cases h : jsonGetBoolean arg <;>
                simp [h, h', run, takeOpt, Setup.onCurrvh, Setup.change, hfirst, hsecond, hagain,
                  Opened]
      | false =>
          cases member obj (.ofString "ipv6") with
          | none => simp [h', run, Opened]
          | some arg =>
              cases h : jsonGetBoolean arg <;>
                simp [h, h', run, takeOpt, Setup.onCurrvh, Setup.change, hfirst, Opened]

theorem performs_acl (arg : CString) :
    Performs env Fresh Fresh [.X arg] fun st =>
      { st with acl := st.acl ++ [.addObjects (some arg)] } :=
  performs_one fun _ hst => ⟨rfl, hst⟩

theorem performs_origin (arg : CString) :
    Performs env Fresh Fresh [.o arg] (Setup.change (Vhinfo.addOrigin arg)) :=
  performs_one fun _ hst => ⟨hst.opened.onCurrvh _, hst.change fun _ => rfl⟩

theorem performs_user (arg : CString) :
    Performs env Opened Opened [.u arg] (Setup.change (Vhinfo.addUser arg)) :=
  performs_one fun _ hst => ⟨hst.onCurrvh _, hst.change _⟩

theorem performs_originCheck (arg : Json) :
    Performs env Fresh Fresh (if jsonGetBoolean arg then [] else [.O]) fun st =>
      if jsonGetBoolean arg then st
      else st.change fun v => { v with restrictOrigins := false } := by
  cases jsonGetBoolean arg with
  | true => exact performs_nil
  | false => exact performs_one fun _ hst => ⟨hst.opened.onCurrvh _, hst.change fun _ => rfl⟩

/-- Options for a listening address open it as the file does. -/
theorem performs_listen (key : CString) (obj : Json) :
    Performs env (fun _ => True) (fun _ => True) (listenOptions env key obj)
      (createVhostByJson env key obj) := by
  unfold listenOptions createVhostByJson
  cases member obj (.ofString "port") with
  | none => exact performs_nil
  | some port =>
      cases member obj (.ofString "interface") with
      | none => exact performs_nil
      | some interface =>
          have hssl : Performs env Fresh Fresh
              (optionsFor obj (.ofString "ca") (.ofString "key") (.ofString "cert") _)
              (ifMembers obj (.ofString "ca") (.ofString "key") (.ofString "cert") _) :=
            performs_optionsFor fun a k c =>
              performs_ssl (jsonGetString env a) (jsonGetString env k) (jsonGetString env c)
          have hacl : Performs env Fresh Fresh (optionFor obj (.ofString "ubusx_acl") _)
              (ifMember obj (.ofString "ubusx_acl") _) :=
            performs_optionFor fun arg => performs_acl (jsonGetString env arg)
          have horigin : Performs env Fresh Fresh (optionFor obj (.ofString "origin") _)
              (ifMember obj (.ofString "origin") _) :=
            performs_optionFor fun arg =>
              performs_map (fun elem => performs_origin (jsonGetString env elem)) (elements arg)
          have hcheck : Performs env Fresh Fresh (optionFor obj (.ofString "origin_check") _)
              (ifMember obj (.ofString "origin_check") _) :=
            performs_optionFor performs_originCheck
          have huser : Performs env Opened Opened (optionFor obj (.ofString "restrict_to_user") _)
              (ifMember obj (.ofString "restrict_to_user") _) :=
            performs_optionFor fun arg =>
              performs_map (fun elem => performs_user (jsonGetString env elem)) (elements arg)
          have hall := ((((((performs_opening key port interface).append hssl).append hacl).append
            horigin).append hcheck).append (performs_ipv6 obj)).append huser
          exact hall.weaken fun _ _ => trivial

theorem performs_vhosts (members : List (CString × Json)) :
    Performs env (fun _ => True) (fun _ => True) (vhostOptions env (.object members)) fun st =>
      members.foldl (fun st kv =>
        (elements kv.2).foldl (fun st elem => createVhostByJson env kv.1 elem st) st) st := by
  rw [vhostOptions]
  have hsection : ∀ kv : CString × Json, Performs env (fun _ => True) (fun _ => True)
      ((elements kv.2).flatMap (listenOptions env kv.1))
      (fun st => (elements kv.2).foldl (fun st elem => createVhostByJson env kv.1 elem st) st) :=
    fun kv => performs_flatMap (performs_listen kv.1) (elements kv.2)
  exact performs_flatMap hsection members

/-! ### The other sections -/

theorem performs_of_ok {opt : Opt} {change : Setup → Setup}
    (h : ∀ st, takeOpt env st opt = .ok (change st)) :
    Performs env (fun _ => True) (fun _ => True) [opt] change :=
  performs_one fun st _ => ⟨h st, trivial⟩

theorem performs_peer (elem : Json) :
    Performs env (fun _ => True) (fun _ => True)
      (if (peerOf env (jsonGetString env elem)).isSome then [.P (jsonGetString env elem)] else [])
      (addPeer env elem) := by
  unfold addPeer
  cases h : peerOf env (jsonGetString env elem) with
  | none => exact performs_nil
  | some remote => exact performs_of_ok fun st => by simp [takeOpt, h]

def Proxying (st : Setup) : Prop := st.cfg.anySsl = true ∧ st.client.proxyEnabled = true

/-- Once the proxy is on, a pattern is all that `-U` adds. -/
theorem performs_pattern (pattern : CString) :
    Performs env Proxying Proxying [.U (some pattern)]
      (Setup.setClient (.addPattern pattern)) := by
  apply performs_one
  rintro ⟨cfg, client, acl, currvh⟩ ⟨hssl, hproxy⟩
  refine ⟨?_, hssl, hproxy⟩
  cases cfg
  cases client
  cases hssl
  cases hproxy
  rfl

theorem performs_certificate (cert key ca : CString) :
    Performs env (fun _ => True) (fun _ => True) [.C cert, .K key, .A ca]
      (Setup.setClient fun client =>
        { client with
          certFilepath := some cert
          privateKeyFilepath := some key
          caFilepath := some ca }) :=
  fun _ _ => ⟨rfl, trivial⟩

theorem performs_enable :
    Performs env (fun _ => True) Proxying [.U none] fun st =>
      st.needSsl.setClient fun client => { client with proxyEnabled := true } :=
  fun _ _ => ⟨rfl, rfl, rfl⟩

theorem performs_rpcd (arg : Json) :
    Performs env (fun _ => True) (fun _ => True) (if jsonGetBoolean arg then [.R] else [])
      fun st =>
        if jsonGetBoolean arg then
          st.setClient fun client => { client with rpcdIntegration := true }
        else st := by
  cases jsonGetBoolean arg with
  | true => exact performs_of_ok fun st => rfl
  | false => exact performs_nil

theorem performs_retryTimeout (arg : Json) :
    Performs env (fun _ => True) (fun _ => True) [.T (intText arg.getInt)]
      (Setup.setClient (setRetryTimeout arg.getInt)) :=
  performs_of_ok fun st => by simp [takeOpt, strtol_getInt, asInt_getInt]

theorem performs_maxage (arg : Json) :
    Performs env (fun _ => True) (fun _ => True) [.t (intText arg.getInt)]
      (Setup.setCfg fun cfg => { cfg with wwwMaxage := arg.getInt }) :=
  performs_of_ok fun st => by simp [takeOpt, strtol_getInt, asInt_getInt]

theorem run_ubusxOptions {ubusx : Json} (st : Setup)
    (hpeers : ∀ arg, member ubusx (.ofString "peer") = some arg → arg.isArray = true) :
    run (takeOpt env) st (ubusxOptions env ubusx) = parseUbusxJson env ubusx st := by
  have hcertificate : Performs env (fun _ => True) (fun _ => True)
      (optionsFor ubusx (.ofString "peer_cert") (.ofString "peer_key") (.ofString "peer_ca") _)
      (ifMembers ubusx (.ofString "peer_cert") (.ofString "peer_key") (.ofString "peer_ca") _) :=
    performs_optionsFor fun cert key ca =>
      performs_certificate (jsonGetString env cert) (jsonGetString env key) (jsonGetString env ca)
  have hobject : Performs env Proxying Proxying (optionFor ubusx (.ofString "object") _)
      (ifMember ubusx (.ofString "object") _) :=
    performs_optionFor fun arg =>
      performs_map (fun elem => performs_pattern (jsonGetString env elem)) (elements arg)
  have hpeer : Performs env (fun _ => True) (fun _ => True) (optionFor ubusx (.ofString "peer") _)
      (ifMember ubusx (.ofString "peer") _) :=
    performs_optionFor fun arg => performs_flatMap performs_peer (elements arg)
  have hpath : Performs env (fun _ => True) (fun _ => True)
      (optionFor ubusx (.ofString "prefix") _) (ifMember ubusx (.ofString "prefix") _) :=
    performs_optionFor fun arg => performs_of_ok fun st =>
      show takeOpt env st (.F (some (jsonGetString env arg))) = _ from rfl
  have hrpcd : Performs env (fun _ => True) (fun _ => True)
      (optionFor ubusx (.ofString "rpcd_integration") _)
      (ifMember ubusx (.ofString "rpcd_integration") _) :=
    performs_optionFor performs_rpcd
  have hretry : Performs env (fun _ => True) (fun _ => True)
      (optionFor ubusx (.ofString "reconnect_timeout") _)
      (ifMember ubusx (.ofString "reconnect_timeout") _) :=
    performs_optionFor performs_retryTimeout
  have hall := ((((((hcertificate.append performs_enable).append hobject).weaken
    (fun _ _ => trivial)).append hpeer).append hpath).append hrpcd).append hretry
  have harray : ((member ubusx (.ofString "peer")).map Json.isArray).getD true = true := by
    cases hmember : member ubusx (.ofString "peer") with
    | none => rfl
    | some arg => exact hpeers arg hmember
  rw [parseUbusxJson, harray, if_neg Bool.true_eq_false_eq_False]
  exact (hall st trivial).1

theorem run_vhostOptions {vhosts : Json} (st : Setup)
    (hobject : ∃ members, vhosts = .object members) :
    run (takeOpt env) st (vhostOptions env vhosts) = parseVhostsJson env vhosts st := by
  obtain ⟨members, rfl⟩ := hobject
  exact (performs_vhosts members st trivial).1

end

end Owsd.Config
