import Owsd.Config.File

/-!
Command lines with configuration files in them.

A file that is named among the options may be replaced by its options: the
same is set up, whatever was set up before. What is redirected is said on its
own (`redirectAfter`), since there a file can do what no option does.
-/

namespace Owsd.Config

section
variable (env : Env)

/-- The `redirect` of the file is a string with a colon, if there is one. -/
def Paired (obj : Json) : Prop :=
  ∀ global arg, member obj (.ofString "global") = some global →
    member global (.ofString "redirect") = some arg →
    arg.isString = true ∧ (cutPair (jsonGetString env arg)).isSome = true

/-- The path that is redirected from, and the one to redirect to. -/
def Setup.redirect (st : Setup) : Option CString × Option CString :=
  (st.cfg.redirFrom, st.cfg.redirTo)

/-- The redirect after the `redirect` of a file. -/
def jsonRedirect (arg : Json) (r : Option CString × Option CString) :
    Option CString × Option CString :=
  match cutPair (jsonGetString env arg) with
  | some (redirFrom, redirTo) =>
      (some (if arg.isString then redirFrom else jsonGetString env arg), some redirTo)
  | none => (r.1, none)

/-- The redirect after one more option. -/
def redirectAfter (r : Option CString × Option CString) : Opt → Option CString × Option CString
  | .r arg =>
      match cutPair arg with
      | some (redirFrom, redirTo) => (some redirFrom, some redirTo)
      | none => r
  | .f obj =>
      ifMember obj (.ofString "global")
        (fun global => ifMember global (.ofString "redirect") (jsonRedirect env)) r
  | _ => r

def Setup.unredirected (st : Setup) : Setup :=
  st.setCfg fun cfg => { cfg with redirFrom := none, redirTo := none }

/-- The same is set up but for the redirect, or it stops in the same way. -/
def Alike (r r' : Except Stop Setup) : Prop :=
  r.map Setup.unredirected = r'.map Setup.unredirected

end

/-! ### Set-ups that are alike -/

section
variable {env : Env} {r r' r'' : Except Stop Setup} {st st' : Setup}

theorem Alike.trans (h : Alike r r') (h' : Alike r' r'') : Alike r r'' := Eq.trans h h'

theorem Alike.symm (h : Alike r r') : Alike r' r := Eq.symm h

theorem alike_ok : Alike (.ok st) (.ok st') ↔ st.unredirected = st'.unredirected := by
  simp [Alike, Except.map]

theorem Alike.exists_ok (h : Alike (.ok st) r) :
    ∃ st', r = .ok st' ∧ st.unredirected = st'.unredirected := by
  cases r with
  | error e => exact absurd h (by simp [Alike, Except.map])
  | ok st' => exact ⟨st', rfl, alike_ok.mp h⟩

theorem currvh_of_unredirected (h : st.unredirected = st'.unredirected) :
    st.currvh = st'.currvh := by
  have hcurr : st.unredirected.currvh = st'.unredirected.currvh := by rw [h]
  exact hcurr

theorem Alike.bind {f g : Setup → Except Stop Setup} (h : Alike r r')
    (hfg : ∀ st st', Alike (.ok st) (.ok st') → Alike (f st) (g st')) :
    Alike (r >>= f) (r' >>= g) := by
  cases r with
  | error e =>
      cases r' with
      | error e' => exact h
      | ok st' => exact absurd h (by simp [Alike, Except.map])
  | ok st =>
      cases r' with
      | error e' => exact absurd h (by simp [Alike, Except.map])
      | ok st' => exact hfg st st' h

theorem run_one (st : Setup) (opt : Opt) : run (takeOpt env) st [opt] = takeOpt env st opt := by
  simp only [run]
  cases takeOpt env st opt <;> rfl

theorem run_bind (st : Setup) (opts opts' : List Opt) :
    run (takeOpt env) st (opts ++ opts') =
      (run (takeOpt env) st opts >>= fun st => run (takeOpt env) st opts') := by
  induction opts generalizing st with
  | nil => rfl
  | cons opt opts ih =>
      simp only [List.cons_append, run]
      cases takeOpt env st opt with
      | error e => rfl
      | ok st => exact ih st

/-- Set-ups that are alike differ in the redirect at most. -/
theorem exists_redirect (h : st.unredirected = st'.unredirected) : ∃ redirFrom redirTo,
    st' = st.setCfg fun cfg => { cfg with redirFrom := redirFrom, redirTo := redirTo } := by
  obtain ⟨⟨sock, dir, age, redirFrom, redirTo, cgiFrom, cgiTo, ssl⟩, client, acl, currvh⟩ := st
  obtain ⟨⟨sock', dir', age', redirFrom', redirTo', cgiFrom', cgiTo', ssl'⟩, client', acl',
    currvh'⟩ := st'
  simp only [Setup.unredirected, Setup.setCfg, Setup.mk.injEq, GlobalConfig.mk.injEq] at h
  obtain ⟨⟨rfl, rfl, rfl, -, -, rfl, rfl, rfl⟩, rfl, rfl, rfl⟩ := h
  exact ⟨redirFrom', redirTo', rfl⟩

/-- An option that names no file does the same to set-ups that are alike. -/
theorem alike_takeOpt (h : st.unredirected = st'.unredirected) {opt : Opt}
    (hopt : ∀ obj, opt ≠ .f obj) : Alike (takeOpt env st opt) (takeOpt env st' opt) := by
  obtain ⟨redirFrom, redirTo, rfl⟩ := exists_redirect h
  obtain ⟨cfg, client, acl, currvh⟩ := st
  cases opt with
  | f obj => exact absurd rfl (hopt obj)
  | t arg =>
      simp only [takeOpt]
      split
      · rfl
      · rfl
  | r arg =>
      simp only [takeOpt]
      cases cutPair arg <;> rfl
  | m arg =>
      simp only [takeOpt]
      cases cutPair arg <;> rfl
  | U arg => cases arg <;> rfl
  | F arg => cases arg <;> rfl
  | P arg =>
      simp only [takeOpt]
      cases peerOf env arg <;> rfl
  | p arg =>
      simp only [takeOpt]
      split
      · rfl
      · rfl
  | i arg =>
      cases currvh with
      | nil => rfl
      | cons v rest =>
          simp only [takeOpt, Setup.setCfg]
          split
          · rfl
          · rfl
  | o arg => cases currvh <;> rfl
  | O => cases currvh <;> rfl
  | u arg => cases currvh <;> rfl
  | L arg => cases currvh <;> rfl
  | six => cases currvh <;> rfl
  | c arg => cases currvh <;> rfl
  | k arg => cases currvh <;> rfl
  | a arg => cases currvh <;> rfl
  | _ => rfl

theorem alike_run {opts : List Opt} (h : st.unredirected = st'.unredirected)
    (hopts : ∀ obj, .f obj ∉ opts) :
    Alike (run (takeOpt env) st opts) (run (takeOpt env) st' opts) := by
  induction opts generalizing st st' with
  | nil => exact alike_ok.mpr h
  | cons opt opts ih =>
      rw [← List.singleton_append, run_bind, run_one, run_bind, run_one]
      apply (alike_takeOpt h fun obj heq => hopts obj (heq ▸ List.mem_cons_self)).bind
      intro st st' hnext
      exact ih (alike_ok.mp hnext) fun obj hmem => hopts obj (List.mem_cons_of_mem _ hmem)

/-! ### Which options a file has -/

theorem forall_optionFor {obj : Json} {key : CString} {opts : Json → List Opt} {P : Opt → Prop}
    (h : ∀ arg, ∀ opt ∈ opts arg, P opt) : ∀ opt ∈ optionFor obj key opts, P opt := by
  unfold optionFor
  cases member obj key with
  | none => simp
  | some arg => exact h arg

theorem forall_optionsFor {obj : Json} {a b c : CString} {opts : Json → Json → Json → List Opt}
    {P : Opt → Prop} (h : ∀ x y z, ∀ opt ∈ opts x y z, P opt) :
    ∀ opt ∈ optionsFor obj a b c opts, P opt := by
  unfold optionsFor
  split
  · exact h _ _ _
  · simp

def Opt.isPlain : Opt → Prop
  | .f _ | .r _ => False
  | _ => True

theorem plain_ipv6Options (obj : Json) : ∀ opt ∈ ipv6Options obj, opt.isPlain := by
  unfold ipv6Options
  split
  · simp [Opt.isPlain]
  · split <;> simp [Opt.isPlain]

theorem plain_listenOptions (key : CString) (obj : Json) :
    ∀ opt ∈ listenOptions env key obj, opt.isPlain := by
  unfold listenOptions
  split
  · simp only [List.forall_mem_append]
    refine ⟨⟨⟨⟨⟨⟨by simp [Opt.isPlain], ?_⟩, ?_⟩, ?_⟩, ?_⟩, plain_ipv6Options obj⟩, ?_⟩
    · exact forall_optionsFor fun a k c => by simp [Opt.isPlain]
    · exact forall_optionFor fun arg => by simp [Opt.isPlain]
    · exact forall_optionFor fun arg => by simp [Opt.isPlain]
    · exact forall_optionFor fun arg => by split <;> simp [Opt.isPlain]
    · exact forall_optionFor fun arg => by simp [Opt.isPlain]
  · simp

theorem plain_vhostOptions (vhosts : Json) : ∀ opt ∈ vhostOptions env vhosts, opt.isPlain := by
  unfold vhostOptions
  split
  · intro opt hmem
    obtain ⟨kv, -, hmem⟩ := List.mem_flatMap.mp hmem
    obtain ⟨elem, -, hmem⟩ := List.mem_flatMap.mp hmem
    exact plain_listenOptions kv.1 elem opt hmem
  · simp

theorem plain_ubusxOptions (ubusx : Json) : ∀ opt ∈ ubusxOptions env ubusx, opt.isPlain := by
  simp only [ubusxOptions, List.forall_mem_append]
  refine ⟨⟨⟨⟨⟨⟨?_, by simp [Opt.isPlain]⟩, ?_⟩, ?_⟩, ?_⟩, ?_⟩, ?_⟩
  · exact forall_optionsFor fun cert key ca => by simp [Opt.isPlain]
  · exact forall_optionFor fun arg => by simp [Opt.isPlain]
  · refine forall_optionFor fun arg opt hmem => ?_
    obtain ⟨elem, -, helem⟩ := List.mem_flatMap.mp hmem
    split at helem
    · cases List.mem_singleton.mp helem
      trivial
    · cases helem
  · exact forall_optionFor fun arg => by simp [Opt.isPlain]
  · exact forall_optionFor fun arg => by split <;> simp [Opt.isPlain]
  · exact forall_optionFor fun arg => by simp [Opt.isPlain]

theorem Opt.isPlain.ne_file {opt : Opt} (h : opt.isPlain) (obj : Json) : opt ≠ .f obj := by
  rintro rfl
  exact h

theorem not_mem_of_plain {opts : List Opt} (h : ∀ opt ∈ opts, opt.isPlain) (obj : Json) :
    .f obj ∉ opts :=
  fun hmem => (h _ hmem).ne_file obj rfl

theorem globalOptions_ne_file (global obj : Json) :
    ∀ opt ∈ globalOptions env global, opt ≠ .f obj := by
  simp only [globalOptions, List.forall_mem_append]
  refine ⟨⟨⟨?_, ?_⟩, ?_⟩, ?_⟩
  · exact forall_optionFor fun arg => by simp
  · exact forall_optionFor fun arg => by simp
  · exact forall_optionFor fun arg => by split <;> simp
  · exact forall_optionFor fun arg => by simp

theorem not_mem_fileOptions (obj obj' : Json) : .f obj' ∉ fileOptions env obj := by
  simp only [fileOptions, List.mem_append, not_or]
  refine ⟨⟨fun hmem => ?_, ?_⟩, ?_⟩
  · exact forall_optionFor (fun arg => globalOptions_ne_file arg obj') _ hmem rfl
  · exact not_mem_of_plain (forall_optionFor plain_ubusxOptions) obj'
  · exact not_mem_of_plain (forall_optionFor plain_vhostOptions) obj'

/-! ### Files -/

theorem alike_redirect (arg : Json) (st : Setup) :
    Alike (.ok (st.setCfg (setRedirect env arg))) (run (takeOpt env) st
      (if arg.isString ∧ (cutPair (jsonGetString env arg)).isSome then
        [.r (jsonGetString env arg)] else [])) := by
  have hset : Setup.unredirected (st.setCfg (setRedirect env arg)) = st.unredirected := by
    simp only [Setup.unredirected, Setup.setCfg, setRedirect]
    cases cutPair (jsonGetString env arg) <;> rfl
  split
  · next hpair =>
    obtain ⟨pair, hcut⟩ := Option.isSome_iff_exists.mp hpair.2
    simp only [run, takeOpt, hcut, alike_ok]
    exact hset
  · exact alike_ok.mpr hset

theorem Alike.andRun {opts opts' : List Opt} (h : Alike r (run (takeOpt env) st opts))
    (hopts : ∀ obj, .f obj ∉ opts') :
    Alike (r >>= fun st => run (takeOpt env) st opts') (run (takeOpt env) st (opts ++ opts')) := by
  rw [run_bind]
  exact h.bind fun st st' hst => alike_run (alike_ok.mp hst) hopts

/-- Up to what is redirected to, taking the options makes the change. -/
def Renders (env : Env) (opts : List Opt) (change : Setup → Setup) : Prop :=
  ∀ st, Alike (.ok (change st)) (run (takeOpt env) st opts)

theorem Performs.renders {Q : Setup → Prop} {opts : List Opt} {change : Setup → Setup}
    (h : Performs env (fun _ => True) Q opts change) : Renders env opts change := by
  intro st
  rw [(h st trivial).1]
  rfl

theorem Renders.append {opts opts' : List Opt} {change change' : Setup → Setup}
    (h : Renders env opts change) (h' : Renders env opts' change')
    (hopts : ∀ obj, .f obj ∉ opts') :
    Renders env (opts ++ opts') fun st => change' (change st) :=
  fun st => (h' (change st)).trans ((h st).andRun hopts)

theorem renders_optionFor {obj : Json} {key : CString} {opts : Json → List Opt}
    {change : Json → Setup → Setup} (h : ∀ arg, Renders env (opts arg) (change arg)) :
    Renders env (optionFor obj key opts) (ifMember obj key change) := by
  intro st
  unfold optionFor ifMember
  cases member obj key with
  | none => rfl
  | some arg => exact h arg st

theorem renders_global (global : Json) :
    Renders env (globalOptions env global) (parseGlobalJson env global) := by
  have hsocket : Renders env (optionFor global (.ofString "socket") _)
      (ifMember global (.ofString "socket") _) :=
    renders_optionFor fun arg => (performs_of_ok fun st =>
      show takeOpt env st (.s (jsonGetString env arg)) = _ from rfl).renders
  have hwww : Renders env (optionFor global (.ofString "www") _)
      (ifMember global (.ofString "www") _) :=
    renders_optionFor fun arg => (performs_of_ok fun st =>
      show takeOpt env st (.w (jsonGetString env arg)) = _ from rfl).renders
  have hredirect : Renders env (optionFor global (.ofString "redirect") _)
      (ifMember global (.ofString "redirect") _) :=
    renders_optionFor fun arg => alike_redirect arg
  have hage : Renders env (optionFor global (.ofString "www_maxage") _)
      (ifMember global (.ofString "www_maxage") _) :=
    renders_optionFor fun arg => (performs_maxage arg).renders
  refine ((hsocket.append hwww fun obj hmem => ?_).append hredirect fun obj hmem => ?_).append hage
    fun obj hmem => ?_
  · exact forall_optionFor (P := (· ≠ .f obj)) (fun arg => by simp) _ hmem rfl
  · exact forall_optionFor (P := (· ≠ .f obj)) (fun arg => by split <;> simp) _ hmem rfl
  · exact forall_optionFor (P := (· ≠ .f obj)) (fun arg => by simp) _ hmem rfl

/-- The parts of a file after the global one are its options. -/
theorem parseJsonCfg_eq {obj : Json} (h : Readable obj) (st : Setup) :
    parseJsonCfg env obj st =
      run (takeOpt env) (ifMember obj (.ofString "global") (parseGlobalJson env) st)
        (optionFor obj (.ofString "ubusproxy") (ubusxOptions env) ++
          optionFor obj (.ofString "owsd-listen") (vhostOptions env)) := by
  have hubusx : ∀ st, run (takeOpt env) st
        (optionFor obj (.ofString "ubusproxy") (ubusxOptions env)) =
      ifMember obj (.ofString "ubusproxy") (fun ubusx st => st >>= parseUbusxJson env ubusx)
        (.ok st) := by
    intro st
    unfold optionFor ifMember
    cases hmember : member obj (.ofString "ubusproxy") with
    | none => rfl
    | some ubusx => exact run_ubusxOptions st fun arg => h.peers ubusx arg hmember
  have hvhosts : ∀ st, run (takeOpt env) st
        (optionFor obj (.ofString "owsd-listen") (vhostOptions env)) =
      ifMember obj (.ofString "owsd-listen") (fun vhosts st => st >>= parseVhostsJson env vhosts)
        (.ok st) := by
    intro st
    unfold optionFor ifMember
    cases hmember : member obj (.ofString "owsd-listen") with
    | none => rfl
    | some vhosts => exact run_vhostOptions st (h.vhosts vhosts hmember)
  simp only [run_bind, parseJsonCfg, hubusx, hvhosts]

theorem plain_sections (obj : Json) :
    ∀ opt ∈ optionFor obj (.ofString "ubusproxy") (ubusxOptions env) ++
      optionFor obj (.ofString "owsd-listen") (vhostOptions env), opt.isPlain :=
  List.forall_mem_append.mpr
    ⟨forall_optionFor plain_ubusxOptions, forall_optionFor plain_vhostOptions⟩

theorem alike_file {obj : Json} (h : Readable obj) (st : Setup) :
    Alike (parseJsonCfg env obj st) (run (takeOpt env) st (fileOptions env obj)) := by
  have hglobal : Renders env (optionFor obj (.ofString "global") (globalOptions env))
      (ifMember obj (.ofString "global") (parseGlobalJson env)) :=
    renders_optionFor renders_global
  rw [parseJsonCfg_eq h, fileOptions, List.append_assoc]
  exact (hglobal st).andRun (not_mem_of_plain (plain_sections obj))

theorem expand_of_ne {opt : Opt} (h : ∀ obj, opt ≠ .f obj) : opt.expand env = [opt] := by
  cases opt with
  | f obj => exact absurd rfl (h obj)
  | _ => rfl

theorem not_mem_flatMap_expand (opts : List Opt) (obj : Json) :
    .f obj ∉ opts.flatMap (Opt.expand env) := by
  intro hmem
  obtain ⟨opt, -, hmem⟩ := List.mem_flatMap.mp hmem
  by_cases hopt : ∃ obj', opt = .f obj'
  · obtain ⟨obj', rfl⟩ := hopt
    exact not_mem_fileOptions obj' obj hmem
  · rw [expand_of_ne fun obj' heq => hopt ⟨obj', heq⟩] at hmem
    exact hopt ⟨obj, (List.mem_singleton.mp hmem).symm⟩

theorem alike_expand (h : st.unredirected = st'.unredirected) {opt : Opt}
    (hfile : ∀ obj, opt = .f obj → Readable obj) :
    Alike (takeOpt env st opt) (run (takeOpt env) st' (opt.expand env)) := by
  by_cases hopt : ∃ obj, opt = .f obj
  · obtain ⟨obj, rfl⟩ := hopt
    exact (alike_file (hfile obj rfl) st).trans (alike_run h (not_mem_fileOptions obj))
  · have hopt : ∀ obj, opt ≠ .f obj := fun obj heq => hopt ⟨obj, heq⟩
    rw [expand_of_ne hopt, run_one]
    exact alike_takeOpt h hopt

theorem alike_flatMap {opts : List Opt} (hfiles : ∀ obj, .f obj ∈ opts → Readable obj)
    (h : st.unredirected = st'.unredirected) :
    Alike (run (takeOpt env) st opts)
      (run (takeOpt env) st' (opts.flatMap (Opt.expand env))) := by
  induction opts generalizing st st' with
  | nil => exact alike_ok.mpr h
  | cons opt opts ih =>
      rw [List.flatMap_cons, ← List.singleton_append, run_bind, run_one, run_bind]
      apply (alike_expand h fun obj heq => hfiles obj (heq ▸ List.mem_cons_self)).bind
      intro st st' hnext
      exact ih (fun obj hmem => hfiles obj (List.mem_cons_of_mem _ hmem)) (alike_ok.mp hnext)

/-! ### The redirect -/

theorem redirectAfter_plain {opt : Opt} (h : opt.isPlain) (r : Option CString × Option CString) :
    redirectAfter env r opt = r := by
  cases opt with
  | f obj => exact absurd h id
  | r arg => exact absurd h id
  | _ => rfl

theorem foldl_redirect_plain {opts : List Opt} (h : ∀ opt ∈ opts, opt.isPlain)
    (r : Option CString × Option CString) : opts.foldl (redirectAfter env) r = r := by
  induction opts with
  | nil => rfl
  | cons opt opts ih =>
      obtain ⟨hopt, hopts⟩ := List.forall_mem_cons.mp h
      rw [List.foldl_cons, redirectAfter_plain hopt, ih hopts]

theorem redirect_takeOpt {opt : Opt} (hopt : ∀ obj, opt ≠ .f obj)
    (h : takeOpt env st opt = .ok st') : st'.redirect = redirectAfter env st.redirect opt := by
  have honCurrvh : ∀ (st₀ : Setup) f, st₀.redirect = st.redirect → st₀.onCurrvh f = .ok st' →
      st'.redirect = st.redirect := by
    intro st₀ f hst hok
    rw [Setup.onCurrvh] at hok
    split at hok
    · cases hok
    · cases hok
      exact hst
  cases opt with
  | f obj => exact absurd rfl (hopt obj)
  | r arg =>
      simp only [takeOpt] at h
      split at h
      · cases h
      · next hcut =>
        cases h
        simp [redirectAfter, hcut, Setup.redirect, Setup.setCfg]
  | t arg =>
      simp only [takeOpt] at h
      split at h <;> cases h
      rfl
  | m arg =>
      simp only [takeOpt] at h
      split at h <;> cases h
      rfl
  | U arg => cases arg <;> cases h <;> rfl
  | F arg => cases arg <;> cases h <;> rfl
  | P arg =>
      simp only [takeOpt] at h
      split at h <;> cases h
      rfl
  | p arg =>
      simp only [takeOpt] at h
      split at h <;> cases h
      rfl
  | i arg =>
      simp only [takeOpt] at h
      split at h
      · cases h
      · split at h <;> cases h <;> rfl
  | o arg => exact honCurrvh st _ rfl h
  | O => exact honCurrvh st _ rfl h
  | u arg => exact honCurrvh st _ rfl h
  | L arg => exact honCurrvh st _ rfl h
  | six => exact honCurrvh st _ rfl h
  | c arg => exact honCurrvh st.needSsl _ rfl h
  | k arg => exact honCurrvh st.needSsl _ rfl h
  | a arg => exact honCurrvh st.needSsl _ rfl h
  | unknown => cases h
  | _ =>
      cases h
      rfl

theorem redirect_plain {opts : List Opt} (hopts : ∀ opt ∈ opts, opt.isPlain)
    (h : run (takeOpt env) st opts = .ok st') : st'.redirect = st.redirect := by
  induction opts generalizing st with
  | nil =>
      cases h
      rfl
  | cons opt opts ih =>
      obtain ⟨hopt, hopts⟩ := List.forall_mem_cons.mp hopts
      obtain ⟨t, ht, hrest⟩ := run_cons_ok h
      rw [ih hopts hrest, redirect_takeOpt hopt.ne_file ht, redirectAfter_plain hopt]

theorem redirect_global (global : Json) (st : Setup) :
    (parseGlobalJson env global st).redirect =
      ifMember global (.ofString "redirect") (jsonRedirect env) st.redirect := by
  have hkeep : ∀ (key : CString) (f : Json → GlobalConfig → GlobalConfig) (st : Setup),
      (∀ arg cfg, (f arg cfg).redirFrom = cfg.redirFrom ∧ (f arg cfg).redirTo = cfg.redirTo) →
      (ifMember global key (fun arg => Setup.setCfg (f arg)) st).redirect = st.redirect := by
    intro key f st hf
    unfold ifMember
    split
    · next arg _ => simp [Setup.redirect, Setup.setCfg, hf arg st.cfg]
    · rfl
  have hredirect : ∀ st : Setup, (ifMember global (.ofString "redirect")
      (fun arg => Setup.setCfg (setRedirect env arg)) st).redirect =
      ifMember global (.ofString "redirect") (jsonRedirect env) st.redirect := by
    intro st
    unfold ifMember
    split
    · next arg _ =>
      simp only [Setup.redirect, Setup.setCfg, setRedirect, jsonRedirect]
      cases cutPair (jsonGetString env arg) <;> rfl
    · rfl
  have hage := hkeep (.ofString "www_maxage") (fun arg cfg => { cfg with wwwMaxage := arg.getInt })
  have hwww := hkeep (.ofString "www")
    (fun arg cfg => { cfg with wwwDirpath := jsonGetString env arg })
  have hsocket := hkeep (.ofString "socket")
    (fun arg cfg => { cfg with ubusSockPath := jsonGetString env arg })
  refine (hage _ fun _ _ => ⟨rfl, rfl⟩).trans ((hredirect _).trans (congrArg _ ?_))
  exact (hwww _ fun _ _ => ⟨rfl, rfl⟩).trans (hsocket st fun _ _ => ⟨rfl, rfl⟩)

theorem redirect_step {opt : Opt} (hfile : ∀ obj, opt = .f obj → Readable obj)
    (h : takeOpt env st opt = .ok st') : st'.redirect = redirectAfter env st.redirect opt := by
  by_cases hopt : ∃ obj, opt = .f obj
  · obtain ⟨obj, rfl⟩ := hopt
    rw [takeOpt, parseJsonCfg_eq (hfile obj rfl)] at h
    rw [redirect_plain (plain_sections obj) h, redirectAfter]
    unfold ifMember
    cases member obj (.ofString "global") with
    | none => rfl
    | some global => exact redirect_global global st
  · exact redirect_takeOpt (fun obj heq => hopt ⟨obj, heq⟩) h

theorem redirect_run {opts : List Opt} (hfiles : ∀ obj, .f obj ∈ opts → Readable obj)
    (h : run (takeOpt env) st opts = .ok st') :
    st'.redirect = opts.foldl (redirectAfter env) st.redirect := by
  induction opts generalizing st with
  | nil =>
      cases h
      rfl
  | cons opt opts ih =>
      obtain ⟨t, ht, hrest⟩ := run_cons_ok h
      rw [List.foldl_cons, ih (fun obj hmem => hfiles obj (List.mem_cons_of_mem _ hmem)) hrest,
        redirect_step (fun obj heq => hfiles obj (heq ▸ List.mem_cons_self)) ht]

/-- The options of a file whose redirect is a pair redirect as the file does. -/
theorem foldl_redirect_file {obj : Json} (hpair : Paired env obj)
    (r : Option CString × Option CString) :
    (fileOptions env obj).foldl (redirectAfter env) r = redirectAfter env r (.f obj) := by
  rw [fileOptions, List.append_assoc, List.foldl_append, foldl_redirect_plain (plain_sections obj)]
  simp only [redirectAfter, optionFor, ifMember]
  cases hglobal : member obj (.ofString "global") with
  | none => rfl
  | some global =>
      have hplain : ∀ (key : CString) (opts : Json → List Opt) r,
          (∀ arg, ∀ opt ∈ opts arg, opt.isPlain) →
          (optionFor global key opts).foldl (redirectAfter env) r = r :=
        fun key opts r hopts => foldl_redirect_plain (forall_optionFor hopts) r
      simp only [globalOptions, List.foldl_append]
      rw [hplain (.ofString "www_maxage") _ _ fun arg => by simp [Opt.isPlain],
        hplain (.ofString "www") _ _ fun arg => by simp [Opt.isPlain],
        hplain (.ofString "socket") _ _ fun arg => by simp [Opt.isPlain], optionFor]
      cases hredirect : member global (.ofString "redirect") with
      | none => rfl
      | some arg =>
          obtain ⟨hstring, hcut⟩ := hpair global arg hglobal hredirect
          obtain ⟨pair, hpair⟩ := Option.isSome_iff_exists.mp hcut
          simp [hstring, hpair, redirectAfter, jsonRedirect]

theorem foldl_redirect_expand {opts : List Opt} (hpairs : ∀ obj, .f obj ∈ opts → Paired env obj)
    (r : Option CString × Option CString) :
    (opts.flatMap (Opt.expand env)).foldl (redirectAfter env) r =
      opts.foldl (redirectAfter env) r := by
  induction opts generalizing r with
  | nil => rfl
  | cons opt opts ih =>
      have hrest := ih fun obj hmem => hpairs obj (List.mem_cons_of_mem _ hmem)
      rw [List.flatMap_cons, List.foldl_append, List.foldl_cons, hrest]
      by_cases hopt : ∃ obj, opt = .f obj
      · obtain ⟨obj, rfl⟩ := hopt
        have hfile := foldl_redirect_file (hpairs obj List.mem_cons_self) r
        rw [Opt.expand, hfile]
      · rw [expand_of_ne fun obj heq => hopt ⟨obj, heq⟩]
        rfl

theorem eq_of_unredirected (h : st.unredirected = st'.unredirected)
    (hredirect : st.redirect = st'.redirect) : st = st' := by
  obtain ⟨redirFrom, redirTo, rfl⟩ := exists_redirect h
  cases hredirect
  rfl

end

/-- Whatever is set up already, taking the options of each configuration file
in its place sets up the same as reading the file: the same addresses in the
same order, the same client side and the same access list, or the daemon stops
in the same way. The redirect is that of the last option or file that has one,
and the same too if those of the files are strings with a colon. -/
theorem takeOpts_expand {env : Env} {opts : List Opt}
    (hfiles : ∀ obj, .f obj ∈ opts → Readable obj) (st : Setup) :
    Alike (takeOpts env st opts) (takeOpts env st (opts.flatMap (Opt.expand env))) ∧
      (∀ st', takeOpts env st opts = .ok st' →
        st'.redirect = opts.foldl (redirectAfter env) st.redirect) ∧
      ((∀ obj, .f obj ∈ opts → Paired env obj) →
        takeOpts env st opts = takeOpts env st (opts.flatMap (Opt.expand env))) := by
  have halike : Alike (takeOpts env st opts) (takeOpts env st (opts.flatMap (Opt.expand env))) :=
    alike_flatMap hfiles rfl
  refine ⟨halike, fun st' h => redirect_run hfiles h, fun hpairs => ?_⟩
  cases hrun : takeOpts env st opts with
  | error stop =>
      cases hrun' : takeOpts env st (opts.flatMap (Opt.expand env)) with
      | error stop' =>
          rw [hrun, hrun'] at halike
          exact congrArg Except.error (Except.error.inj halike)
      | ok t =>
          rw [hrun, hrun'] at halike
          cases halike
  | ok t =>
      rw [hrun] at halike
      obtain ⟨t', hrun', hsame⟩ := halike.exists_ok
      have hnone : ∀ obj, .f obj ∈ opts.flatMap (Opt.expand env) → Readable obj :=
        fun obj hmem => absurd hmem (not_mem_flatMap_expand opts obj)
      have hredirect : t'.redirect = t.redirect := by
        rw [redirect_run hfiles hrun, redirect_run hnone hrun', foldl_redirect_expand hpairs]
      rw [hrun', eq_of_unredirected hsame hredirect.symm]

/-- A file with a redirect and two addresses on one interface. -/
def twoAddresses : Json :=
  .object [(.ofString "global", .object [(.ofString "redirect", .string (.ofString "/a:/b"))]),
    (.ofString "owsd-listen", .object [(.ofString "lan", .array [
    .object [(.ofString "port", .string (.ofString "80")),
      (.ofString "interface", .string (.ofString "br-lan")),
      (.ofString "ipv6", .bool true),
      (.ofString "origin", .array [.string (.ofString "http://router")])],
    .null,
    .object [(.ofString "port", .int 443),
      (.ofString "interface", .string (.ofString "br-lan"))]])])]

theorem readable_twoAddresses : Readable twoAddresses where
  vhosts := by
    intro vhosts h
    have hmember : member twoAddresses (.ofString "owsd-listen") = some (.object _) := rfl
    rw [hmember] at h
    cases h
    exact ⟨_, rfl⟩
  peers := by
    intro ubusx arg h
    have hmember : member twoAddresses (.ofString "ubusproxy") = none := rfl
    rw [hmember] at h
    cases h

theorem takeOpts_expand_twoAddresses :
    let env : Env := ⟨fun _ => [], fun _ => none⟩
    Alike (takeOpts env defaults [.f twoAddresses, .O])
        (takeOpts env defaults (fileOptions env twoAddresses ++ [.O])) ∧
      ∃ st, takeOpts env defaults [.f twoAddresses, .O] = .ok st ∧
        st.redirect = (some (.ofString "/a"), some (.ofString "/b")) := by
  intro env
  have hfiles : ∀ obj, .f obj ∈ [Opt.f twoAddresses, .O] → Readable obj := by
    intro obj hmem
    rcases List.mem_cons.mp hmem with h | h
    · cases h
      exact readable_twoAddresses
    · cases List.mem_singleton.mp h
  obtain ⟨halike, hredirect, -⟩ := takeOpts_expand hfiles defaults
  refine ⟨halike, _, rfl, (hredirect _ rfl).trans ?_⟩
  decide

end Owsd.Config
