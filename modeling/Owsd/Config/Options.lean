import Owsd.Acl.AccessList
import Owsd.Basis.Blob
import Owsd.Basis.Decimal
import Owsd.Basis.Run

/-!
How the daemon is set up: the options of its command line (`main.c`) and its
configuration file (`config.c`).

The options are taken one after the other and change what is set up so far. A
port opens a listening address, and the options that follow are about the
last one that was opened; nothing checks that there is one. A configuration
file opens all its addresses in the place where it is named.

Memory is assumed to be there. `getopt` has told the options and their
arguments apart already; what it does not know is `unknown`, and so is `-h`,
which the source handles but does not list.
-/

namespace Owsd.Config

structure Env where
  /-- The text json-c prints for a value. -/
  jsonText : Json → CString
  /-- `lws_parse_uri`: protocol, address, port and path. -/
  lwsParseUri : CString → Option (CString × CString × Int × CString)

/-- The options of lws for a vhost, `LWS_SERVER_OPTION_...`. -/
structure ServerOptions where
  disableIpv6 : Bool
  ipv6V6onlyModify : Bool
  ipv6V6onlyValue : Bool
  doSslGlobalInit : Bool
  peerCertNotRequired : Bool
  requireValidOpensslClientCert : Bool
  deriving DecidableEq

/-- `struct vhinfo_list`, a listening address. Its `vhost_name` is left out: it
is set again whenever a vhost is created, and nothing reads it before. -/
structure Vhinfo where
  port : Int
  iface : Option CString
  sslCertFilepath : Option CString
  sslPrivateKeyFilepath : Option CString
  sslCaFilepath : Option CString
  options : ServerOptions
  origins : List CString
  users : List CString
  name : CString
  restrictOrigins : Bool
  deriving DecidableEq

structure GlobalConfig where
  ubusSockPath : CString
  wwwDirpath : CString
  wwwMaxage : Int
  redirFrom : Option CString
  redirTo : Option CString
  cgiFrom : Option CString
  cgiTo : Option CString
  anySsl : Bool

/-- What the client side is told: its settings, and the arguments of the calls
of `wsubus_client_path_pattern_add` and `wsubus_client_create` so far. -/
structure ClientSettings where
  proxyEnabled : Bool
  prefixMac : Bool
  certFilepath : Option CString
  privateKeyFilepath : Option CString
  caFilepath : Option CString
  rpcdIntegration : Bool
  retryTimeout : Int
  patterns : List CString
  remotes : List (CString × Int × CString)

/-- All that is set up. The last address opened is the first of `currvh`. -/
structure Setup where
  cfg : GlobalConfig
  client : ClientSettings
  acl : List Acl.Load
  currvh : List Vhinfo

inductive Stop where
  | exit (rc : Int)
  /-- A null pointer is followed, or an assertion of json-c fails. -/
  | fault
  deriving DecidableEq

/-- An option with its argument. For a configuration file it is the value of
its text, `null` when it could not be read. -/
inductive Opt where
  | s (arg : CString) | w (arg : CString) | t (arg : CString) | r (arg : CString)
  | m (arg : CString) | f (cfg : Json)
  | U (arg : Option CString) | F (arg : Option CString) | P (arg : CString)
  | C (arg : CString) | K (arg : CString) | A (arg : CString) | R
  | p (arg : CString) | i (arg : CString) | o (arg : CString) | O | u (arg : CString)
  | L (arg : CString) | six | c (arg : CString) | k (arg : CString) | a (arg : CString)
  | X (arg : CString) | T (arg : CString)
  | unknown

/-- A `long` stored in an `int`. -/
def asInt (v : Int) : Int := v.bmod 4294967296

theorem colon_ne : ':'.toNat % 256 ≠ 0 := by decide

def colon : CChar := .ofChar ':' colon_ne

def cutPair (arg : CString) : Option (CString × CString) :=
  if colon ∈ arg then some (arg.takeWhile (· ≠ colon), (arg.dropWhile (· ≠ colon)).tail) else none

/-- `new_vhinfo_list`: what a listening address starts with. -/
def newVhinfo : Vhinfo where
  port := 0
  iface := none
  sslCertFilepath := none
  sslPrivateKeyFilepath := none
  sslCaFilepath := none
  options := ⟨true, false, false, false, false, false⟩
  origins := []
  users := []
  name := []
  restrictOrigins := true

/-! ### Changes to an address -/

namespace Vhinfo

def addOrigin (origin : CString) (v : Vhinfo) : Vhinfo :=
  { v with origins := v.origins ++ [origin] }

def addUser (user : CString) (v : Vhinfo) : Vhinfo := { v with users := v.users ++ [user] }

def enableIpv6 (v : Vhinfo) : Vhinfo :=
  { v with options := { v.options with disableIpv6 := false } }

def onlyIpv6 (v : Vhinfo) : Vhinfo :=
  { v with options := { v.options with ipv6V6onlyModify := true, ipv6V6onlyValue := true } }

/-- The option `-6`. -/
def nextIpv6 (v : Vhinfo) : Vhinfo :=
  if v.options.disableIpv6 then v.enableIpv6 else v.onlyIpv6

def initSsl (v : Vhinfo) : Vhinfo :=
  { v with options := { v.options with doSslGlobalInit := true } }

end Vhinfo

/-! ### Configuration files -/

section
variable (env : Env)

/-- `json_object_get_string`. -/
def jsonGetString : Json → CString
  | .string s => s
  | v => env.jsonText v

/-- `json_object_get_boolean`. A text is true when it is not empty. -/
def jsonGetBoolean : Json → Bool
  | .bool b => b
  | .int v => v ≠ 0
  | .double bits => bits.toNat % 9223372036854775808 ≠ 0
  | .string s => !s.isEmpty
  | _ => false

/-- `json_object_object_get_ex` where a null counts as absent. -/
def member (obj : Json) (key : CString) : Option Json :=
  match obj.getEx key with
  | some .null => none
  | found => found

/-- The elements of an array that are not null, which are skipped in every
loop. -/
def elements : Json → List Json
  | .array elems => elems.filter fun
      | .null => false
      | _ => true
  | _ => []

def ifMember {α : Type} (obj : Json) (key : CString) (change : Json → α → α) (x : α) : α :=
  match member obj key with
  | some arg => change arg x
  | none => x

def ifMembers {α : Type} (obj : Json) (a b c : CString) (change : Json → Json → Json → α → α)
    (x : α) : α :=
  match member obj a, member obj b, member obj c with
  | some a, some b, some c => change a b c x
  | _, _, _ => x

def Setup.change (f : Vhinfo → Vhinfo) (st : Setup) : Setup :=
  { st with currvh := st.currvh.modifyHead f }

def Setup.needSsl (st : Setup) : Setup := { st with cfg := { st.cfg with anySsl := true } }

def Setup.setClient (f : ClientSettings → ClientSettings) (st : Setup) : Setup :=
  { st with client := f st.client }

def Setup.setCfg (f : GlobalConfig → GlobalConfig) (st : Setup) : Setup :=
  { st with cfg := f st.cfg }

def appendOrigins (cfg : Json) (st : Setup) : Setup :=
  (elements cfg).foldl (fun st elem => st.change (Vhinfo.addOrigin (jsonGetString env elem))) st

/-- `create_vhost_by_json`. Without a port or an interface nothing is
created. -/
def createVhostByJson (key : CString) (obj : Json) (st : Setup) : Setup :=
  match member obj (.ofString "port"), member obj (.ofString "interface") with
  | some port, some interface =>
      { st with
        currvh := { newVhinfo with
          port := port.getInt, name := key, iface := some (jsonGetString env interface) } ::
            st.currvh }
      |> ifMembers obj (.ofString "ca") (.ofString "key") (.ofString "cert") (fun a k c st =>
        st.needSsl.change fun v =>
          { v with
            sslCertFilepath := some (jsonGetString env c)
            sslPrivateKeyFilepath := some (jsonGetString env k)
            sslCaFilepath := some (jsonGetString env a) }.initSsl)
      |> ifMember obj (.ofString "ubusx_acl") (fun arg st =>
        { st with acl := st.acl ++ [.addObjects (some (jsonGetString env arg))] })
      |> ifMember obj (.ofString "origin") (appendOrigins env)
      |> ifMember obj (.ofString "origin_check") (fun arg st =>
        if jsonGetBoolean arg then st
        else st.change fun v => { v with restrictOrigins := false })
      |> ifMember obj (.ofString "ipv6") (fun arg st =>
        if jsonGetBoolean arg then st.change Vhinfo.enableIpv6 else st)
      |> ifMember obj (.ofString "ipv6only") (fun arg st =>
        if jsonGetBoolean arg then st.change fun v => v.enableIpv6.onlyIpv6 else st)
      |> ifMember obj (.ofString "restrict_to_user") (fun arg st =>
        (elements arg).foldl
          (fun st elem => st.change (Vhinfo.addUser (jsonGetString env elem))) st)
  | _, _ => st

def parseVhostsJson (vhosts : Json) (st : Setup) : Except Stop Setup :=
  match vhosts with
  | .object members =>
      .ok (members.foldl (fun st kv =>
        (elements kv.2).foldl (fun st elem => createVhostByJson env kv.1 elem st) st) st)
  | _ => .error .fault

/-- The `redirect` of a file: without a colon there is no path to redirect
to, and the one to redirect from stays. The colon is overwritten in the text of
a string; any other value is printed again for the path to redirect from,
which is all of it then. -/
def setRedirect (arg : Json) (cfg : GlobalConfig) : GlobalConfig :=
  match cutPair (jsonGetString env arg) with
  | some (redirFrom, redirTo) =>
      { cfg with
        redirTo := some redirTo
        redirFrom := some (if arg.isString then redirFrom else jsonGetString env arg) }
  | none => { cfg with redirTo := none }

def parseGlobalJson (global : Json) (st : Setup) : Setup :=
  st
  |> ifMember global (.ofString "socket") (fun arg =>
    Setup.setCfg fun cfg => { cfg with ubusSockPath := jsonGetString env arg })
  |> ifMember global (.ofString "www") (fun arg =>
    Setup.setCfg fun cfg => { cfg with wwwDirpath := jsonGetString env arg })
  |> ifMember global (.ofString "redirect") (fun arg =>
    Setup.setCfg (setRedirect env arg))
  |> ifMember global (.ofString "www_maxage") (fun arg =>
    Setup.setCfg fun cfg => { cfg with wwwMaxage := arg.getInt })

/-- The address, port and path of a URL with the protocol `wss`. -/
def peerOf (url : CString) : Option (CString × Int × CString) :=
  match env.lwsParseUri url with
  | some (proto, addr, port, path) =>
      if proto = .ofString "wss" then some (addr, port, path) else none
  | none => none

def ClientSettings.addPattern (pattern : CString) (client : ClientSettings) : ClientSettings :=
  { client with patterns := client.patterns ++ [pattern] }

def addPeer (elem : Json) (st : Setup) : Setup :=
  match peerOf env (jsonGetString env elem) with
  | some remote =>
      st.needSsl.setClient fun client => { client with remotes := client.remotes ++ [remote] }
  | none => st

def setRetryTimeout (timeout : Int) (client : ClientSettings) : ClientSettings :=
  if 0 < timeout then { client with retryTimeout := timeout } else client

def setPrefix (arg : CString) (client : ClientSettings) : ClientSettings :=
  if arg = .ofString "mac" then { client with prefixMac := true } else client

/-- `parse_ubusx_json`. The length of the peers is asked for without a look at
the type. -/
def parseUbusxJson (ubusx : Json) (st : Setup) : Except Stop Setup :=
  let st := st
    |> ifMembers ubusx (.ofString "peer_cert") (.ofString "peer_key") (.ofString "peer_ca")
      (fun cert key ca => Setup.setClient fun client =>
        { client with
          certFilepath := some (jsonGetString env cert)
          privateKeyFilepath := some (jsonGetString env key)
          caFilepath := some (jsonGetString env ca) })
    |> Setup.needSsl
    |> Setup.setClient (fun client => { client with proxyEnabled := true })
    |> ifMember ubusx (.ofString "object") (fun arg st =>
      (elements arg).foldl
        (fun st elem => st.setClient (.addPattern (jsonGetString env elem))) st)
  if ((member ubusx (.ofString "peer")).map Json.isArray).getD true = false then .error .fault
  else .ok (st
    |> ifMember ubusx (.ofString "peer") (fun arg st =>
      (elements arg).foldl (fun st elem => addPeer env elem st) st)
    |> ifMember ubusx (.ofString "prefix") (fun arg =>
      Setup.setClient (setPrefix (jsonGetString env arg)))
    |> ifMember ubusx (.ofString "rpcd_integration") (fun arg st =>
      if jsonGetBoolean arg then st.setClient fun client => { client with rpcdIntegration := true }
      else st)
    |> ifMember ubusx (.ofString "reconnect_timeout") (fun arg =>
      Setup.setClient (setRetryTimeout arg.getInt)))

def parseJsonCfg (obj : Json) (st : Setup) : Except Stop Setup := do
  let st := ifMember obj (.ofString "global") (parseGlobalJson env) st
  let st ← ifMember obj (.ofString "ubusproxy") (fun ubusx st => st >>= parseUbusxJson env ubusx)
    (.ok st)
  ifMember obj (.ofString "owsd-listen") (fun vhosts st => st >>= parseVhostsJson env vhosts)
    (.ok st)

/-! ### The command line -/

/-- Change the last address opened, which the source takes to be there. -/
def Setup.onCurrvh (st : Setup) (f : Vhinfo → Vhinfo) : Except Stop Setup :=
  if st.currvh = [] then .error .fault else .ok (st.change f)

/-- `-c`, `-k` and `-a`. -/
def Setup.onSsl (st : Setup) (change : Vhinfo → Vhinfo) : Except Stop Setup :=
  st.needSsl.onCurrvh fun v => (change v).initSsl

def takeOpt (st : Setup) : Opt → Except Stop Setup
  | .s arg => .ok (st.setCfg fun cfg => { cfg with ubusSockPath := arg })
  | .w arg => .ok (st.setCfg fun cfg => { cfg with wwwDirpath := arg })
  | .t arg =>
      let (secs, rest) := strtol arg
      if rest ≠ [] then .error (.exit 0)
      else .ok (st.setCfg fun cfg => { cfg with wwwMaxage := asInt secs })
  | .r arg =>
      match cutPair arg with
      | none => .error (.exit 0)
      | some (redirFrom, redirTo) =>
          .ok (st.setCfg fun cfg =>
            { cfg with redirFrom := some redirFrom, redirTo := some redirTo })
  | .m arg =>
      match cutPair arg with
      | none => .error (.exit 0)
      | some (cgiFrom, cgiTo) =>
          .ok (st.setCfg fun cfg => { cfg with cgiFrom := some cgiFrom, cgiTo := some cgiTo })
  | .f cfg => parseJsonCfg env cfg st
  | .U arg =>
      let st := st.needSsl.setClient fun client => { client with proxyEnabled := true }
      match arg with
      | some pattern => .ok (st.setClient (.addPattern pattern))
      | none => .ok st
  | .F arg =>
      match arg with
      | some arg => .ok (st.setClient (setPrefix arg))
      | none => .ok st
  | .P arg =>
      match peerOf env arg with
      | none => .error (.exit 0)
      | some remote =>
          .ok (st.needSsl.setClient fun client =>
            { client with remotes := client.remotes ++ [remote] })
  | .C arg => .ok (st.setClient fun client => { client with certFilepath := some arg })
  | .K arg => .ok (st.setClient fun client => { client with privateKeyFilepath := some arg })
  | .A arg => .ok (st.setClient fun client => { client with caFilepath := some arg })
  | .R => .ok (st.setClient fun client => { client with rpcdIntegration := true })
  | .p arg =>
      let (port, rest) := strtol arg
      if rest ≠ [] then .error (.exit 0)
      else .ok { st with
        currvh := { newVhinfo with port := asInt port, name := arg } :: st.currvh }
  | .i arg =>
      match st.currvh with
      | [] => .error .fault
      | v :: rest =>
          -- an address has one interface, another one opens a new address
          if v.iface.isSome then
            .ok { st with
              currvh := { newVhinfo with port := v.port, name := v.name, iface := some arg } ::
                v :: rest }
          else .ok { st with currvh := { v with iface := some arg } :: rest }
  | .o arg => st.onCurrvh (Vhinfo.addOrigin arg)
  | .O => st.onCurrvh fun v => { v with restrictOrigins := false }
  | .u arg => st.onCurrvh (Vhinfo.addUser arg)
  | .L arg => st.onCurrvh fun v => { v with name := arg }
  | .six => st.onCurrvh Vhinfo.nextIpv6
  | .c arg => st.onSsl fun v => { v with sslCertFilepath := some arg }
  | .k arg => st.onSsl fun v => { v with sslPrivateKeyFilepath := some arg }
  | .a arg => st.onSsl fun v => { v with sslCaFilepath := some arg }
  | .X arg => .ok { st with acl := st.acl ++ [.addObjects (some arg)] }
  | .T arg => .ok (st.setClient (setRetryTimeout (asInt (strtol arg).1)))
  | .unknown => .error (.exit (-2))

def takeOpts (st : Setup) (opts : List Opt) : Except Stop Setup := run (takeOpt env) st opts

def defaults : Setup where
  cfg :=
    { ubusSockPath := .ofString "/var/run/ubus.sock"
      wwwDirpath := .ofString "/www"
      wwwMaxage := 0
      redirFrom := none
      redirTo := none
      cgiFrom := none
      cgiTo := none
      anySsl := false }
  client :=
    { proxyEnabled := false
      prefixMac := false
      certFilepath := none
      privateKeyFilepath := none
      caFilepath := none
      rpcdIntegration := false
      retryTimeout := 2000
      patterns := []
      remotes := [] }
  acl := []
  currvh := []

end

end Owsd.Config
