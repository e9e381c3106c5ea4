import Newt.Olm.Backend

/-! # Configuration from the environment and the command line

Every line of the source that reads an environment variable and every flag sets one
field of an accumulator. The environment is read first, then the flags in their
order. Either role is active when its credentials are present.
-/

namespace Newt

open Text

namespace Config

/-- Site role: registers a site. -/
structure SiteRun where
  endpoint : String
  id : String
  secret : String
  mtu : Nat
  skipTlsVerify : Bool
  /-- In seconds. -/
  udpIdleTimeout : Nat
  deriving DecidableEq, Repr

/-- Client role. -/
structure ClientRun extends Olm.ClientRun where
  endpoint : String
  id : String
  secret : String
  userToken : String
  orgId : String
  mtu : Nat
  skipTlsVerify : Bool
  deriving DecidableEq, Repr

end Config

structure Config where
  logLevel : String
  site : Option Config.SiteRun
  client : Option Config.ClientRun
  deriving DecidableEq, Repr

namespace Config

open Olm

/-- What the program is compiled for. -/
structure Platform where
  usizeMax : Nat
  linux : Bool

/-- Accumulator while reading the environment and then the flags. -/
structure Raw where
  endpoint : String
  mtu : Nat
  logLevel : String
  skipTlsVerify : Bool
  udpIdleTimeout : Nat
  newtId : String
  newtSecret : String
  olmId : String
  olmSecret : String
  userToken : String
  orgId : String
  access : AccessMode
  interface : String
  forwards : List Forward
  socksPort : Option UInt16
  deriving DecidableEq, Repr

def defaultAccess (platform : Platform) : AccessMode :=
  if platform.linux then .kernel else .userspace

def Raw.default (platform : Platform) : Raw where
  endpoint := ""
  mtu := 1280
  logLevel := "INFO"
  skipTlsVerify := false
  udpIdleTimeout := 90
  newtId := ""
  newtSecret := ""
  olmId := ""
  olmSecret := ""
  userToken := ""
  orgId := ""
  access := defaultAccess platform
  interface := "olm"
  forwards := []
  socksPort := none

/-! ## Values -/

def parseUsize (platform : Platform) (v : String) : Option Nat :=
  parseUnsigned platform.usizeMax v.toList

def parseSecs (v : String) : Except String Nat :=
  match parseUnsigned (2 ^ 64 - 1) (trimEndMatches 's' v.toList) with
  | some secs => .ok secs
  | none => .error "bad duration"

def truthy (v : String) : Bool :=
  match toAsciiLowercase v with
  | "1" | "true" | "yes" => true
  | _ => false

def parseAccess (v : String) : Except String AccessMode :=
  match toAsciiLowercase v with
  | "kernel" | "tun" => .ok .kernel
  | "userspace" | "user" | "socks" => .ok .userspace
  | _ => .error ("bad access mode: " ++ v ++ " (kernel|userspace)")

/-- Parse one forward `listen:host:port`. -/
def parseForward (spec : List Char) : Except String Forward :=
  match splitOnce ':' spec with
  | none => .error ("bad forward: " ++ String.ofList spec)
  | some (listen, rest) =>
      match rsplitOnce ':' rest with
      | none => .error ("bad forward: " ++ String.ofList spec)
      | some (host, port) =>
          match parseU16 listen with
          | none => .error ("bad listen port: " ++ String.ofList spec)
          | some listenPort =>
              match parseU16 port with
              | none => .error ("bad dest port: " ++ String.ofList spec)
              | some destPort => .ok ⟨listenPort, String.ofList host, destPort⟩

/-- Parse `listen:host:port,listen:host:port`. -/
def parseForwards (v : String) : Except String (List Forward) :=
  (((split ',' v.toList).map trim).filter (· ≠ [])).mapM parseForward

/-! ## Sources -/

/-- A value for one field of the accumulator. -/
inductive Setting where
  | endpoint (v : String)
  | mtu (v : Nat)
  | logLevel (v : String)
  | skipTlsVerify (v : Bool)
  | udpIdleTimeout (v : Nat)
  | newtId (v : String)
  | newtSecret (v : String)
  | olmId (v : String)
  | olmSecret (v : String)
  | userToken (v : String)
  | orgId (v : String)
  | access (v : AccessMode)
  | interface (v : String)
  | forwards (v : List Forward)
  | socksPort (v : UInt16)
  deriving DecidableEq, Repr

def Raw.put (r : Raw) : Setting → Raw
  | .endpoint v => { r with endpoint := v }
  | .mtu v => { r with mtu := v }
  | .logLevel v => { r with logLevel := v }
  | .skipTlsVerify v => { r with skipTlsVerify := v }
  | .udpIdleTimeout v => { r with udpIdleTimeout := v }
  | .newtId v => { r with newtId := v }
  | .newtSecret v => { r with newtSecret := v }
  | .olmId v => { r with olmId := v }
  | .olmSecret v => { r with olmSecret := v }
  | .userToken v => { r with userToken := v }
  | .orgId v => { r with orgId := v }
  | .access v => { r with access := v }
  | .interface v => { r with interface := v }
  | .forwards v => { r with forwards := v }
  | .socksPort v => { r with socksPort := some v }

/-- The options of the command line that take a value. -/
inductive Opt where
  | endpoint
  | id
  | secret
  | mtu
  | logLevel
  | olmId
  | olmSecret
  | olmUserToken
  | orgId
  | olmAccess
  | olmInterface
  | olmForwards
  | olmSocksPort
  deriving DecidableEq, Repr

/-- The fields that the environment sets: those of the options, and two more. -/
inductive Field where
  | option (o : Opt)
  | skipTlsVerify
  | udpIdleTimeout
  deriving DecidableEq, Repr

/-- The environment maps the name of a variable to its value. -/
abbrev Env := String → Option String

/-- `parse().map_err(|_| message)` -/
def orError (parsed : Option Setting) (message : String) : Except String Setting :=
  match parsed with
  | some setting => .ok setting
  | none => .error message

/-- What the environment says about a field, if it says anything. -/
def Field.fromEnv (platform : Platform) (env : Env) : Field → Option (Except String Setting)
  | .option .endpoint => (env "PANGOLIN_ENDPOINT").map fun v => .ok (.endpoint v)
  | .option .mtu =>
      (env "MTU").map fun v => orError ((parseUsize platform v).map .mtu) "bad MTU"
  | .option .logLevel => (env "LOG_LEVEL").map fun v => .ok (.logLevel v)
  | .skipTlsVerify => (env "SKIP_TLS_VERIFY").map fun v => .ok (.skipTlsVerify (truthy v))
  | .udpIdleTimeout =>
      (env "NEWT_UDP_PROXY_IDLE_TIMEOUT").map fun v => (parseSecs v).map .udpIdleTimeout
  | .option .id => (env "NEWT_ID").map fun v => .ok (.newtId v)
  | .option .secret => (env "NEWT_SECRET").map fun v => .ok (.newtSecret v)
  | .option .olmId => (env "OLM_ID").map fun v => .ok (.olmId v)
  | .option .olmSecret => (env "OLM_SECRET").map fun v => .ok (.olmSecret v)
  | .option .olmUserToken => (env "OLM_USER_TOKEN").map fun v => .ok (.userToken v)
  | .option .orgId => ((env "PANGOLIN_ORG_ID").or (env "ORG_ID")).map fun v => .ok (.orgId v)
  | .option .olmAccess => (env "OLM_ACCESS_MODE").map fun v => (parseAccess v).map .access
  | .option .olmInterface => (env "OLM_INTERFACE").map fun v => .ok (.interface v)
  | .option .olmForwards => (env "OLM_FORWARDS").map fun v => (parseForwards v).map .forwards
  | .option .olmSocksPort =>
      (env "OLM_SOCKS_PORT").map fun v =>
        orError ((parseU16 v.toList).map .socksPort) "bad OLM_SOCKS_PORT"

/-- The order in which the environment is read. -/
def Field.order : List Field :=
  [.option .endpoint, .option .mtu, .option .logLevel, .skipTlsVerify, .udpIdleTimeout,
    .option .id, .option .secret, .option .olmId, .option .olmSecret, .option .olmUserToken,
    .option .orgId, .option .olmAccess, .option .olmInterface, .option .olmForwards,
    .option .olmSocksPort]

/-- `if let Some(v) = env(name) { r.field = v }`, where the value may be refused. -/
def readField (platform : Platform) (env : Env) (r : Raw) (field : Field) : Except String Raw :=
  match field.fromEnv platform env with
  | none => .ok r
  | some (.ok setting) => .ok (r.put setting)
  | some (.error e) => .error e

def readEnv (platform : Platform) (env : Env) (r : Raw) : Except String Raw :=
  Field.order.foldlM (readField platform env) r

inductive Flag where
  | value (o : Opt)
  | skipTlsVerify
  deriving DecidableEq, Repr

def Flag.ofText : String → Option Flag
  | "-endpoint" | "--endpoint" => some (.value .endpoint)
  | "-id" | "--id" => some (.value .id)
  | "-secret" | "--secret" => some (.value .secret)
  | "-mtu" | "--mtu" => some (.value .mtu)
  | "-log-level" | "--log-level" => some (.value .logLevel)
  | "-skip-tls-verify" | "--skip-tls-verify" => some .skipTlsVerify
  | "-olm-id" | "--olm-id" => some (.value .olmId)
  | "-olm-secret" | "--olm-secret" => some (.value .olmSecret)
  | "-olm-user-token" | "--olm-user-token" => some (.value .olmUserToken)
  | "-org-id" | "--org-id" => some (.value .orgId)
  | "-olm-access" | "--olm-access" => some (.value .olmAccess)
  | "-olm-interface" | "--olm-interface" => some (.value .olmInterface)
  | "-olm-forwards" | "--olm-forwards" => some (.value .olmForwards)
  | "-olm-socks-port" | "--olm-socks-port" => some (.value .olmSocksPort)
  | _ => none

/-- What an option does with its value. -/
def Opt.fromArg (platform : Platform) (v : String) : Opt → Except String Setting
  | .endpoint => .ok (.endpoint v)
  | .id => .ok (.newtId v)
  | .secret => .ok (.newtSecret v)
  | .mtu => orError ((parseUsize platform v).map .mtu) "bad --mtu"
  | .logLevel => .ok (.logLevel v)
  | .olmId => .ok (.olmId v)
  | .olmSecret => .ok (.olmSecret v)
  | .olmUserToken => .ok (.userToken v)
  | .orgId => .ok (.orgId v)
  | .olmAccess => (parseAccess v).map .access
  | .olmInterface => .ok (.interface v)
  | .olmForwards => (parseForwards v).map .forwards
  | .olmSocksPort => orError ((parseU16 v.toList).map .socksPort) "bad --olm-socks-port"

def readArgs (platform : Platform) : List String → Raw → Except String Raw
  | [], r => .ok r
  | a :: rest, r =>
      match Flag.ofText a with
      | none => .error ("unknown flag: " ++ a)
      | some .skipTlsVerify => readArgs platform rest (r.put (.skipTlsVerify true))
      | some (.value o) =>
          match rest with
          | [] => .error ("missing value for " ++ a)
          | v :: rest =>
              match o.fromArg platform v with
              | .error e => .error e
              | .ok setting => readArgs platform rest (r.put setting)

def Raw.site (r : Raw) : Option SiteRun :=
  if r.newtId ≠ "" ∧ r.newtSecret ≠ "" then
    some {
      endpoint := r.endpoint
      id := r.newtId
      secret := r.newtSecret
      mtu := r.mtu
      skipTlsVerify := r.skipTlsVerify
      udpIdleTimeout := r.udpIdleTimeout }
  else none

def Raw.client (r : Raw) : Option ClientRun :=
  if r.olmId ≠ "" ∧ r.olmSecret ≠ "" then
    some {
      endpoint := r.endpoint
      id := r.olmId
      secret := r.olmSecret
      userToken := r.userToken
      orgId := r.orgId
      mtu := r.mtu
      skipTlsVerify := r.skipTlsVerify
      access := r.access
      interface := r.interface
      forwards := r.forwards
      socksPort := r.socksPort }
  else none

def Raw.config (r : Raw) : Except String Config :=
  if r.endpoint = "" then .error "PANGOLIN_ENDPOINT (or --endpoint) is required"
  else if r.site.isNone ∧ r.client.isNone then
    .error ("no role configured: set NEWT_ID/NEWT_SECRET (site) and/or " ++
      "OLM_ID/OLM_SECRET (client)")
  else .ok ⟨r.logLevel, r.site, r.client⟩

/-- Build the configuration from the environment and the flags without the name of
the program. -/
def fromSources (platform : Platform) (env : Env) (args : List String) : Except String Config := do
  let r ← readEnv platform env (Raw.default platform)
  let r ← readArgs platform args r
  r.config

end Config

end Newt
