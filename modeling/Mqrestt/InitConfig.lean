import Mqrestt.Configuration
import Mqrestt.Effect

/-!
# `init_config`

The top level options of `configuration.c`. libconfuse is a parameter: whether it makes a
`cfg_t`, what `cfg_parse` returns, and which options the file has set by then. An option that
was not set, or not reached before an error, has its default.
-/

namespace Mqrestt
open CSem

inductive CfgResult where
  | success
  | fileError
  | parseError
  deriving DecidableEq, Repr

/-- What the file sets. The integers are of type `long`. -/
structure CfgOptions where
  logtarget : Option CStr
  logfile : Option CStr
  logfacility : Option CStr
  loglevel : Option CStr
  mqttBrokerHost : Option CStr
  mqttBrokerPort : Option Int
  mqttKeepalive : Option Int
  mqttTls : Option Bool
  mqttCafile : Option CStr
  mqttCapath : Option CStr
  mqttCertfile : Option CStr
  mqttKeyfile : Option CStr
  mqttUserPw : Option Bool
  mqttUser : Option CStr
  mqttPw : Option CStr
  deriving DecidableEq

structure ConfigEnv where
  malloc : Bool
  cfgInit : Bool
  parse : CfgResult
  options : CfgOptions
  -- what `cfg_print` writes
  print : List Byte

/-- For `NULL` in the place of the `cfg_t`, `cfg_parse` returns `CFG_FILE_ERROR`. -/
def ConfigEnv.cfgParse (env : ConfigEnv) : CfgResult := if env.cfgInit then env.parse else .fileError

/-! ## The defaults -/

def defaultLogtarget : CStr := ⟨bytes "stdout", by decide⟩

def defaultLogfile : CStr := ⟨bytes "mgrestt.log", by decide⟩

def defaultLogfacility : CStr := ⟨bytes "local0", by decide⟩

def defaultLoglevel : CStr := ⟨bytes "fatal", by decide⟩

theorem noNul_localhost : 0 ∉ bytes "localhost" := by decide

def defaultBrokerHost : CStr := ⟨bytes "localhost", noNul_localhost⟩

def defaultBrokerPort : Int := 1883

def defaultKeepalive : Int := 30

/-- The default of the CA, the certificate, the key, the user and the password. -/
def placeholder : CStr := ⟨bytes "-----", by decide⟩

/-! ## Reading the options -/

/-- All of the source's `Configuration`: the fields that the units use, and those that `main` uses. -/
structure FullConfiguration extends Configuration where
  appname : CStr
  logtarget : CStr
  logfile : CStr
  logfacility : CStr
  loglevel : CStr
  deriving DecidableEq

/-- `INISECTION` -/
def iniSection : CStr := ⟨bytes "mqrestt:", by decide⟩

/-- An empty string becomes `NULL`. -/
def pathOption (value : Option CStr) : Option CStr :=
  let s := value.getD placeholder
  if s.bytes = [] then none else some s

/-- `cfg` is whether the global is set. -/
def freeConfig (cfg : Bool) : Run Unit := if cfg then pure () else Proc.halt .assertion

def readConfig (o : CfgOptions) : FullConfiguration where
  appname := iniSection
  logtarget := o.logtarget.getD defaultLogtarget
  logfile := o.logfile.getD defaultLogfile
  logfacility := o.logfacility.getD defaultLogfacility
  loglevel := o.loglevel.getD defaultLoglevel
  mqttBrokerHost := o.mqttBrokerHost.getD defaultBrokerHost
  mqttBrokerPort := toCInt (o.mqttBrokerPort.getD defaultBrokerPort)
  mqttKeepalive := toCInt (o.mqttKeepalive.getD defaultKeepalive)
  mqttTls := o.mqttTls.getD false
  mqttCafile := pathOption o.mqttCafile
  mqttCapath := pathOption o.mqttCapath
  mqttCertfile := pathOption o.mqttCertfile
  mqttKeyfile := pathOption o.mqttKeyfile
  mqttUserPw := o.mqttUserPw.getD false
  mqttUser := o.mqttUser.getD placeholder
  mqttPw := o.mqttPw.getD placeholder

def dumpConfig (filepath : CStr) (env : ConfigEnv) : Run Unit := do
  Proc.emit (.stderr "Config dump from file: %s\n\n" [.str (some filepath.bytes)])
  Proc.emit (.stderr "%s" [.str (some env.print)])
  Proc.emit (.stderr "\n\n" [])

def initConfig (filepath : CStr) (dump : Bool) (env : ConfigEnv) : Run (Option FullConfiguration) := do
  -- the result of `cfg_parse` is dropped, only the `cfg_t` is looked at
  if !env.cfgInit then
    Proc.emit (.stderr "cannot parse file: %s\n" [.str (some filepath.bytes)])
    freeConfig env.cfgInit
    return none
  else
    if dump then dumpConfig filepath env
    -- the result of `malloc` is used unchecked
    if !env.malloc then Proc.halt .nullPointer
    else
      let retval := readConfig env.options
      if retval.mqttTls && retval.mqttCafile.isNone && retval.mqttCapath.isNone then
        Proc.emit (.stderr "config error: either mqtt_cafile or mqtt_capath need to be set!\n" [])
        freeConfig env.cfgInit
        return none
      else
        return some retval

/-- What `main` does with the result. -/
def loadConfig (filepath : CStr) (dump : Bool) (env : ConfigEnv) : Run FullConfiguration := do
  match ← initConfig filepath dump env with
  | none => do
    Proc.emit (.stderr "CONFIG ERROR in %s, EXITING!\n" [.str (some filepath.bytes)])
    Proc.halt (.exit 1)
  | some config => return config

end Mqrestt
