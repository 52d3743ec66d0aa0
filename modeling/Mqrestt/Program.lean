import Mqrestt.Daemon
import Mqrestt.InitConfig
import Mqrestt.Logging
import Mqrestt.Shutdown

/-!
# The whole of `main`

From the command line to the return value: the options, `daemonize`, the configuration,
`log_init`, the unit sections, then the threads in any interleaving, and at last the clean-up.
What the libraries and the system answer is a parameter, and so is the list of options that
`getopt_long` makes of the command line.
-/

namespace Mqrestt
open CSem

inductive ProgramEffect where
  | did (e : Effect)
  | daemon (c : DaemonCall)
  | stdout (format : String) (args : List LogArg)
  | openlog (ident : String) (facility : Int)
  | fopen (path : List Byte) (mode : String) (opened : Bool)
  | fclose
  | mosquittoLibInit
  | mosquittoLibCleanup
  | freeUnits
  | freeConfig
  deriving DecidableEq, Repr

abbrev ProgramRun := Proc ProgramEffect Halt

def did {α : Type} (p : Run α) : ProgramRun α := p.mapOut .did

/-! ## The command line -/

inductive Opt where
  | configfile (optarg : CStr)
  | daemon
  | dump
  | help
  | version
  -- `?`
  | unknown

structure Versions where
  major : Int
  minor : Int
  revision : Int
  mosquitto : Int
  curl : CStr
  mhd : CStr
  confuse : CStr

def printHelp (appName : CStr) : Run Unit :=
  Proc.emits [
    .stderr "\nUsage: %s [OPTIONS]\n\n" [.str (some appName.bytes)],
    .stderr "Options:\n" [],
    .stderr "   -h --help                 Print this help\n" [],
    .stderr "   -v --version              Print version info\n" [],
    .stderr "   -c --configfile filename  Read configuration from the file\n" [],
    .stderr "   -d --daemon               Daemonize this application\n" [],
    .stderr "   -p --dump                 Dump the parsed config to stderr and continue running\n" [],
    .stderr "\n" []]

def printVersion (v : Versions) : Run Unit :=
  Proc.emits [
    .stderr "mqrestt version: %s\n" [.str (some (bytes "0.2~"))],
    .stderr "Libmosquitto version: %d.%d-%d (%d)\n" [.num v.major, .num v.minor, .num v.revision, .num v.mosquitto],
    .stderr "Libcurl version: %s\n" [.str (some v.curl.bytes)],
    .stderr "Libmicrohttpd version: %s\n" [.str (some v.mhd.bytes)],
    .stderr "Libconfuse version: %s\n" [.str (some v.confuse.bytes)]]

structure Options where
  confFileName : CStr
  startDaemonized : Bool
  dumpConfig : Bool

/-- One round of the loop over the options. -/
def optionStep (appName : CStr) (v : Versions) (o : Options) : Opt → Run Options
  | .configfile optarg => return { o with confFileName := optarg }
  | .daemon => return { o with startDaemonized := true }
  | .dump => return { o with dumpConfig := true }
  | .help => do
    printHelp appName
    Proc.halt (.exit 0)
  | .version => do
    printVersion v
    Proc.halt (.exit 0)
  | .unknown => do
    printHelp appName
    Proc.halt (.exit 1)

def defaultConfFileName : CStr := ⟨bytes "mqrestt.conf", by decide⟩

/-- `mqresttConfig` is the variable of the environment. -/
def readOptions (appName : CStr) (v : Versions) (mqresttConfig : Option CStr) (opts : List Opt) : Run Options := do
  let confFileName ← match mqresttConfig with
    | none => pure defaultConfFileName
    | some s => do
      Proc.emit (.stderr "Getting config path from env, %s\n" [.str (some s.bytes)])
      pure s
  opts.foldlM (optionStep appName v) { confFileName, startDaemonized := false, dumpConfig := false }

/-! ## `log_init` and `log_finalize` -/

structure LogState where
  -- `none` is `NULL`
  logPrint : Option LogTarget
  loglevel : Nat
  -- whether there is a log file
  logfile : Bool
  deriving DecidableEq

structure LogInitEnv where
  fopen : Bool
  -- the table in `syslog.h`
  facilitynames : List (List Byte × Int)

def logLocal0 : Int := 128

def logLookupSyslogFacility (facilitynames : List (List Byte × Int)) (name : CStr) : ProgramRun Int :=
  match facilitynames.find? fun f => f.1 = name.bytes with
  | none => return logLocal0
  | some f => do
    Proc.emit (.stdout "found facility: %s, code: %d\n" [.str (some f.1), .num f.2])
    return f.2

/-- The result, and what is set. A target that is not known sets no function, and is no error. -/
def logInit (config : FullConfiguration) (env : LogInitEnv) : ProgramRun (Int × LogState) := do
  let loglevel ← did (logLookupLoglevel config.loglevel)
  if config.logtarget.bytes = bytes "stdout" then
    return (0, ⟨some .console, loglevel, false⟩)
  else if config.logtarget.bytes = bytes "syslog" then do
    let facility ← logLookupSyslogFacility env.facilitynames config.logfacility
    Proc.emit (.openlog "mqrestt" facility)
    return (0, ⟨some .syslog, loglevel, false⟩)
  else if config.logtarget.bytes = bytes "file" then do
    Proc.emit (.fopen config.logfile.bytes "a+" env.fopen)
    if !env.fopen then
      did (Proc.emit (.stderr "Opening logfile %s failed: %s\n" [.str (some config.logfile.bytes), .errnoText]))
      return (-1, ⟨none, loglevel, false⟩)
    else
      return (0, ⟨some .file, loglevel, true⟩)
  else
    return (0, ⟨none, loglevel, false⟩)

def logFinalize (l : LogState) : ProgramRun LogState := do
  if l.logfile then
    Proc.emit .fclose
  return { l with logfile := false }

/-- The first line of the log is the first call of `log_print`. -/
def logStarted (l : LogState) (pid : Nat) (confFileName : CStr) : ProgramRun Unit :=
  match l.logPrint with
  | none => Proc.halt .nullPointer
  | some _ => did (info "mqrestt started, pid: %d, config file: %s" [.num pid, .str (some confFileName.bytes)])

/-! ## `main` -/

structure ProgramEnv where
  appName : CStr
  versions : Versions
  mqresttConfig : Option CStr
  opts : List Opt
  daemon : DaemonEnv
  fds : Fds OpenFile
  config : ConfigEnv
  log : LogInitEnv
  pid : Nat
  file : ConfigFile
  load : LoadEnv
  beyond : Nat → Tid

def ProgramEnv.configFile (env : ProgramEnv) (confFileName : CStr) : ConfigFile :=
  { env.file with name := confFileName.bytes }

/-- `main` up to the unit sections. -/
def startUp (env : ProgramEnv) : ProgramRun (CStr × FullConfiguration × LogState) := do
  let o ← did (readOptions env.appName env.versions env.mqresttConfig env.opts)
  if o.startDaemonized then
    let _ ← (daemonize env.daemon env.fds).mapOut .daemon
  let config ← did (loadConfig o.confFileName o.dumpConfig env.config)
  let (ret, l) ← logInit config env.log
  if ret ≠ 0 then
    did (Proc.emit (.stderr "Failed to init logging from config file: %s, exiting\n" [.str (some o.confFileName.bytes)]))
    Proc.halt (.exit 1)
  else do
    logStarted l env.pid o.confFileName
    Proc.emit .mosquittoLibInit
    return (o.confFileName, config, l)

def cleanUp {α : Type} (l : LogState) : ProgramRun α := do
  Proc.emit .freeUnits
  Proc.emit .freeConfig
  Proc.emit .mosquittoLibCleanup
  let _ ← logFinalize l
  did (info "bye" [])
  Proc.halt (.exit 0)

section
variable {ι : Type} [DecidableEq ι]

/-- The state is that of the process after the steps taken, if `main` has not returned. -/
def program (world : World ι) (env : ProgramEnv) (acts : List (Act ι)) : ProgramRun (Process ι) := do
  let (confFileName, config, l) ← startUp env
  let units ← did (loadUnits (env.configFile confFileName) env.load)
  let s ← did (acts.foldlM (Process.step world units config.toConfiguration) (Process.start world env.beyond))
  if s.main.pc = .finished then cleanUp l else return s

end

end Mqrestt
