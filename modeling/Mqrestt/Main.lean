import Mqrestt.Units

/-!
# `main.c`, and the unit sections of `configuration.c`

`main` reads the unit sections, starts a thread for each enabled unit and waits for all of
them. The threads are entered into a table of fixed size, which the handler of `SIGINT` reads
up to the first zero. Between two steps of `main` the handler can run.
-/

namespace Mqrestt
open CSem

/-! ## The unit sections -/

structure Mqtt2RestSection where
  title : CStr
  webserviceBaseurl : CStr
  mqttTopic : CStr
  enabled : Bool

structure Rest2MqttSection where
  title : CStr
  -- a `long`
  listenPort : Int
  mqttTopicRoot : CStr
  enabled : Bool

/-- A parsed configuration file. libconfuse merges the sections of one kind that have the same title. -/
structure ConfigFile where
  name : List Byte
  common : Configuration
  mqtt2rest : List Mqtt2RestSection
  rest2mqtt : List Rest2MqttSection
  mqtt2restTitles : (mqtt2rest.map (·.title)).Nodup
  rest2mqttTitles : (rest2mqtt.map (·.title)).Nodup

/-- The loop of both functions that read units; `malloc i` is whether there is memory for unit `i`. -/
def readUnits {σ υ : Type} (read : σ → Run υ) (malloc : Nat → Bool) : Nat → List σ → Run (Option (List υ))
  | _, [] => return some []
  | i, sec :: secs =>
    if !malloc i then do
      Proc.emit (.stderr "failed to allocate memory\n" [])
      return none
    else do
      let unit ← read sec
      let units ← readUnits read malloc (i + 1) secs
      return units.map (unit :: ·)

/-- `none` is the result -1. -/
def getUnitconfigs {σ υ : Type} (read : σ → Run υ) (secs : List σ) (maxSize : Nat) (malloc : Nat → Bool) :
    Run (Option (List υ)) :=
  if maxSize < secs.length then do
    Proc.emit (.stderr "config error: configarray too small\n" [])
    return none
  else
    readUnits read malloc 0 secs

def readMqtt2rest (sec : Mqtt2RestSection) : Run Mqtt2RestUnitConfiguration := do
  info "UNIT: %s" [.str (some sec.title.bytes)]
  info "\tURL: %s" [.str (some sec.webserviceBaseurl.bytes)]
  info "\tTOPIC: %s" [.str (some sec.mqttTopic.bytes)]
  return {
    unitName := sec.title
    enabled := sec.enabled
    webserviceBaseurl := sec.webserviceBaseurl
    mqttTopic := sec.mqttTopic
    commonConfiguration := none }

def readRest2mqtt (sec : Rest2MqttSection) : Run Rest2MqttUnitConfiguration := do
  info "UNIT: %s" [.str (some sec.title.bytes)]
  info "\tListen port: %d" [.num sec.listenPort]
  info "\tTOPIC ROOT: %s" [.str (some sec.mqttTopicRoot.bytes)]
  return {
    unitName := sec.title
    enabled := sec.enabled
    listenPort := toCInt sec.listenPort
    mqttTopicRoot := sec.mqttTopicRoot
    commonConfiguration := none }

def getMqtt2restUnitconfigs (file : ConfigFile) (maxSize : Nat) (malloc : Nat → Bool) :
    Run (Option (List Mqtt2RestUnitConfiguration)) :=
  getUnitconfigs readMqtt2rest file.mqtt2rest maxSize malloc

def getRest2mqttUnitconfigs (file : ConfigFile) (maxSize : Nat) (malloc : Nat → Bool) :
    Run (Option (List Rest2MqttUnitConfiguration)) :=
  getUnitconfigs readRest2mqtt file.rest2mqtt maxSize malloc

def maxUnitNum : Nat := 32

structure Units where
  mqtt2rest : List Mqtt2RestUnitConfiguration
  rest2mqtt : List Rest2MqttUnitConfiguration
  found : mqtt2rest.length + rest2mqtt.length ≠ 0
  bounded : mqtt2rest.length + rest2mqtt.length ≤ maxUnitNum

structure LoadEnv where
  mqtt2rest : Nat → Bool
  rest2mqtt : Nat → Bool

def loadUnits (file : ConfigFile) (env : LoadEnv) : Run Units := do
  let ms ← getMqtt2restUnitconfigs file maxUnitNum env.mqtt2rest
  let rs ← getRest2mqttUnitconfigs file maxUnitNum env.rest2mqtt
  match ms, rs with
  | some mqtt2rest, some rest2mqtt =>
    if found : mqtt2rest.length + rest2mqtt.length ≠ 0 then
      if bounded : mqtt2rest.length + rest2mqtt.length ≤ maxUnitNum then
        return { mqtt2rest, rest2mqtt, found, bounded }
      else do
        error "Max number of units/threads (%d) exceeded" [.num maxUnitNum]
        Proc.halt (.exit 1)
    else do
      error "No units found. Please check configuration file %s" [.str (some file.name)]
      Proc.halt (.exit 1)
  | _, _ => fatal "Failed to init unit configs, check config file:" [.str (some file.name)]

/-! ## The threads -/

inductive Job where
  | mqtt2rest (unitconfig : Mqtt2RestUnitConfiguration)
  | rest2mqtt (unitconfig : Rest2MqttUnitConfiguration)
  deriving DecidableEq

def Job.clientId (config : Configuration) : Job → CStr
  | .mqtt2rest unitconfig => (mqtt2restClient unitconfig config).label
  | .rest2mqtt unitconfig => (rest2mqttClient unitconfig config).label

inductive MainPc where
  | mqtt2rest (i : Nat)
  | rest2mqtt (i : Nat)
  | joining (i : Nat)
  | finished
  deriving DecidableEq

structure MainState where
  pc : MainPc
  -- the memory from the start of the table on
  threads : Nat → Tid
  threadcounter : Nat
  -- the threads that were started, in order
  created : List (Tid × Job)

/-- The table is static, so it is zero at the start; what lies behind it is not known. -/
def mainStart (beyond : Nat → Tid) : MainState where
  pc := .mqtt2rest 0
  threads i := if i < maxUnitNum then 0 else beyond i
  threadcounter := 0
  created := []

inductive CreateResult where
  | failed (ret : Int)
  | offered (thread : Tid)

/-- The id of a new thread: the one offered, unless it is zero or that of another thread. -/
def freshTid (created : List (Tid × Job)) (offer : Tid) : Tid :=
  if offer = 0 ∨ offer ∈ created.map Prod.fst then (created.map Prod.fst).foldr max 0 + 1 else offer

def startThread (s : MainState) (job : Job) (res : CreateResult) : Run MainState := do
  match res with
  | .failed ret =>
    Proc.emit (.stderr "Error - pthread_create() return code: %d\n" [.num ret])
    Proc.halt (.exit 1)
  | .offered thread =>
    let t := freshTid s.created thread
    Proc.emit (.write .threads maxUnitNum s.threadcounter)
    Proc.emit (.sys (.pthreadCreate t))
    return { s with
      threads := Function.update s.threads s.threadcounter t
      threadcounter := s.threadcounter + 1
      created := s.created ++ [(t, job)] }

/-- One step of the loops of `main`: one iteration, or the end of a loop. -/
def mainStep (units : Units) (config : Configuration) (s : MainState) (res : CreateResult) : Run MainState :=
  match s.pc with
  | .mqtt2rest i =>
    match units.mqtt2rest[i]? with
    | none => return { s with pc := .rest2mqtt 0 }
    | some u =>
      let s := { s with pc := .mqtt2rest (i + 1) }
      if !u.enabled then return s
      else startThread s (.mqtt2rest { u with commonConfiguration := some config }) res
  | .rest2mqtt i =>
    match units.rest2mqtt[i]? with
    | none => do
      debug "Started %d units" [.num s.threadcounter]
      return { s with pc := .joining 0 }
    | some u =>
      let s := { s with pc := .rest2mqtt (i + 1) }
      if !u.enabled then return s
      else startThread s (.rest2mqtt { u with commonConfiguration := some config }) res
  | .joining i =>
    if i < s.threadcounter then do
      Proc.emit (.read .threads maxUnitNum i)
      Proc.emit (.sys (.pthreadJoin (s.threads i)))
      return { s with pc := .joining (i + 1) }
    else
      return { s with pc := .finished }
  | .finished => return s

/-! ## `handle_signal` -/

inductive Signal where
  | sigusr1
  | sigint
  deriving DecidableEq

structure SignalEnv where
  pidFd : Int
  -- the result of `lockf`
  lockf : Int

def pidFile : String := "/var/lock/mqrestt"

/-- One test of `while (threads[i])`, and the body after it: the next index, or `none` at the end. -/
def killStep (threads : Nat → Tid) (i : Nat) : Run (Option Nat) := do
  Proc.emit (.read .threads maxUnitNum i)
  if threads i ≠ 0 then do
    Proc.emit (.sys (.pthreadKill (threads i)))
    return some (i + 1)
  else
    return none

/-- At most `fuel` rounds; the result is whether the loop has ended. -/
def killThreads (threads : Nat → Tid) : Nat → Nat → Run Bool
  | 0, _ => return false
  | fuel + 1, i => do
    match ← killStep threads i with
    | some i => killThreads threads fuel i
    | none => return true

def handleSignal (sig : Signal) (env : SignalEnv) (threads : Nat → Tid) (fuel : Nat) : Run Bool :=
  match sig with
  | .sigusr1 => return true
  | .sigint => do
    if env.pidFd ≠ -1 then
      if env.lockf = 0 then
        Proc.emit (.stderr "Failed to unlock lockfile\n" [])
      Proc.emit (.sys (.close env.pidFd))
    Proc.emit (.sys (.unlink pidFile))
    killThreads threads fuel 0

end Mqrestt
