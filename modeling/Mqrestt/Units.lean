import Mqrestt.Rest2Mqtt

/-!
# The threads of the units

`mqtt2rest_unit_run` and `rest2mqtt_unit_run`: set up the MQTT client, try to connect,
then poll and dispatch until `poll` fails. A run is given the answers of the libraries
and of the system for each of its iterations. In a REST to MQTT unit the effects of the
access handler carry the request they belong to, all others none.
-/

namespace Mqrestt
open CSem Mqtt

/-! ## What both units set up -/

def clientConfiguration (label : CStr) (topic : Option CStr) (config : Configuration)
    (callbackContext : Option Mqtt2RestUnitConfiguration) (msgCallback : Option MsgCallback) :
    MqttClientConfiguration where
  label := label
  topic := topic
  brokerHost := config.mqttBrokerHost
  brokerPort := config.mqttBrokerPort
  keepalive := config.mqttKeepalive
  tlsEnabled := config.mqttTls
  cafile := config.mqttCafile
  capath := config.mqttCapath
  certfile := config.mqttCertfile
  keyfile := config.mqttKeyfile
  userPwAuthEnabled := config.mqttUserPw
  user := config.mqttUser
  pw := config.mqttPw
  callbackContext := callbackContext
  msgCallback := msgCallback

def mqtt2restClient (unitconfig : Mqtt2RestUnitConfiguration) (config : Configuration) : MqttClientConfiguration :=
  clientConfiguration unitconfig.unitName (some unitconfig.mqttTopic) config (some unitconfig) (some .onMqttMsg)

def rest2mqttClient (unitconfig : Rest2MqttUnitConfiguration) (config : Configuration) : MqttClientConfiguration :=
  clientConfiguration unitconfig.unitName none config none none

def pollTimeout (config : Configuration) : Int := toCInt (config.mqttKeepalive.tdiv 2 * 1000)

/-- A failed `poll` with `EINTR` or without, or the events of the client's descriptor. -/
inductive PollResult where
  | failed (eintr : Bool)
  | ready (pollin pollout : Bool)
  deriving DecidableEq

structure SetupEnv where
  init : InitEnv
  connect : ConnectEnv

/-- The connection check at the head of both loops: whether the iteration goes on. -/
def checkConnection (h : MqttClientHandle) : Run Bool := do
  if !mqttClientConnected h then
    debug "Trying to reconnect..." []
    return mqttClientReconnect h
  return true

def pollFailed (eintr : Bool) : Run Unit :=
  if !eintr then error "Poll() failed with <%s>, exiting" [.errnoText] else pure ()

/-! ## `mqtt2rest_unit_run` -/

structure Mqtt2RestEnv where
  socket : SocketEnv
  poll : PollResult
  loop : LoopEnv

def mqtt2restIteration (w : LongWidth) (timeout : Int) (h : MqttClientHandle) (env : Mqtt2RestEnv) :
    Run (Proc.Flow MqttClientHandle) := do
  if !(← checkConnection h) then return .next h
  let pfd ← mqttClientGetPollfds h env.socket
  Proc.emit (.poll [pfd] timeout)
  match env.poll with
  | .failed eintr => do
    pollFailed eintr
    return .stop h
  | .ready pollin pollout => do
    let h ← mqttClientLoop w h pollin pollout env.loop
    return .next h

/-- The result is the handle and whether the loop has been left. -/
def mqtt2restUnitRun (w : LongWidth) (configdata : Option Mqtt2RestUnitConfiguration) (setup : SetupEnv)
    (envs : List Mqtt2RestEnv) : Run (Proc.Flow MqttClientHandle) :=
  match configdata with
  | none => Proc.halt .assertion
  | some unitconfig => do
    info "Starting thread for unit: %s" [.str (some unitconfig.unitName.bytes)]
    match unitconfig.commonConfiguration with
    | none => Proc.halt .assertion
    | some config => do
      let h ← mqttClientInit (mqtt2restClient unitconfig config) setup.init
      -- the loop is entered whether or not there is a connection
      let (_, h) ← mqttClientConnect h setup.connect
      match ← Proc.loop (mqtt2restIteration w (pollTimeout config)) h envs with
      | .next h => return .next h
      | .stop h => do
        info "Unit thread %s exiting..." [.str (some unitconfig.unitName.bytes)]
        return .stop h

/-! ## `rest2mqtt_unit_run` -/

structure FdsetEnv where
  ret : MhdResult
  max : Int
  rs : Nat → Bool
  ws : Nat → Bool
  es : Nat → Bool

/-- One descriptor of the loop in `get_mhd_pollfds`; `pfds` holds the entries written so far. -/
def mhdPollfd (env : FdsetEnv) (count : Nat) (pfds : List Pollfd) (fd : Nat) : Run (List Pollfd) := do
  if env.rs fd || env.ws fd || env.es fd then
    Proc.emit (.write .pfd count pfds.length)
    let pfds := pfds ++ [{ fd, pollin := env.rs fd, pollout := env.ws fd, pollpri := env.es fd }]
    if count ≤ pfds.length then
      fatal "Not enough pollfd-s allocated for libmicrohttpd!" []
    else
      return pfds
  else
    return pfds

def getMhdPollfds (env : FdsetEnv) (count : Nat) : Run (List Pollfd) :=
  if env.ret ≠ .yes then fatal "Failed to get MHD fdset" []
  else (List.range (env.max + 1).toNat).foldlM (mhdPollfd env count) []

def pfdSize : Nat := 64

structure Rest2MqttEnv (ι : Type) where
  fdset : FdsetEnv
  socket : SocketEnv
  poll : PollResult
  -- the calls of the access handler that `MHD_run` makes
  calls : List (ι × Call)
  loop : LoopEnv

section
variable {ι : Type} [DecidableEq ι]

abbrev UnitProc (ι : Type) := Proc (Option ι × Effect) Halt

def own {α : Type} (p : Run α) : UnitProc ι α := p.mapOut (Prod.mk none)

def handler {α : Type} (p : Proc (ι × Effect) Halt α) : UnitProc ι α := p.mapOut fun e => (some e.1, e.2)

abbrev UnitState (ι : Type) := MqttClientHandle × Server ι

def rest2mqttIteration (w : LongWidth) (req : ι → Request) (timeout : Int) (s : UnitState ι)
    (env : Rest2MqttEnv ι) : UnitProc ι (Proc.Flow (UnitState ι)) := do
  if !(← own (checkConnection s.1)) then return .next s
  let pfds ← own (getMhdPollfds env.fdset pfdSize)
  let pfd ← own (mqttClientGetPollfds s.1 env.socket)
  own (Proc.emit (.write .pfd pfdSize pfds.length))
  own (Proc.emit (.poll (pfds ++ [pfd]) timeout))
  match env.poll with
  | .failed eintr => do
    own (pollFailed eintr)
    return .stop s
  | .ready pollin pollout => do
    let server ← handler (serveAll w s.1 req s.2 env.calls)
    let h ← own (mqttClientLoop w s.1 pollin pollout env.loop)
    return .next (h, server)

def rest2mqttUnitRun (w : LongWidth) (req : ι → Request) (st : Store)
    (configdata : Option Rest2MqttUnitConfiguration) (setup : SetupEnv) (envs : List (Rest2MqttEnv ι)) :
    UnitProc ι (Proc.Flow (UnitState ι)) :=
  match configdata with
  | none => Proc.halt .assertion
  | some unitconfig =>
    match unitconfig.commonConfiguration with
    | none => Proc.halt .assertion
    | some config => do
      own (info "Starting REST->MQTT unit: %s" [.str (some unitconfig.unitName.bytes)])
      let h ← own (mqttClientInit (rest2mqttClient unitconfig config) setup.init)
      let (_, h) ← own (mqttClientConnect h setup.connect)
      own (Proc.emit (.startDaemon (unitconfig.listenPort % 2 ^ 16).toNat))
      match ← Proc.loop (rest2mqttIteration w req (pollTimeout config)) (h, freshServer st) envs with
      | .next s => return .next s
      | .stop s => do
        own (Proc.emit .stopDaemon)
        own (mqttClientDestroy s.1)
        own (info "Unit thread %s exiting..." [.str (some unitconfig.unitName.bytes)])
        return .stop s

/-! ## The array of `struct pollfd`

The same iteration with the array that the code fills and `poll` writes back to. -/

structure PollEntry where
  events : Pollfd
  -- `revents & POLLIN` and `revents & POLLOUT`
  revin : Bool
  revout : Bool

abbrev PollArray := Nat → PollEntry

def storePollfd (env : FdsetEnv) (count : Nat) (s : PollArray × Nat) (fd : Nat) : Run (PollArray × Nat) := do
  if env.rs fd || env.ws fd || env.es fd then
    Proc.emit (.write .pfd count s.2)
    let events : Pollfd := { fd, pollin := env.rs fd, pollout := env.ws fd, pollpri := env.es fd }
    let pfds := Function.update s.1 s.2 { s.1 s.2 with events }
    if count ≤ s.2 + 1 then
      fatal "Not enough pollfd-s allocated for libmicrohttpd!" []
    else
      return (pfds, s.2 + 1)
  else
    return s

def storeMhdPollfds (env : FdsetEnv) (pfds : PollArray) (count : Nat) : Run (PollArray × Nat) :=
  if env.ret ≠ .yes then fatal "Failed to get MHD fdset" []
  else (List.range (env.max + 1).toNat).foldlM (storePollfd env count) (pfds, 0)

def entries (pfd : PollArray) (count : Nat) : List Pollfd := (List.range count).map fun i => (pfd i).events

/-- A failed `poll`, or what it writes to the `revents` of each entry. -/
inductive PollReturn where
  | failed (eintr : Bool)
  | ready (revin revout : Nat → Bool)

structure PollEnv (ι : Type) where
  fdset : FdsetEnv
  socket : SocketEnv
  -- what the stack holds where `pfd` and `mqtt_pfd` are
  pfd : PollArray
  mqttPfd : PollEntry
  poll : PollReturn
  calls : List (ι × Call)
  loop : LoopEnv

def pollIteration (w : LongWidth) (req : ι → Request) (timeout : Int) (s : UnitState ι) (env : PollEnv ι) :
    UnitProc ι (Proc.Flow (UnitState ι)) := do
  if !(← own (checkConnection s.1)) then return .next s
  let (pfd, count) ← own (storeMhdPollfds env.fdset env.pfd pfdSize)
  let events ← own (mqttClientGetPollfds s.1 env.socket)
  own (Proc.emit (.write .pfd pfdSize count))
  let pfd := Function.update pfd count { env.mqttPfd with events }
  let count := count + 1
  own (Proc.emit (.poll (entries pfd count) timeout))
  match env.poll with
  | .failed eintr => do
    own (pollFailed eintr)
    return .stop s
  | .ready revin revout => do
    let pfd : PollArray := fun i => if i < count then { pfd i with revin := revin i, revout := revout i } else pfd i
    let server ← handler (serveAll w s.1 req s.2 env.calls)
    let h ← own (mqttClientLoop w s.1 (pfd (count - 1)).revin (pfd (count - 1)).revout env.loop)
    return .next (h, server)

end

end Mqrestt
