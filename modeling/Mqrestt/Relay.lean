import Mqrestt.Lib.Product
import Mqrestt.PollSound
import Mqrestt.RequestSound
import Mqrestt.ServerSound

/-!
# The units as they are meant

The REST to MQTT server without its heap: each request has its own phase, a call
moves the phase of its own request only, and all that is seen of a server from
outside are messages and answers. The MQTT to REST unit without its URL buffer: each
event of libmosquitto becomes a subscription, a POST or nothing. Around them the two
threads without handles, poll sets and log lines. This is no translation of the
source; the units of the source are compared with it.
-/

namespace Mqrestt
open CSem Mqtt

/-- What the broker, the HTTP peers and the two libraries see of the program. -/
def Effect.external? : Effect → Option Effect
  | .publish p => some (.publish p)
  | .queueResponse r => some (.queueResponse r)
  | .perform req res => some (.perform req res)
  | .connect host port keepalive rc => some (.connect host port keepalive rc)
  | .subscribe filter qos => some (.subscribe filter qos)
  | .startDaemon port => some (.startDaemon port)
  | .stopDaemon => some .stopDaemon
  | .destroy => some .destroy
  | .mosquittoNew id => some (.mosquittoNew id)
  | _ => none

def external? {κ : Type} (e : κ × Effect) : Option (κ × Effect) := e.2.external?.map (Prod.mk e.1)

def okResponse : Response := ⟨mhdHttpOk, "text/html", bytes "OK" ++ [0]⟩

def relayPost (w : LongWidth) (r : Request) : Phase → Call → Run Phase
  | .idle, c => if c.granted then pure (.receiving []) else Proc.halt (.exit 1)
  | .receiving b, c =>
    if c.chunk ≠ [] then
      if c.granted then pure (.receiving (b ++ c.chunk)) else Proc.halt (.exit 1)
    else
      match mhdLookupConnectionValue r.qos with
      | none => Proc.halt (.nullString .strtol)
      | some v =>
        if b = [] then Proc.halt (.nullString .strlen)
        else do
          Proc.emit (.publish ⟨topicOf r, handedOver b, qosOf w v, c.env.publish⟩)
          Proc.emit (.queueResponse okResponse)
          return .finished b
  | .finished b, _ => pure (.finished b)

def relayCall (w : LongWidth) (r : Request) (ph : Phase) (c : Call) : Run Phase :=
  if r.method = postMethod then relayPost w r ph c else pure ph

section
variable {ι : Type} [DecidableEq ι] (w : LongWidth) (req : ι → Request)

def relay : (ι → Phase) → ι × Call → Proc (ι × Effect) Halt (ι → Phase) := Proc.product fun i => relayCall w (req i)

def relayAll (es : List (ι × Call)) : Proc (ι × Effect) Halt (ι → Phase) := es.foldlM (relay w req) fun _ => .idle

end

/-! ## The client of a unit -/

/-- The results of the attempts to connect: up to the first success, three at most. -/
def attempts (rc : Nat → MosqErr) : List MosqErr :=
  let rcs := (List.range 3).map rc
  rcs.take (rcs.findIdx (· = .success) + 1)

def openClient (config : MqttClientConfiguration) (setup : SetupEnv) : Run Unit := do
  Proc.emit (.mosquittoNew config.label.bytes)
  if !setup.init.mosquittoNew then Proc.halt (.exit 1)
  else if !setup.init.malloc then Proc.halt .nullPointer
  else if config.tlsEnabled ∧ setup.connect.tlsSet ≠ .success then Proc.halt (.exit 1)
  else if config.userPwAuthEnabled ∧ setup.connect.usernamePwSet ≠ .success then Proc.halt (.exit 1)
  else Proc.emits ((attempts setup.connect.connect).map
    (.connect config.brokerHost.bytes config.brokerPort config.keepalive))

/-- The events that libmosquitto reports in one round, in the order of the calls that report them. -/
def loopEvents (pollin pollout : Bool) (env : LoopEnv) : List MosqEvent :=
  (if pollout then env.write.events else []) ++ (if pollin then env.read.events else []) ++ env.misc.events

def PollResult.isReady : PollResult → Bool
  | .ready .. => true
  | .failed _ => false

def PollResult.events (poll : PollResult) (env : LoopEnv) : List MosqEvent :=
  match poll with
  | .ready pollin pollout => loopEvents pollin pollout env
  | .failed _ => []

/-! ## From messages to POSTs -/

/-- The URL of a topic: the base URL, a slash, and as much of the rest of the topic as the buffer has room for. -/
def forwardUrl (u : Mqtt2RestUnitConfiguration) (topic : CStrAt) : List Byte :=
  joinSlash u.webserviceBaseurl.bytes
    ((cstr (urlOf u.mqttTopic topic)).take (urlMaxSize - 1 - u.webserviceBaseurl.bytes.length))

def forwardEvent (u : Mqtt2RestUnitConfiguration) : MosqEvent → Run Unit
  | .connect result =>
    let filter := u.mqttTopic.bytes ++ bytes "/#"
    if maxTopicLength ≤ snprintfResult filter then Proc.halt (.exit 1)
    else if result = 0 then Proc.emit (.subscribe (filter.take (maxTopicLength - 1)) 2)
    else pure ()
  | .message msg env =>
    if env.init then Proc.emit (.perform ⟨"POST", forwardUrl u msg.topic, cstr msg.payload⟩ env.perform) else pure ()
  | .log .other _ => Proc.halt (.exit 1)
  | _ => pure ()

/-- The events of all rounds up to the first `poll` that failed. -/
def reported (envs : List Mqtt2RestEnv) : List MosqEvent :=
  (envs.takeWhile fun env => env.poll.isReady).flatMap fun env => env.poll.events env.loop

def forwardUnit (configdata : Option Mqtt2RestUnitConfiguration) (setup : SetupEnv) (envs : List Mqtt2RestEnv) :
    Run Unit :=
  match configdata with
  | none => Proc.halt .assertion
  | some u =>
    match u.commonConfiguration with
    | none => Proc.halt .assertion
    | some config => do
      openClient (mqtt2restClient u config) setup
      (reported envs).forM (forwardEvent u)

/-! ## From requests to messages -/

section
variable {ι : Type} [DecidableEq ι] (w : LongWidth) (req : ι → Request)

/-- A REST to MQTT unit has no use for the events of libmosquitto; a log line of an unknown level ends it. -/
def ignoreEvent : MosqEvent → Run Unit
  | .log .other _ => Proc.halt (.exit 1)
  | _ => pure ()

def relayRound (phs : ι → Phase) (env : Rest2MqttEnv ι) : UnitProc ι (Proc.Flow (ι → Phase)) :=
  if env.fdset.ret ≠ .yes ∨ pfdSize ≤ (mhdPart env.fdset).length then Proc.halt (.exit 1)
  else
    match env.poll with
    | .failed _ => pure (.stop phs)
    | .ready pollin pollout => do
      let phs ← handler (env.calls.foldlM (relay w req) phs)
      own ((loopEvents pollin pollout env.loop).forM ignoreEvent)
      return .next phs

def relayUnit (configdata : Option Rest2MqttUnitConfiguration) (setup : SetupEnv) (envs : List (Rest2MqttEnv ι)) :
    UnitProc ι (Proc.Flow (ι → Phase)) :=
  match configdata with
  | none => Proc.halt .assertion
  | some u =>
    match u.commonConfiguration with
    | none => Proc.halt .assertion
    | some config => do
      own (openClient (rest2mqttClient u config) setup)
      own (Proc.emit (.startDaemon (u.listenPort % 2 ^ 16).toNat))
      match ← Proc.loop (relayRound w req) (fun _ => .idle) envs with
      | .next phs => return .next phs
      | .stop phs => do
        own (Proc.emits [.stopDaemon, .destroy])
        return .stop phs

end

end Mqrestt
