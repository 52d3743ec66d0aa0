import Mqrestt.Lib.Format
import Mqrestt.Mqtt2Rest

/-!
# `mqtt_client.c`

The handle over a libmosquitto client, and the callbacks libmosquitto makes. What
the library does is a parameter of each operation: the result code of every call,
and the callbacks it makes before it returns.
-/

namespace Mqrestt
open CSem Mqtt

def maxTopicLength : Nat := 256

inductive MsgCallback where
  | onMqttMsg
  deriving DecidableEq

structure MqttClientConfiguration where
  label : CStr
  topic : Option CStr
  brokerHost : CStr
  brokerPort : Int
  keepalive : Int
  tlsEnabled : Bool
  cafile : Option CStr
  capath : Option CStr
  certfile : Option CStr
  keyfile : Option CStr
  userPwAuthEnabled : Bool
  user : CStr
  pw : CStr
  callbackContext : Option Mqtt2RestUnitConfiguration
  msgCallback : Option MsgCallback
  deriving DecidableEq

structure MqttClientHandle where
  config : MqttClientConfiguration
  connected : Bool
  deriving DecidableEq

/-! ## Callbacks -/

structure MosqMessage where
  topic : CStrAt
  payload : List Byte
  -- the memory behind the NUL that the library stores after the payload
  beyond : List Byte

/-- `msg->payload`: `NULL` for an empty payload. -/
def MosqMessage.payloadPtr (m : MosqMessage) : Option (List Byte) :=
  if m.payload = [] then none else some (m.payload ++ 0 :: m.beyond)

inductive MosqLogLevel where
  | debug
  | info
  | notice
  | warning
  | err
  | other
  deriving DecidableEq

def mqttCbMsg (w : LongWidth) (config : MqttClientConfiguration) (msg : MosqMessage) (env : CurlEnv) :
    Run Unit :=
  match config.msgCallback with
  | some .onMqttMsg => onMqttMsg w msg.topic msg.payloadPtr config.callbackContext env
  | none => pure ()

def mqttCbSubscribe (config : MqttClientConfiguration) (mid qos : Int) (more : List Int) : Run Unit := do
  info "Unit [%s]: Subscribed to topic [%s] (mid: %d): %d"
    [.str (some config.label.bytes), .str (config.topic.map (·.bytes)), .num mid, .num qos]
  more.forM fun q => info "\t %d" [.num q]

def mqttCbDisconnect (config : MqttClientConfiguration) (rc : MosqErr) : Run Unit :=
  warning "Unit [%s] MQTT disconnect, error: %d: %s"
    [.str (some config.label.bytes), .num rc.code, .mosqStrerror rc]

def mqttCbLog (config : MqttClientConfiguration) (level : MosqLogLevel) (str : List Byte) : Run Unit :=
  let args : List LogArg := [.str (some config.label.bytes), .str (some str)]
  match level with
  | .debug => debug "Unit [%s]: %s" args
  | .info | .notice => info "Unit [%s]: %s" args
  | .warning => warning "Unit [%s]: %s" args
  | .err => error "Unit [%s]: %s" args
  | .other => fatal "Unknown MOSQ loglevel!" []

def mqttCbConnect (config : MqttClientConfiguration) (result : Int) : Run Unit := do
  debug "MQTT connect, UNIT: %s" [.str (some config.label.bytes)]
  match config.topic with
  | none => pure ()
  | some topic =>
    let text := topic.bytes ++ bytes "/#"
    -- the result of `snprintf` is an `int`, and -1 for a text that is too long for one
    if maxTopicLength ≤ snprintfResult text then
      fatal "Topic length in config is too long, the max is %d" [.num maxTopicLength]
    else if result = 0 then
      -- `buffer` holds as much of the text as there is room for
      Proc.emit (.subscribe (text.take (maxTopicLength - 1)) 2)
    else
      warning "MQTT Connect failed\n" []

inductive MosqEvent where
  | connect (result : Int)
  | message (msg : MosqMessage) (env : CurlEnv)
  | subscribe (mid qos : Int) (more : List Int)
  | disconnect (rc : MosqErr)
  | log (level : MosqLogLevel) (str : List Byte)

def callback (w : LongWidth) (config : MqttClientConfiguration) : MosqEvent → Run Unit
  | .connect result => mqttCbConnect config result
  | .message msg env => mqttCbMsg w config msg env
  | .subscribe mid qos more => mqttCbSubscribe config mid qos more
  | .disconnect rc => mqttCbDisconnect config rc
  | .log level str => mqttCbLog config level str

/-! ## Operations on the handle -/

structure InitEnv where
  malloc : Bool
  mosquittoNew : Bool

def mqttClientInit (config : MqttClientConfiguration) (env : InitEnv) : Run MqttClientHandle := do
  Proc.emit (.mosquittoNew config.label.bytes)
  if !env.mosquittoNew then fatal "Error: Out of memory.\n" []
  -- the result of `malloc` is used unchecked
  else if !env.malloc then Proc.halt .nullPointer
  else pure { config, connected := false }

structure ConnectEnv where
  tlsSet : MosqErr
  usernamePwSet : MosqErr
  -- the result of each attempt of `mosquitto_connect`
  connect : Nat → MosqErr

/-- `while (count--)`, from attempt `k` on. -/
def connectLoop (h : MqttClientHandle) (rc : Nat → MosqErr) : (count k : Nat) → Run MqttClientHandle
  | 0, _ => pure h
  | count + 1, k => do
    Proc.emit (.connect h.config.brokerHost.bytes h.config.brokerPort h.config.keepalive (rc k))
    if rc k ≠ .success then
      error "Unable to connect, host: %s, port: %d, error: %s"
        [.str (some h.config.brokerHost.bytes), .num h.config.brokerPort, .mosqStrerror (rc k)]
      Proc.emit (.sleep 2)
      connectLoop h rc count (k + 1)
    else
      pure { h with connected := true }

def setUpTls (config : MqttClientConfiguration) (tlsSet : MosqErr) : Run Unit := do
  if config.tlsEnabled then
    info "Enable MQTT TLS support" []
    if tlsSet ≠ .success then
      fatal "Failed to set up TLS, check config!" []

def setUpUserPw (config : MqttClientConfiguration) (usernamePwSet : MosqErr) : Run Unit := do
  if config.userPwAuthEnabled then
    if usernamePwSet ≠ .success then
      fatal "Failed to set up username/password, check config!" []

def mqttClientConnect (h : MqttClientHandle) (env : ConnectEnv) : Run (Bool × MqttClientHandle) := do
  setUpTls h.config env.tlsSet
  setUpUserPw h.config env.usernamePwSet
  let h ← connectLoop h env.connect 3 0
  return (h.connected, h)

def mqttClientConnected (h : MqttClientHandle) : Bool := h.connected

def mqttClientReconnect (_h : MqttClientHandle) : Bool := true

/-- `strlen(msg)`, passed on as an `int`. -/
def payloadlen (msg : List Byte) : Int := toCInt (cstr msg).length

/-- What `mosquitto_publish` takes of `msg`: `payloadlen` bytes, none if that is negative. -/
def handedOver (msg : List Byte) : List Byte := (cstr msg).take (payloadlen msg).toNat

def mqttClientPublish (_h : MqttClientHandle) (topic : List Byte) (msg : Option (List Byte)) (qos : Int)
    (rc : MosqErr) : Run Bool := do
  -- `topic + 1`, whatever the first character is
  info "Publishing on topic %s" [.str (some (cstr (topic.drop 1)))]
  match msg with
  | none => Proc.halt (.nullString .strlen)
  | some m =>
    Proc.emit (.publish { topic := cstr (topic.drop 1), payload := handedOver m, qos, rc })
    if rc ≠ .success then
      warning "Failed to publish, reason:  %s" [.mosqStrerror rc]
    return rc = .success

structure SocketEnv where
  fd : Int
  wantWrite : Bool

def mqttClientGetPollfds (h : MqttClientHandle) (env : SocketEnv) : Run Pollfd := do
  Proc.emit (.socket h.connected)
  return { fd := env.fd, pollin := true, pollout := env.wantWrite, pollpri := false }

structure LibCall where
  events : List MosqEvent
  rc : MosqErr

def libCall (w : LongWidth) (config : MqttClientConfiguration) (effect : MosqErr → Effect) (c : LibCall) :
    Run MosqErr := do
  c.events.forM (callback w config)
  Proc.emit (effect c.rc)
  return c.rc

structure LoopEnv where
  write : LibCall
  read : LibCall
  misc : LibCall

def loopCall (w : LongWidth) (config : MqttClientConfiguration) (wanted : Bool) (effect : MosqErr → Effect)
    (c : LibCall) (ret : MosqErr) : Run MosqErr :=
  if wanted then libCall w config effect c else pure ret

def mqttClientLoop (w : LongWidth) (h : MqttClientHandle) (read write : Bool) (env : LoopEnv) :
    Run MqttClientHandle := do
  let ret ← loopCall w h.config write .loopWrite env.write .success
  let ret ← loopCall w h.config read .loopRead env.read ret
  -- one variable for both calls: a loss that the write reported is gone once the read has returned
  let h := if ret = .connLost ∨ ret = .noConn then { h with connected := false } else h
  let _ ← libCall w h.config .loopMisc env.misc
  return h

inductive HandleOp where
  | connect (env : ConnectEnv)
  | publish (topic : List Byte) (msg : Option (List Byte)) (qos : Int) (rc : MosqErr)
  | loop (read write : Bool) (env : LoopEnv)

def HandleOp.exec (w : LongWidth) (h : MqttClientHandle) : HandleOp → Run MqttClientHandle
  | .connect env => do
    let (_, h) ← mqttClientConnect h env
    return h
  | .publish topic msg qos rc => do
    let _ ← mqttClientPublish h topic msg qos rc
    return h
  | .loop read write env => mqttClientLoop w h read write env

def mqttClientDestroy (_h : MqttClientHandle) : Run Unit := Proc.emit .destroy

end Mqrestt
