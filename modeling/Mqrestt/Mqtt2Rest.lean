import Mqrestt.Configuration
import Mqrestt.Effect
import Mqrestt.Lib.Topic

/-!
# `mqtt2rest_unit.c`: from a message to a POST

`rest_post` assembles the URL in a buffer of fixed size on the stack. Its accesses
go where the code points them, and each is recorded with its offset.
-/

namespace Mqrestt
open CSem Mqtt

def urlMaxSize : Nat := 2048

structure CurlEnv where
  init : Bool
  perform : CurlCode
  -- the bytes at and around `full_url` before the first store
  stack : Mem
  -- how many bytes from `full_url` on can be read: those of the array at least
  mapped : Nat
  covers : urlMaxSize ≤ mapped

/-- The request made with these options set. Without `CURLOPT_POSTFIELDSIZE` libcurl takes the
body up to the first NUL. -/
def curlRequest (url : List Byte) (customRequest : Option String) (postFields : Option (List Byte)) :
    HttpRequest where
  method := customRequest.getD (if postFields.isSome then "POST" else "GET")
  url := url
  body := (postFields.map cstr).getD []

def postRequest (url : List Byte) : Option (List Byte) → HttpRequest
  | none => curlRequest url (some "POST") none
  | some payload => curlRequest url none (some payload)

def toSizeT (w : LongWidth) (n : Int) : Nat := (n % 2 ^ w.bits).toNat

def appendSlash (m : Mem) (len : Int) : Run Mem := do
  Proc.emit (.read .fullUrl urlMaxSize (len - 1))
  if m (len - 1) ≠ slash then
    debug "Need to append a '/'" []
    Proc.emits (writes .fullUrl urlMaxSize [(len, slash), (len + 1, 0)])
    return applyStores m [(len, slash), (len + 1, 0)]
  return m

def fullUrl (w : LongWidth) (config : Mqtt2RestUnitConfiguration) (url : List Byte) (env : CurlEnv) :
    Run Mem := do
  let base := config.webserviceBaseurl.bytes
  let len := toCInt base.length
  let copied := strncpy 0 base (urlMaxSize - 1)
  Proc.emits (writes .fullUrl urlMaxSize copied)
  let m ← appendSlash (applyStores env.stack copied) len
  let stored := strncat m env.mapped 0 url (toSizeT w (toCInt (urlMaxSize - len - 1)))
  Proc.emits (reads .fullUrl urlMaxSize (scanReads m env.mapped 0))
  Proc.emits (writes .fullUrl urlMaxSize stored)
  return applyStores m stored

def restPost (w : LongWidth) (config : Mqtt2RestUnitConfiguration) (url : List Byte)
    (payload : Option (List Byte)) (env : CurlEnv) : Run Int := do
  debug "len url: %d" [.num (cstr url).length]
  let m ← fullUrl w config url env
  let full := scan m env.mapped 0
  info "FULL URL: %s" [.str (some full)]
  if env.init then
    Proc.emit (.perform (postRequest full payload) env.perform)
    if env.perform ≠ .ok then
      error "curl_easy_perform() failed: %s" [.curlStrerror env.perform]
      return -1
  return 0

/-- The topic with the base topic chopped off, by advancing the pointer. -/
def urlOf (mqttTopic : CStr) (topic : CStrAt) : List Byte := topic.mem.drop (mqttTopic.bytes.length + 1)

def onMqttMsg (w : LongWidth) (topic : CStrAt) (msg : Option (List Byte))
    (ctx : Option Mqtt2RestUnitConfiguration) (env : CurlEnv) : Run Unit := do
  info "Got MQTT msg on topic %s" [.str (some topic.str.bytes)]
  match ctx with
  | none => Proc.halt .nullPointer
  | some unitconfig =>
    let url := urlOf unitconfig.mqttTopic topic
    if let some m := msg then
      debug "Payload: %s" [.str (some (cstr m))]
    let _ ← restPost w unitconfig url msg env

end Mqrestt
