import Mqrestt.Lib.Mem

/-!
# `configuration.h`
-/

namespace Mqrestt
open CSem

structure Configuration where
  mqttBrokerHost : CStr
  mqttBrokerPort : Int
  mqttKeepalive : Int
  mqttTls : Bool
  mqttCafile : Option CStr
  mqttCapath : Option CStr
  mqttCertfile : Option CStr
  mqttKeyfile : Option CStr
  mqttUserPw : Bool
  mqttUser : CStr
  mqttPw : CStr
  deriving DecidableEq

structure Mqtt2RestUnitConfiguration where
  unitName : CStr
  enabled : Bool
  webserviceBaseurl : CStr
  mqttTopic : CStr
  commonConfiguration : Option Configuration
  deriving DecidableEq

structure Rest2MqttUnitConfiguration where
  unitName : CStr
  enabled : Bool
  listenPort : Int
  mqttTopicRoot : CStr
  commonConfiguration : Option Configuration
  deriving DecidableEq

end Mqrestt
