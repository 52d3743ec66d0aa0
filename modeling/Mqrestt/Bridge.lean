import Mqrestt.RequestSound
import Mqrestt.ServerSound
import Mqrestt.PostSound

/-!
# The two directions together

What becomes of a payload on its way through either unit, and what a request becomes
that goes through both.
-/

namespace Mqrestt
open CSem Mqtt

/-! ## Payloads -/

/-- The message becomes one POST with its payload, and the URL is put together inside its buffer. -/
def PostedAsIs (w : LongWidth) (u : Mqtt2RestUnitConfiguration) (config : Configuration) (msg : MosqMessage)
    (env : CurlEnv) : Prop :=
  StaysInside w u (urlOf u.mqttTopic msg.topic) ∧
    ∃ req rc, performs (mqttCbMsg w (mqtt2restClient u config) msg env).out = [(req, rc)] ∧
      req.method = "POST" ∧ req.body = msg.payload

def PublishedAsIs (w : LongWidth) (cls : MqttClientHandle) (r : Request) (st : Store) (cs : List Call)
    (b : List Byte) : Prop :=
  ∃ p, publishes (answerCalls w cls r st cs).out = [p] ∧ p.payload = b

theorem performs_message (w : LongWidth) (u : Mqtt2RestUnitConfiguration) (msg : MosqMessage) (env : CurlEnv) :
    performs (onMqttMsg w msg.topic msg.payloadPtr (some u) env).out =
      if env.init then
        [(⟨"POST", urlString w u (urlOf u.mqttTopic msg.topic) env, cstr msg.payload⟩, env.perform)]
      else [] := by
  rw [performs_onMqttMsg, postRequest_payload]

theorem postedAsIs_iff (w : LongWidth) (u : Mqtt2RestUnitConfiguration) (config : Configuration) (msg : MosqMessage)
    (env : CurlEnv) : PostedAsIs w u config msg env ↔
      FitsBuffer u.webserviceBaseurl.bytes (cstr (urlOf u.mqttTopic msg.topic)) ∧ env.init = true ∧ 0 ∉ msg.payload := by
  have hout : performs (mqttCbMsg w (mqtt2restClient u config) msg env).out = _ := performs_message w u msg env
  unfold PostedAsIs
  rw [hout, ← cstr_eq_self_iff]
  refine and_congr ⟨StaysInside.fits w _, staysInside_of_fits w _⟩ ?_
  by_cases hi : env.init = true
  · rw [if_pos hi]
    constructor
    · intro h
      obtain ⟨req, rc, heq, _, hb⟩ := h
      obtain ⟨rfl, _⟩ := Prod.mk.inj (List.singleton_inj.mp heq)
      exact ⟨hi, hb⟩
    · intro h
      exact ⟨_, _, rfl, rfl, h.2⟩
  · rw [if_neg hi]
    constructor
    · intro h
      obtain ⟨_, _, heq, _⟩ := h
      cases heq
    · intro h
      exact absurd h.1 hi

section
variable (w : LongWidth) (cls : MqttClientHandle) {r : Request} (hm : r.method = postMethod) (st : Store)
  (first : Call) {cs : List Call} (hcs : ∀ c ∈ cs, c.chunk ≠ []) {last : Call} (hlast : last.chunk = [])
include hm hcs hlast

theorem publishedAsIs_iff :
    PublishedAsIs w cls r st (first :: cs ++ [last]) (bodyOf cs) ↔
      (∀ c ∈ first :: cs, c.granted = true) ∧ (mhdLookupConnectionValue r.qos).isSome = true ∧
        bodyOf cs ≠ [] ∧ 0 ∉ bodyOf cs ∧ (bodyOf cs).length < 2 ^ 31 := by
  rw [ne_eq, bodyOf_eq_nil hcs, ← ne_eq, ← handedOver_eq_iff]
  unfold PublishedAsIs
  by_cases h : (∀ c ∈ first :: cs, c.granted = true) ∧ (mhdLookupConnectionValue r.qos).isSome = true ∧ cs ≠ []
  · obtain ⟨hg, hq, hne⟩ := h
    obtain ⟨v, hv⟩ := Option.isSome_iff_exists.mp hq
    obtain ⟨out, s, hrun, hpub, _⟩ := answerCalls_complete w cls hm st first hcs hlast hg hv hne
    rw [hrun, hpub]
    constructor
    · intro hp
      obtain ⟨p, heq, hb⟩ := hp
      rw [← List.singleton_inj.mp heq] at hb
      dsimp only at hb
      exact ⟨hg, hq, hne, hb⟩
    · intro hb
      refine ⟨_, rfl, ?_⟩
      dsimp only
      exact hb.2.2.2
  · obtain ⟨out, e, hrun, hquiet⟩ := answerCalls_incomplete w cls hm st first hcs hlast h
    rw [hrun, hquiet.publishes]
    constructor
    · intro hp
      obtain ⟨p, heq, _⟩ := hp
      cases heq
    · intro hb
      exact absurd ⟨hb.1, hb.2.1, hb.2.2.1⟩ h

/-- **Payloads that pass through unchanged.** In both directions they are without a NUL; a message
needs a URL that fits its buffer besides, a request a body of a length that is an `int` and a `qos` value.
The body is followed as if the byte behind its buffer were the buffer's own. -/
theorem payload_asIs_iff (u : Mqtt2RestUnitConfiguration) (config : Configuration) (env : CurlEnv)
    {msg : MosqMessage} {b : List Byte} (hmsg : msg.payload = b) (hbody : bodyOf cs = b) :
    (PostedAsIs w u config msg env ↔
        FitsBuffer u.webserviceBaseurl.bytes (cstr (urlOf u.mqttTopic msg.topic)) ∧ env.init = true ∧ 0 ∉ b) ∧
      (PublishedAsIs w cls r st (first :: cs ++ [last]) b ↔
        (∀ c ∈ first :: cs, c.granted = true) ∧ (mhdLookupConnectionValue r.qos).isSome = true ∧
          b ≠ [] ∧ 0 ∉ b ∧ b.length < 2 ^ 31) := by
  subst hbody
  rw [← hmsg]
  refine ⟨postedAsIs_iff w u config msg env, ?_⟩
  rw [hmsg]
  exact publishedAsIs_iff w cls hm st first hcs hlast

end

theorem payload_asIs_text :
    PostedAsIs .long64 sampleMqtt2Rest sampleConfiguration (messageOf (bytes "abc")) curlEnv ∧
      PublishedAsIs .long64 sampleHandle (sampleRequest qosOne) ⟨∅, ∅⟩
        [plainCall [] 1, plainCall (bytes "abc") 2, plainCall [] 3] (bytes "abc") := by
  have hcs : ∀ c ∈ [plainCall (bytes "abc") 2], c.chunk ≠ [] := by decide
  have hlast : (plainCall [] 3).chunk = [] := rfl
  have hmsg : (messageOf (bytes "abc")).payload = bytes "abc" := rfl
  have hm : (sampleRequest qosOne).method = postMethod := rfl
  obtain ⟨h₁, h₂⟩ := payload_asIs_iff .long64 sampleHandle hm ⟨∅, ∅⟩ (plainCall [] 1) hcs hlast sampleMqtt2Rest
    sampleConfiguration curlEnv hmsg rfl
  exact ⟨h₁.mpr (by decide), h₂.mpr ⟨by decide, rfl, by decide, by decide, by decide⟩⟩

theorem not_payload_asIs_nul :
    ¬ PostedAsIs .long64 sampleMqtt2Rest sampleConfiguration (messageOf [65, 0, 66]) curlEnv ∧
      ¬ PublishedAsIs .long64 sampleHandle (sampleRequest qosOne) ⟨∅, ∅⟩
        [plainCall [] 1, plainCall [65, 0, 66] 2, plainCall [] 3] [65, 0, 66] := by
  have hcs : ∀ c ∈ [plainCall [65, 0, 66] 2], c.chunk ≠ [] := by decide
  have hlast : (plainCall [] 3).chunk = [] := rfl
  refine ⟨fun h => ?_, fun h => ?_⟩
  · exact absurd ((postedAsIs_iff _ _ _ _ _).mp h).2.2 (by decide)
  · have hm : (sampleRequest qosOne).method = postMethod := rfl
    have h' := (publishedAsIs_iff .long64 sampleHandle hm ⟨∅, ∅⟩ (plainCall [] 1) hcs hlast).mp h
    exact absurd h'.2.2.2.1 (by decide)

/-! ## Through both units -/

section
variable {ι : Type} [DecidableEq ι] {w : LongWidth} {req : ι → Request} (cls : MqttClientHandle)

theorem topicOf_slash {r : Request} (hurl : r.url.str.bytes.head? = some slash) :
    topicOf r = r.url.str.bytes.tail := by
  have h0 := r.url.str.noNul
  unfold topicOf CStrAt.mem
  cases hu : r.url.str.bytes with
  | nil => rw [hu] at hurl; cases hurl
  | cons x u =>
    rw [hu] at h0
    exact cstr_append_nul (fun hm => h0 (List.mem_cons_of_mem _ hm)) _

theorem performs_below {u : Mqtt2RestUnitConfiguration} {msg : MosqMessage} {env : CurlEnv} {rest : List Byte}
    (hB : u.webserviceBaseurl.bytes ≠ []) (ht : msg.topic.str.bytes = u.mqttTopic.bytes ++ slash :: rest)
    (h0 : 0 ∉ msg.payload) (hb : u.webserviceBaseurl.bytes.length ≤ urlMaxSize - 2)
    (hj : (joinSlash u.webserviceBaseurl.bytes rest).length ≤ urlMaxSize - 1) (hinit : env.init = true) :
    performs (onMqttMsg w msg.topic msg.payloadPtr (some u) env).out =
      [(⟨"POST", joinSlash u.webserviceBaseurl.bytes rest, msg.payload⟩, env.perform)] := by
  have hrest := urlOf_below ht
  rw [← hrest] at hj
  rw [performs_message, if_pos hinit, urlString_eq w _ env hB hb hj, hrest, cstr_eq_self_iff.mpr h0]

/-- What is asked of a completed request: its one message has its topic, its body and its QoS, and each
unit whose topic is above it posts that body to the base URL joined with the rest of the topic. -/
structure Composes (w : LongWidth) (cls : MqttClientHandle) (req : ι → Request) (st : Store) (es : List (ι × Call))
    (i : ι) (body : List Byte) (p : Publish) : Prop where
  once : publishesOf i (serveAll w cls req (freshServer st) es).out = [p]
  topic : p.topic = (req i).url.str.bytes.tail
  qos : p.qos = 0 ∨ p.qos = 1 ∨ p.qos = 2
  payload : p.payload = body
  posted : ∀ (u : Mqtt2RestUnitConfiguration) (msg : MosqMessage) (env : CurlEnv) (rest : List Byte),
    u.webserviceBaseurl.bytes ≠ [] → p.topic = u.mqttTopic.bytes ++ slash :: rest →
    msg.topic.str.bytes = p.topic → msg.payload = p.payload →
    u.webserviceBaseurl.bytes.length ≤ urlMaxSize - 2 →
    (joinSlash u.webserviceBaseurl.bytes rest).length ≤ urlMaxSize - 1 → env.init = true →
    StaysInside w u (urlOf u.mqttTopic msg.topic) ∧
      performs (onMqttMsg w msg.topic msg.payloadPtr (some u) env).out =
        [(⟨"POST", joinSlash u.webserviceBaseurl.bytes rest, body⟩, env.perform)] ∧
      ∀ rest', rest ≠ rest' →
        joinSlash u.webserviceBaseurl.bytes rest ≠ joinSlash u.webserviceBaseurl.bytes rest'

/-- **The two halves compose** exactly if the length of the body is an `int`. The body is followed as if the byte behind
its buffer were the buffer's own. -/
theorem bridge_composes_iff (st : Store) {es : List (ι × Call)}
    (hp : ∀ i, (req i).method = postMethod → Protocol (callsOf i es)) {i : ι} (hi : (req i).method = postMethod)
    (hurl : (req i).url.str.bytes.head? = some slash) {v : CStr} (hq : (req i).qos = .value v)
    (hv : v.bytes = bytes "0" ∨ v.bytes = bytes "1" ∨ v.bytes = bytes "2") {body : List (List Byte)}
    (hbody : Completed (callsOf i (made w cls req st es)) body) (hne : body.flatten ≠ []) (h0 : 0 ∉ body.flatten) :
    (∃ p, Composes w cls req st es i body.flatten p) ↔ body.flatten.length < 2 ^ 31 := by
  have hlookup : mhdLookupConnectionValue (req i).qos = some v := by rw [hq]; rfl
  obtain ⟨rc, hps⟩ := finished_of_made (w := w) cls st hp hi hbody hne hlookup
  constructor
  · rintro ⟨p, h⟩
    have hpub := List.singleton_inj.mp (hps.symm.trans h.once)
    have hpay := h.payload
    rw [← hpub] at hpay
    dsimp only at hpay
    exact length_lt_of_handedOver hpay
  · intro hlen
    have hpay : handedOver body.flatten = body.flatten := handedOver_eq_iff.mpr ⟨h0, hlen⟩
    rw [hpay] at hps
    refine ⟨_, hps, topicOf_slash hurl, ?_, rfl, ?_⟩
    · have hqos : ∀ w, ∀ q ∈ [bytes "0", bytes "1", bytes "2"],
          toCInt (strtol w q).value = 0 ∨ toCInt (strtol w q).value = 1 ∨ toCInt (strtol w q).value = 2 := by
        intro w
        cases w <;> decide
      exact hqos w v.bytes (by simpa using hv)
    · intro u msg env rest hB ht hmt hmp hb hj hinit
      rw [ht] at hmt
      refine ⟨staysInside_of_fits w _ ?_, ?_, fun rest' hne' h => hne' (joinSlash_injective _ h)⟩
      · rw [urlOf_below hmt]
        exact fits_of_joinSlash hB hb hj
      · rw [performs_below hB hmt (by rw [hmp]; exact h0) hb hj hinit, hmp]

end

def lampUnit : Mqtt2RestUnitConfiguration := { sampleMqtt2Rest with mqttTopic := ⟨bytes "lamp", by decide⟩ }

def lampMessage : MosqMessage := ⟨⟨⟨bytes "lamp/on", by decide⟩, []⟩, bytes "abc", []⟩

theorem bridge_composes_lamp :
    performs (onMqttMsg .long64 lampMessage.topic lampMessage.payloadPtr (some lampUnit) curlEnv).out =
      [(⟨"POST", bytes "http://localhost:8000/api/on", bytes "abc"⟩, .ok)] := by
  have hbody : Completed (callsOf true (made .long64 sampleHandle (fun _ => sampleRequest qosOne) ⟨∅, ∅⟩ sampleCalls))
      [bytes "ab", bytes "c"] := ⟨by decide, by decide +kernel⟩
  obtain ⟨p, h⟩ := (bridge_composes_iff sampleHandle ⟨∅, ∅⟩ (fun i _ => sampleCalls_protocol i) rfl rfl rfl
    (Or.inr (Or.inl rfl)) hbody (by decide) (by decide)).mpr (by decide)
  have hpost := (h.posted lampUnit lampMessage curlEnv (bytes "on") (by decide) (by rw [h.topic]; decide)
    (by rw [h.topic]; decide) (by rw [h.payload]; decide) (by decide) (by decide) rfl).2.1
  rw [hpost]
  decide

/-- What is published of `longBody`, as the broker hands it on. -/
def lampLong : MosqMessage := ⟨⟨⟨bytes "lamp/on", by decide⟩, []⟩, List.replicate 5 97, []⟩

/-- Of a body of 4 GiB and 5 bytes, 5 bytes come through. -/
theorem not_composes_longBody :
    0 ∉ longBody ∧ longBody.length = 2 ^ 32 + 5 ∧
    Completed (callsOf () (made .long64 sampleHandle (fun _ => sampleRequest qosOne) ⟨∅, ∅⟩
      ((oneChunk longBody).map (Prod.mk ())))) [longBody] ∧
    (∃ p, publishesOf () (serveAll .long64 sampleHandle (fun _ => sampleRequest qosOne) (freshServer ⟨∅, ∅⟩)
        ((oneChunk longBody).map (Prod.mk ()))).out = [p] ∧
      lampLong.topic.str.bytes = p.topic ∧ lampLong.payload = p.payload) ∧
    performs (onMqttMsg .long64 lampLong.topic lampLong.payloadPtr (some lampUnit) curlEnv).out =
      [(⟨"POST", bytes "http://localhost:8000/api/on", List.replicate 5 97⟩, .ok)] ∧
    ¬ ∃ p, Composes .long64 sampleHandle (fun _ => sampleRequest qosOne) ⟨∅, ∅⟩ ((oneChunk longBody).map (Prod.mk ()))
      () longBody p := by
  have hbody := completed_oneChunk longBody_ne_nil .long64
  have hflat : [longBody].flatten = longBody := List.append_nil _
  have hne : [longBody].flatten ≠ [] := by rw [hflat]; exact longBody_ne_nil
  obtain ⟨rc, hps⟩ := finished_of_made sampleHandle ⟨∅, ∅⟩ (fun i _ => protocol_oneChunk longBody_ne_nil i) rfl hbody hne
    rfl
  rw [hflat, handedOver_longBody] at hps
  have htopic : lampLong.topic.str.bytes = topicOf (sampleRequest qosOne) := by decide
  have hpost : performs (onMqttMsg .long64 lampLong.topic lampLong.payloadPtr (some lampUnit) curlEnv).out =
      [(⟨"POST", joinSlash lampUnit.webserviceBaseurl.bytes (bytes "on"), lampLong.payload⟩, curlEnv.perform)] :=
    performs_below (by decide) (by decide) (by decide) (by decide) (by decide) rfl
  refine ⟨noNul_longBody, length_longBody, hbody, ⟨_, hps, htopic, rfl⟩, ?_, ?_⟩
  · rw [hpost]
    decide
  · rintro ⟨p, h⟩
    have hpub := List.singleton_inj.mp (hps.symm.trans h.once)
    have hpay := h.payload
    rw [← hpub] at hpay
    dsimp only at hpay
    have hlen := congrArg List.length hpay
    rw [length_longBody] at hlen
    exact absurd hlen (by decide)

end Mqrestt
