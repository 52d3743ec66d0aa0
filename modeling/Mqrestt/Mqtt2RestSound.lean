import Mqrestt.Rest2MqttSound

/-!
# From a topic to a URL

Two places have to agree on the base topic: `mqtt_cb_connect` subscribes to it as a
filter, level by level, and `on_mqtt_msg` chops its length off the topic name, byte
by byte. What is left is appended to the base URL in a buffer of fixed size.
-/

namespace Mqrestt
open CSem Mqtt

/-! ## The chop and the filter -/

/-- The filter is the topic with `/#`, cut where the text is too long for the result of `snprintf`. -/
theorem mem_subscribe {config : MqttClientConfiguration} {f : List Byte} {q result : Int}
    (h : Effect.subscribe f q ∈ (mqttCbConnect config result).out) :
    ∃ p, config.topic = some p ∧ f = (p.bytes ++ bytes "/#").take (maxTopicLength - 1) ∧
      ¬ maxTopicLength ≤ snprintfResult (p.bytes ++ bytes "/#") := by
  unfold mqttCbConnect at h
  cases ht : config.topic with
  | none => simp [ht, debug] at h
  | some p =>
    refine ⟨p, rfl, ?_⟩
    by_cases hl : (maxTopicLength : Int) ≤ snprintfResult (p.bytes ++ bytes "/#")
    · simp only [ht, hl, if_true] at h
      simp [debug, fatal] at h
    · by_cases hr : result = 0
      · simp only [ht, hl, hr, if_true, if_false] at h
        simp only [debug, Proc.emit_bind, Proc.emit_out, List.mem_cons, reduceCtorEq, List.not_mem_nil,
          or_false, false_or, Effect.subscribe.injEq] at h
        exact ⟨h.1, hl⟩
      · simp only [ht, hl, hr, if_false] at h
        simp [debug, warning] at h

theorem snprintfResult_of_fits {text : List Byte} (h : text.length < maxTopicLength) :
    ¬ (maxTopicLength : Int) ≤ snprintfResult text := by
  rw [snprintfResult, if_pos (by unfold maxTopicLength at h; omega)]
  omega

theorem take_of_fits {text : List Byte} (h : text.length < maxTopicLength) : text.take (maxTopicLength - 1) = text :=
  List.take_of_length_le (Nat.le_sub_one_of_lt h)

/-- A text that the check lets through has room in the buffer, or its length is no `int`. -/
theorem fits_or_long {text : List Byte} (h : ¬ (maxTopicLength : Int) ≤ snprintfResult text) :
    text.length < maxTopicLength ∨ 2 ^ 31 ≤ text.length := by
  unfold snprintfResult at h
  split at h <;> omega

theorem levels_filter (p : List Byte) : levels (p ++ bytes "/#") = levels p ++ [[hash]] := by
  have : bytes "/#" = slash :: [hash] := by decide
  rw [this, levels_append]
  have : levels [hash] = [[hash]] := by decide
  rw [this]

theorem cstr_urlOf {p : CStr} {t : CStrAt} (h : p.bytes.length + 1 ≤ t.str.bytes.length) :
    cstr (urlOf p t) = t.str.bytes.drop (p.bytes.length + 1) := by
  unfold urlOf CStrAt.mem
  rw [List.drop_append_of_le_length h]
  apply cstr_append_nul
  intro h0
  exact t.str.noNul (List.mem_of_mem_drop h0)

theorem urlOf_below {p : CStr} {t : CStrAt} {rest : List Byte} (ht : t.str.bytes = p.bytes ++ slash :: rest) :
    cstr (urlOf p t) = rest := by
  have hle : p.bytes.length + 1 ≤ t.str.bytes.length := by
    rw [ht, List.length_append, List.length_cons]
    omega
  rw [cstr_urlOf hle, ht, List.drop_length_add_append]
  rfl

/-- The chop stays inside the topic, and leaves the levels that the `#` of the filter stands for. -/
def ChopAgrees (p : CStr) (t : CStrAt) : Prop :=
  p.bytes.length + 1 ≤ t.str.bytes.length ∧
    cstr (urlOf p t) = join ((levels t.str.bytes).drop (levels p.bytes).length)

instance (p : CStr) (t : CStrAt) : Decidable (ChopAgrees p t) := inferInstanceAs (Decidable (_ ∧ _))

theorem chopAgrees_of_lt {p : CStr} {t : CStrAt}
    (hlt : (levels p.bytes).length < (levels t.str.bytes).length) :
    ChopAgrees p t ↔ (join ((levels t.str.bytes).take (levels p.bytes).length)).length = p.bytes.length := by
  have h0 : 0 < (levels p.bytes).length := List.length_pos_iff.mpr (levels_ne_nil _)
  have hsplit := split_levels h0 hlt
  have hl := congrArg List.length hsplit
  simp only [List.length_append, List.length_cons] at hl
  unfold ChopAgrees
  constructor
  · rintro ⟨hk, hc⟩
    rw [cstr_urlOf hk] at hc
    have hc' := congrArg List.length hc
    rw [List.length_drop] at hc'
    omega
  · intro ha
    have hk : p.bytes.length + 1 ≤ t.str.bytes.length := by omega
    refine ⟨hk, ?_⟩
    rw [cstr_urlOf hk]
    conv_lhs => rw [hsplit, ← ha]
    rw [List.drop_length_add_append]
    rfl

theorem chopAgrees_of_le {p : CStr} {t : CStrAt}
    (hle : (levels t.str.bytes).length ≤ (levels p.bytes).length) :
    ChopAgrees p t ↔ t.str.bytes.length = p.bytes.length + 1 := by
  have hnil : (levels t.str.bytes).drop (levels p.bytes).length = [] := List.drop_eq_nil_of_le hle
  unfold ChopAgrees
  rw [hnil]
  constructor
  · rintro ⟨hk, hc⟩
    rw [cstr_urlOf hk] at hc
    have hc' := congrArg List.length hc
    rw [List.length_drop] at hc'
    have : (join []).length = 0 := rfl
    omega
  · intro hl
    refine ⟨hl.ge, ?_⟩
    rw [cstr_urlOf hl.ge, ← hl, List.drop_length]
    rfl

/-- **The chop agrees with the filter** for the topics whose first levels are together as long as
the base topic, and that have more levels than these. Where `#` stands for no level at all the
topic has to be one byte longer than the base topic. The filter is the base topic with `/#`, and
then a topic has at least its levels, unless that text is too long for the result of `snprintf`. -/
theorem chopAgrees_iff {config : MqttClientConfiguration} {p : CStr} (hp : config.topic = some p) {f : List Byte}
    {q : Int} (hsub : Effect.subscribe f q ∈ (mqttCbConnect config 0).out) {t : CStrAt}
    (hmatch : topicMatches f t.str.bytes = true) :
    (ChopAgrees p t ↔
      (levels p.bytes).length < (levels t.str.bytes).length ∧
          (join ((levels t.str.bytes).take (levels p.bytes).length)).length = p.bytes.length ∨
        (levels t.str.bytes).length ≤ (levels p.bytes).length ∧ t.str.bytes.length = p.bytes.length + 1) ∧
      (f = p.bytes ++ bytes "/#" ∧ (levels p.bytes).length ≤ (levels t.str.bytes).length ∨
        2 ^ 31 ≤ (p.bytes ++ bytes "/#").length) := by
  obtain ⟨p', hp', rfl, haccepted⟩ := mem_subscribe hsub
  obtain rfl : p' = p := Option.some.inj (hp'.symm.trans hp)
  constructor
  · by_cases hlt : (levels p'.bytes).length < (levels t.str.bytes).length
    · have hnot : ¬ (levels t.str.bytes).length ≤ (levels p'.bytes).length := by omega
      simp only [chopAgrees_of_lt hlt, hlt, hnot, true_and, false_and, or_false]
    · have hle : (levels t.str.bytes).length ≤ (levels p'.bytes).length := by omega
      simp only [chopAgrees_of_le hle, hlt, hle, true_and, false_and, false_or]
  · rcases fits_or_long haccepted with hfits | hlong
    · left
      rw [take_of_fits hfits] at hmatch ⊢
      have hlevels := levelsMatch_of_topicMatches hmatch
      rw [levels_filter] at hlevels
      exact ⟨rfl, length_le_of_match hlevels⟩
    · exact .inr hlong

def subscriberTo (p : CStr) : MqttClientConfiguration := { sampleHandle.config with topic := some p }

def unit1 : CStr := ⟨bytes "unit1", by decide⟩

def onePlus : CStr := ⟨[plus], by decide⟩

theorem chopAgrees_below : ChopAgrees unit1 ⟨⟨bytes "unit1/lamp/on", by decide⟩, []⟩ := by
  have hsub : Effect.subscribe (bytes "unit1/#") 2 ∈ (mqttCbConnect (subscriberTo unit1) 0).out := by decide
  exact (chopAgrees_iff rfl hsub (by decide)).1.mpr (by decide)

/-- The parent level matches `unit1/#`, and the chop steps over the terminator; a level that `+`
matches need not be as long as the `+`. -/
theorem not_chopAgrees_parent_plus :
    (Effect.subscribe (bytes "unit1/#") 2 ∈ (mqttCbConnect (subscriberTo unit1) 0).out ∧
        topicMatches (bytes "unit1/#") (bytes "unit1") = true ∧ ¬ ChopAgrees unit1 ⟨unit1, []⟩) ∧
      Effect.subscribe (bytes "+/#") 2 ∈ (mqttCbConnect (subscriberTo onePlus) 0).out ∧
        topicMatches (bytes "+/#") (bytes "ab/c") = true ∧ ¬ ChopAgrees onePlus ⟨⟨bytes "ab/c", by decide⟩, []⟩ := by
  decide

/-! ## A base topic with a trailing slash -/

def dropSlash (p : List Byte) : List Byte := if p.getLast? = some slash then p.dropLast else p

theorem mqttCbConnect_subscribes {config : MqttClientConfiguration} {p : CStr} (hp : config.topic = some p)
    (hlen : (p.bytes ++ bytes "/#").length < maxTopicLength) :
    Effect.subscribe (p.bytes ++ bytes "/#") 2 ∈ (mqttCbConnect config 0).out := by
  have hle := snprintfResult_of_fits hlen
  unfold mqttCbConnect
  simp only [hp, hle, take_of_fits hlen, if_true, if_false]
  simp [debug]

/-- The topic is subscribed to, and its part behind the base topic is taken for the URL. -/
def Forwards (config : MqttClientConfiguration) (p : CStr) (t : CStrAt) (r : List Byte) : Prop :=
  (∃ f q, Effect.subscribe f q ∈ (mqttCbConnect config 0).out ∧ topicMatches f t.str.bytes = true) ∧
    cstr (urlOf p t) = r

theorem forwards_of_no_slash {config : MqttClientConfiguration} {p : CStr} (hp : config.topic = some p)
    (hlen : (p.bytes ++ bytes "/#").length < maxTopicLength) (hplus : plus ∉ p.bytes) (hhash : hash ∉ p.bytes)
    {t : CStrAt} {r : List Byte} (ht : t.str.bytes = p.bytes ++ slash :: r) : Forwards config p t r := by
  refine ⟨⟨_, 2, mqttCbConnect_subscribes hp hlen, ?_⟩, ?_⟩
  · rw [ht]
    exact topicMatches_below hplus hhash r
  · exact urlOf_below ht

theorem urlOf_trailing {p : CStr} {t : CStrAt} {r : List Byte} (hp : p.bytes.getLast? = some slash)
    (ht : t.str.bytes = p.bytes.dropLast ++ slash :: r) (hr : r ≠ []) : cstr (urlOf p t) = r.drop 1 := by
  have hne : p.bytes ≠ [] := by
    intro h
    rw [h] at hp; cases hp
  have hbase : p.bytes.dropLast ++ [slash] = p.bytes := by
    have hlast : p.bytes.getLast hne = slash := by
      rw [List.getLast?_eq_some_getLast hne] at hp
      exact Option.some.inj hp
    rw [← hlast]
    exact List.dropLast_append_getLast hne
  have ht' : t.str.bytes = p.bytes ++ r := by
    rw [ht, ← hbase]
    simp
  have hpos : 0 < r.length := List.length_pos_iff.mpr hr
  have hle : p.bytes.length + 1 ≤ t.str.bytes.length := by
    rw [ht', List.length_append]
    omega
  rw [cstr_urlOf hle, ht', List.drop_length_add_append]

/-- **A unit forwards what is below its topic exactly when the topic has no trailing slash.** -/
theorem forwards_iff {config : MqttClientConfiguration} {p : CStr} (hp : config.topic = some p)
    (hlen : (p.bytes ++ bytes "/#").length < maxTopicLength) (hplus : plus ∉ p.bytes) (hhash : hash ∉ p.bytes)
    {t : CStrAt} {r : List Byte} (ht : t.str.bytes = dropSlash p.bytes ++ slash :: r) (hr : r ≠ []) :
    Forwards config p t r ↔ p.bytes.getLast? ≠ some slash := by
  unfold dropSlash at ht
  by_cases hs : p.bytes.getLast? = some slash
  · rw [if_pos hs] at ht
    constructor
    · rintro ⟨_, hurl⟩
      rw [urlOf_trailing hs ht hr] at hurl
      have hl := congrArg List.length hurl
      have hpos : 0 < r.length := List.length_pos_iff.mpr hr
      rw [List.length_drop] at hl
      omega
    · intro h
      exact absurd hs h
  · rw [if_neg hs] at ht
    exact ⟨fun _ => hs, fun _ => forwards_of_no_slash hp hlen hplus hhash ht⟩

theorem forwards_unit1 : Forwards (subscriberTo unit1) unit1 ⟨⟨bytes "unit1/lamp", by decide⟩, []⟩ (bytes "lamp") :=
  (forwards_iff rfl (by decide) (by decide) (by decide) rfl (by decide)).mpr (by decide)

def oneSlash : CStr := ⟨[slash], by decide⟩

def temperature : CStrAt := ⟨⟨bytes "/devices/12/temperature", by decide⟩, []⟩

/-- The topic of the README: the broker is asked for `//#`, and the chop would take the `d`. -/
theorem not_forwards_temperature :
    temperature.str.bytes = dropSlash oneSlash.bytes ++ slash :: bytes "devices/12/temperature" ∧
      (mqttCbConnect (subscriberTo oneSlash) 0).out =
        [.log .debug "MQTT connect, UNIT: %s" [.str (some (bytes "unit"))], .subscribe (bytes "//#") 2] ∧
      topicMatches (bytes "//#") temperature.str.bytes = false ∧
      ¬ Forwards (subscriberTo oneSlash) oneSlash temperature (bytes "devices/12/temperature") := by
  refine ⟨by decide, by decide, by decide, fun h => ?_⟩
  have hurl : cstr (urlOf oneSlash temperature) = bytes "evices/12/temperature" := by decide
  rw [h.2] at hurl
  exact absurd hurl (by decide)

/-! ## The URL -/

def slashed (m : Mem) (len : Int) : Mem :=
  if m (len - 1) ≠ slash then applyStores m [(len, slash), (len + 1, 0)] else m

theorem appendSlash_res (m : Mem) (len : Int) : (appendSlash m len).res = .ok (slashed m len) := by
  unfold appendSlash slashed
  by_cases h : m (len - 1) ≠ slash
  · simp only [if_pos h, debug, Proc.emit_bind, Proc.emits_bind, Proc.pure_res]
  · simp only [if_neg h, Proc.emit_bind, Proc.pure_res]

theorem spells_slashed_of_ne {m : Mem} {l : List Byte} (hs : Spells m 0 l) (hne : m (l.length - 1) ≠ slash) :
    Spells (slashed m l.length) 0 (l ++ [slash] ++ [0]) := by
  rw [slashed, if_pos hne, List.append_assoc, spells_append]
  refine ⟨hs.frame fun i _ hi => ?_, ?_⟩
  · have hlt : i < (l.length : Int) := by simpa using hi
    show applyStores m (storesAt (l.length : Int) [slash, 0]) i = m i
    exact storesAt_outside m (Or.inl hlt)
  · rw [zero_add]
    exact spells_storesAt [slash, 0] m l.length

theorem spells_last {m : Mem} {l : List Byte} (hs : Spells m 0 l) (hne : l ≠ []) :
    m (l.length - 1) = l.getLast hne := by
  obtain ⟨l', x, rfl⟩ := (List.eq_nil_or_concat' l).resolve_left hne
  rw [spells_append] at hs
  simpa using hs.2.1

theorem quiet_appendSlash (m : Mem) (len : Int) : Quiet (appendSlash m len).out := by
  unfold appendSlash
  apply quiet.bind
  · simp [Effect.internal]
  · intro _ _
    split
    · exact quiet.bind (quiet_log _ _ _) fun _ _ => quiet.bind (quiet_writes _ _ _) fun _ _ => quiet_nil
    · exact quiet_nil

section
variable (w : LongWidth) (config : Mqtt2RestUnitConfiguration) (url : List Byte) (env : CurlEnv)

def baseMem : Mem :=
  slashed (applyStores env.stack (strncpy 0 config.webserviceBaseurl.bytes (urlMaxSize - 1)))
    (toCInt config.webserviceBaseurl.bytes.length)

def urlString : List Byte :=
  let m := baseMem config env
  let n := toSizeT w (toCInt (urlMaxSize - toCInt config.webserviceBaseurl.bytes.length - 1))
  scan (applyStores m (strncat m env.mapped 0 url n)) env.mapped 0

theorem quiet_fullUrl : Quiet (fullUrl w config url env).out := by
  unfold fullUrl
  refine quiet.bind (quiet_writes _ _ _) fun _ _ => quiet.bind (quiet_appendSlash _ _) fun m _ => ?_
  exact quiet.bind (quiet_reads _ _ _) fun _ _ => quiet.bind (quiet_writes _ _ _) fun _ _ => quiet_nil

def catSize : Nat := toSizeT w (toCInt (urlMaxSize - toCInt config.webserviceBaseurl.bytes.length - 1))

def catStores : Stores := strncat (baseMem config env) env.mapped 0 url (catSize w config)

def finalMem : Mem := applyStores (baseMem config env) (catStores w config url env)

theorem urlString_eq_scan : urlString w config url env = scan (finalMem w config url env) env.mapped 0 := rfl

theorem fullUrl_res : (fullUrl w config url env).res = .ok (finalMem w config url env) := by
  unfold fullUrl
  simp only [Proc.emits_bind, Proc.bind_of_ok (appendSlash_res _ _), Proc.pure_res]
  rfl

variable {config}

/-- What the buffer holds before the rest of the topic is appended. The base URL has its terminator
from `strncpy`, or a new one behind the slash. -/
theorem spells_baseMem (hne : config.webserviceBaseurl.bytes ≠ [])
    (hb : config.webserviceBaseurl.bytes.length ≤ urlMaxSize - 1)
    (hend : config.webserviceBaseurl.bytes.getLast? = some slash →
      config.webserviceBaseurl.bytes.length ≤ urlMaxSize - 2) :
    Spells (baseMem config env) 0 (joinSlash config.webserviceBaseurl.bytes [] ++ [0]) := by
  have hmax : urlMaxSize = 2048 := rfl
  have hcs := cstr_eq_self_iff.mpr config.webserviceBaseurl.noNul
  unfold baseMem joinSlash
  generalize config.webserviceBaseurl.bytes = base at *
  rw [toCInt_of_small (by omega) (by omega), List.append_nil]
  have hcopied := spells_strncpy_take base (urlMaxSize - 1) env.stack 0
  rw [hcs, List.take_of_length_le hb] at hcopied
  have hlast := spells_last hcopied hne
  rw [List.getLast?_eq_getLast_of_ne_nil hne] at hend ⊢
  by_cases hs : base.getLast hne = slash
  · have hroom : (cstr base).length < urlMaxSize - 1 := by
      rw [hcs]
      have := hend (congrArg some hs)
      omega
    have hterm := spells_strncpy hroom env.stack 0
    rw [hcs] at hterm
    rw [slashed, hlast, hs, if_neg (not_not.mpr rfl), if_pos rfl]
    exact hterm
  · rw [if_neg (by simpa using hs)]
    exact spells_slashed_of_ne hcopied (hlast ▸ hs)

theorem catSize_eq {len : Int} (h₀ : 0 ≤ len) (h : len ≤ urlMaxSize - 1) :
    toSizeT w (toCInt (urlMaxSize - len - 1)) = urlMaxSize - 1 - len.toNat := by
  have hmax : urlMaxSize = 2048 := rfl
  have hbits : (2 : Int) ^ 32 ≤ 2 ^ w.bits := by cases w <;> decide
  rw [toCInt_of_small (by omega) (by omega), toSizeT, Int.emod_eq_of_lt (by omega) (by omega)]
  omega

theorem urlString_cut (hne : config.webserviceBaseurl.bytes ≠ [])
    (hb : config.webserviceBaseurl.bytes.length ≤ urlMaxSize - 1)
    (hend : config.webserviceBaseurl.bytes.getLast? = some slash →
      config.webserviceBaseurl.bytes.length ≤ urlMaxSize - 2) :
    urlString w config url env = joinSlash config.webserviceBaseurl.bytes
      ((cstr url).take (urlMaxSize - 1 - config.webserviceBaseurl.bytes.length)) := by
  have hmax : urlMaxSize = 2048 := rfl
  have hcov := env.covers
  have hs := spells_baseMem env hne hb hend
  have hb0 := config.webserviceBaseurl.noNul
  unfold urlString
  generalize config.webserviceBaseurl.bytes = base at *
  have hint : toCInt (base.length : Int) = base.length := toCInt_of_small (by omega) (by omega)
  rw [hint, catSize_eq w (by omega) (by omega), Int.toNat_natCast]
  have h0 : 0 ∉ joinSlash base [] := noNul_joinSlash hb0 (by simp)
  have hfuel : (joinSlash base []).length ≤ env.mapped := by
    rw [length_joinSlash]
    split <;> simp only [List.length_nil] <;> omega
  have hcat := spells_strncat url (urlMaxSize - 1 - base.length) hs h0 hfuel
  rw [← List.append_assoc, ← joinSlash_append] at hcat
  refine scan_of_spells hcat (noNul_joinSlash hb0 ?_) ?_
  · exact fun hmem => noNul_cstr url (List.mem_of_mem_take hmem)
  · rw [length_joinSlash, List.length_take]
    split <;> omega

theorem urlString_eq (hne : config.webserviceBaseurl.bytes ≠ [])
    (hb : config.webserviceBaseurl.bytes.length ≤ urlMaxSize - 2)
    (hj : (joinSlash config.webserviceBaseurl.bytes (cstr url)).length ≤ urlMaxSize - 1) :
    urlString w config url env = joinSlash config.webserviceBaseurl.bytes (cstr url) := by
  rw [urlString_cut w url env hne (by omega) fun _ => hb, List.take_of_length_le]
  rw [length_joinSlash] at hj
  omega

variable (config)

/-! ## The post -/

def performed (req : HttpRequest) : List Effect :=
  if env.init then
    .perform req env.perform ::
      if env.perform ≠ .ok then [.log .error "curl_easy_perform() failed: %s" [.curlStrerror env.perform]] else []
  else []

def postResult : Int := if env.init ∧ env.perform ≠ .ok then -1 else 0

theorem restPost_eq (payload : Option (List Byte)) : restPost w config url payload env =
    ⟨.log .debug "len url: %d" [.num (cstr url).length] :: ((fullUrl w config url env).out ++
      .log .info "FULL URL: %s" [.str (some (urlString w config url env))] ::
        performed env (postRequest (urlString w config url env) payload)), .ok (postResult env)⟩ := by
  unfold restPost performed postResult
  simp only [debug, info, error, Proc.emit_bind, Proc.bind_of_ok (fullUrl_res w config url env), ← urlString_eq_scan]
  by_cases hi : env.init = true
  · by_cases hp : env.perform = .ok
    · simp [hi, hp]
    · simp [hi, hp]
  · simp [hi]

theorem performs_performed (req : HttpRequest) :
    performs (performed env req) = if env.init then [(req, env.perform)] else [] := by
  unfold performed
  split
  · split <;> simp
  · rfl

theorem performs_restPost (payload : Option (List Byte)) : performs (restPost w config url payload env).out =
    if env.init then [(postRequest (urlString w config url env) payload, env.perform)] else [] := by
  rw [restPost_eq, performs_log, performs_append, (quiet_fullUrl w config url env).performs, List.nil_append,
    performs_log, performs_performed]

theorem performs_onMqttMsg (topic : CStrAt) (msg : Option (List Byte)) :
    performs (onMqttMsg w topic msg (some config) env).out =
      if env.init then [(postRequest (urlString w config (urlOf config.mqttTopic topic) env) msg, env.perform)]
      else [] := by
  rw [← performs_restPost]
  unfold onMqttMsg
  cases msg with
  | none => simp [info]
  | some m => simp [info, debug]

end

end Mqrestt
