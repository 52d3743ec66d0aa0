import Mqrestt.PostSound
import Mqrestt.RelaySound

/-!
# The units do what they are meant to do

What is seen of the two thread functions is what is seen of the units as they are
meant: the same attempts to connect, the same subscriptions, POSTs, messages and
answers in the same order, and the same end.
-/

namespace Mqrestt
open CSem Mqtt

/-! ## Setting up the client -/

section
variable (h : MqttClientHandle)

def attempt (rc : MosqErr) : Effect := .connect h.config.brokerHost.bytes h.config.brokerPort h.config.keepalive rc

def upToSuccess (rcs : List MosqErr) : List MosqErr := rcs.take (rcs.findIdx (· = .success) + 1)

theorem connectLoop_view (rc : Nat → MosqErr) (count k : Nat) :
    ∃ h', h'.config = h.config ∧ (connectLoop h rc count k).view Effect.external? =
      ⟨(upToSuccess ((List.range count).map fun j => rc (k + j))).map (attempt h), .ok h'⟩ := by
  induction count generalizing k with
  | zero => exact ⟨h, rfl, rfl⟩
  | succ count ih =>
    have hrcs : (List.range (count + 1)).map (fun j => rc (k + j)) = rc k :: (List.range count).map fun j =>
        rc (k + 1 + j) := by
      rw [List.range_succ_eq_map, List.map_cons, List.map_map]
      refine congrArg _ (List.map_congr_left fun j _ => ?_)
      simp only [Function.comp, Nat.succ_eq_add_one]
      congr 1
      omega
    rw [hrcs, upToSuccess, List.findIdx_cons, connectLoop]
    by_cases hs : rc k = .success
    · exact ⟨{ h with connected := true }, rfl, by simp [hs, Proc.view, Effect.external?, attempt]⟩
    · obtain ⟨h', hc, hv⟩ := ih (k + 1)
      refine ⟨h', hc, ?_⟩
      simp only [ne_eq, hs, not_false_eq_true, if_true, Proc.view_bind, error, Proc.view_emit, Effect.external?, hv]
      simp [upToSuccess, attempt]

theorem setUpTls_view (config : MqttClientConfiguration) (rc : MosqErr) : (setUpTls config rc).view Effect.external? =
    if config.tlsEnabled ∧ rc ≠ .success then Proc.halt (.exit 1) else pure () := by
  have hquiet := (quiet_setUp config rc rc).1
  by_cases hf : config.tlsEnabled = true ∧ rc ≠ .success
  · rw [if_pos hf]
    exact view_of_quiet hquiet (by simp [setUpTls, hf, info, fatal])
  · rw [if_neg hf]
    refine view_of_quiet hquiet ?_
    by_cases ht : config.tlsEnabled = true
    · have hr : rc = .success := by simpa [ht] using hf
      simp [setUpTls, ht, hr, info]
    · simp [setUpTls, ht]

theorem setUpUserPw_view (config : MqttClientConfiguration) (rc : MosqErr) :
    (setUpUserPw config rc).view Effect.external? =
    if config.userPwAuthEnabled ∧ rc ≠ .success then Proc.halt (.exit 1) else pure () := by
  have hquiet := (quiet_setUp config rc rc).2
  by_cases hf : config.userPwAuthEnabled = true ∧ rc ≠ .success
  · rw [if_pos hf]
    exact view_of_quiet hquiet (by simp [setUpUserPw, hf, fatal])
  · rw [if_neg hf]
    refine view_of_quiet hquiet ?_
    by_cases hu : config.userPwAuthEnabled = true
    · have hr : rc = .success := by simpa [hu] using hf
      simp [setUpUserPw, hr]
    · simp [setUpUserPw, hu]

theorem connect_sim (env : ConnectEnv) :
    Proc.Sim (fun x _ => x.2.config = h.config) ((mqttClientConnect h env).view Effect.external?)
      (if h.config.tlsEnabled ∧ env.tlsSet ≠ .success then Proc.halt (.exit 1)
      else if h.config.userPwAuthEnabled ∧ env.usernamePwSet ≠ .success then Proc.halt (.exit 1)
      else Proc.emits ((attempts env.connect).map (attempt h)) : Run Unit) := by
  obtain ⟨h', hc, hv⟩ := connectLoop_view h env.connect 3 0
  simp only [Nat.zero_add] at hv
  simp only [mqttClientConnect, Proc.view_bind, setUpTls_view, setUpUserPw_view, hv]
  by_cases ht : h.config.tlsEnabled = true ∧ env.tlsSet ≠ .success
  · simp only [if_pos ht]
    exact .error [] _
  · by_cases hu : h.config.userPwAuthEnabled = true ∧ env.usernamePwSet ≠ .success
    · simp only [if_neg ht, if_pos hu]
      exact .error [] _
    · simp only [if_neg ht, if_neg hu, pure_bind, Proc.mk_ok_bind, Proc.view_pure, Proc.pure_out, List.append_nil]
      exact .ok hc

end

theorem openClient_sim (config : MqttClientConfiguration) (setup : SetupEnv) :
    Proc.Sim (fun x _ => x.2.config = config)
      ((mqttClientInit config setup.init >>= fun h => mqttClientConnect h setup.connect).view Effect.external?)
      (openClient config setup) := by
  simp only [mqttClientInit, openClient, bind_assoc, Proc.view_bind, Proc.view_emit, Effect.external?, Option.toList_some]
  refine (Proc.Sim.refl _).bind fun _ _ _ => ?_
  by_cases hn : setup.init.mosquittoNew = true
  · by_cases hm : setup.init.malloc = true
    · simp only [hn, hm, Bool.not_true, Bool.false_eq_true, if_false, Proc.view_pure, pure_bind]
      exact connect_sim { config, connected := false } setup.connect
    · simp only [hn, hm, Bool.not_true, Bool.not_false, Bool.false_eq_true, if_false, if_true, Proc.view_halt,
        Proc.halt_bind]
      exact .error [] _
  · simp only [hn, Bool.not_false, if_true]
    exact .error [] _

/-! ## Events of libmosquitto -/

section
variable (w : LongWidth) {config : MqttClientConfiguration} {g : MosqEvent → Run Unit}

theorem libCall_sim {effect : MosqErr → Effect} (heff : ∀ rc, (effect rc).external? = none) (c : LibCall)
    (hg : ∀ ev ∈ c.events, (callback w config ev).view Effect.external? = g ev) :
    Proc.Sim (fun _ _ => True) ((libCall w config effect c).view Effect.external?) (c.events.forM g) := by
  have hend : ((Proc.emit (effect c.rc) >>= fun _ => pure c.rc).view Effect.external? : Run MosqErr) = pure c.rc := by
    rw [Proc.view_bind, Proc.view_emit, heff]
    rfl
  have hsim : Proc.Sim (fun _ _ => True) (c.events.forM g >>= fun _ => pure c.rc) (c.events.forM g >>= pure) :=
    (Proc.Sim.refl _).bind fun _ _ _ => .ok trivial
  rw [bind_pure] at hsim
  rw [libCall, Proc.view_bind, Proc.view_forM, Proc.forM_congr hg, hend]
  exact hsim

theorem loopCall_sim (wanted : Bool) {effect : MosqErr → Effect} (heff : ∀ rc, (effect rc).external? = none) (c : LibCall)
    (ret : MosqErr)
    (hg : ∀ ev ∈ if wanted then c.events else [], (callback w config ev).view Effect.external? = g ev) :
    Proc.Sim (fun _ _ => True) ((loopCall w config wanted effect c ret).view Effect.external?)
      ((if wanted then c.events else []).forM g) := by
  cases wanted with
  | true => exact libCall_sim w heff c hg
  | false => exact .ok trivial

theorem mqttClientLoop_sim {h : MqttClientHandle} (hc : h.config = config) (read write : Bool) (env : LoopEnv)
    (hg : ∀ ev ∈ loopEvents read write env, (callback w config ev).view Effect.external? = g ev) :
    Proc.Sim (fun h' _ => h'.config = config) ((mqttClientLoop w h read write env).view Effect.external?)
      ((loopEvents read write env).forM g) := by
  subst hc
  have hsplit : (loopEvents read write env).forM g = (if write then env.write.events else []).forM g >>= fun _ =>
      (if read then env.read.events else []).forM g >>= fun _ => env.misc.events.forM g >>= pure := by
    rw [bind_pure]
    simp only [loopEvents, List.append_assoc]
    exact (List.forM_append.trans (bind_congr fun _ => List.forM_append))
  obtain ⟨hfirst, hmisc⟩ := List.forall_mem_append.mp hg
  obtain ⟨hwrite, hread⟩ := List.forall_mem_append.mp hfirst
  rw [mqttClientLoop, hsplit, Proc.view_bind]
  refine (loopCall_sim w write (fun _ => rfl) env.write .success hwrite).bind fun ret _ _ => ?_
  rw [Proc.view_bind]
  refine (loopCall_sim w read (fun _ => rfl) env.read ret hread).bind fun ret' _ _ => ?_
  rw [Proc.view_bind]
  by_cases hl : ret' = .connLost ∨ ret' = .noConn
  · rw [if_pos hl]
    exact (libCall_sim w (fun _ => rfl) env.misc hmisc).bind fun _ _ _ => .ok rfl
  · rw [if_neg hl]
    exact (libCall_sim w (fun _ => rfl) env.misc hmisc).bind fun _ _ _ => .ok rfl

end

theorem subscribe_view (config : MqttClientConfiguration) (mid qos : Int) (more : List Int) :
    (mqttCbSubscribe config mid qos more).view Effect.external? = pure () := by
  have hquiet : Quiet (mqttCbSubscribe config mid qos more).out :=
    quiet.bind (quiet_log _ _ _) fun _ _ => quiet.forM (fun _ => quiet_log _ _ _) more
  refine view_of_quiet hquiet ?_
  simp only [mqttCbSubscribe, info, Proc.emit_bind]
  rw [Proc.forM_of_ok fun _ => rfl]

/-! ## `mqtt2rest_unit_run` -/

theorem checkConnection_view (h : MqttClientHandle) : (checkConnection h).view Effect.external? = pure true := by
  refine view_of_quiet ?_ (checkConnection_res h)
  unfold checkConnection
  split
  · exact quiet.bind (quiet_log _ _ _) fun _ _ => quiet_nil
  · exact quiet_nil

theorem pollFailed_view (eintr : Bool) : (pollFailed eintr).view Effect.external? = pure () := by
  cases eintr <;> rfl

theorem getPollfds_view (h : MqttClientHandle) (env : SocketEnv) :
    (mqttClientGetPollfds h env).view Effect.external? = pure ⟨env.fd, true, env.wantWrite, false⟩ := rfl

/-- The base URL, the slash and what a topic adds to them fit the buffer. -/
structure UrlFits (u : Mqtt2RestUnitConfiguration) (topic : CStrAt) : Prop where
  base : u.webserviceBaseurl.bytes.length ≤ urlMaxSize - 1
  fits : FitsBuffer u.webserviceBaseurl.bytes (cstr (urlOf u.mqttTopic topic))

theorem UrlFits.nonempty {u : Mqtt2RestUnitConfiguration} {topic : CStrAt} (h : UrlFits u topic) :
    u.webserviceBaseurl.bytes ≠ [] := by
  intro hnil
  have hpos := h.fits.1
  rw [hnil] at hpos
  exact absurd hpos (by decide)

theorem UrlFits.slashed {u : Mqtt2RestUnitConfiguration} {topic : CStrAt} (h : UrlFits u topic)
    (hend : u.webserviceBaseurl.bytes.getLast? = some slash) : u.webserviceBaseurl.bytes.length ≤ urlMaxSize - 2 := by
  have hmax : urlMaxSize = 2048 := rfl
  have hbase := h.base
  have hlen : toCInt u.webserviceBaseurl.bytes.length = u.webserviceBaseurl.bytes.length :=
    toCInt_of_small (by omega) (by omega)
  have hroom := h.fits.2
  rw [hlen, show ((u.webserviceBaseurl.bytes.length : Int) - 1).toNat = u.webserviceBaseurl.bytes.length - 1 by omega,
    ← List.getLast?_eq_getElem?, if_pos hend] at hroom
  exact hroom

def EventFits (u : Mqtt2RestUnitConfiguration) : MosqEvent → Prop
  | .message msg _ => UrlFits u msg.topic
  | _ => True

section
variable (w : LongWidth) {u : Mqtt2RestUnitConfiguration} (config : Configuration)

theorem connect_forwards (result : Int) :
    (mqttCbConnect (mqtt2restClient u config) result).view Effect.external? = forwardEvent u (.connect result) := by
  unfold mqttCbConnect forwardEvent
  simp only [mqtt2restClient, clientConfiguration]
  rw [Proc.view_bind, debug, Proc.view_emit]
  by_cases hl : (maxTopicLength : Int) ≤ snprintfResult (u.mqttTopic.bytes ++ bytes "/#")
  · simp only [if_pos hl]
    rfl
  · simp only [if_neg hl]
    by_cases hr : result = 0
    · simp only [if_pos hr]
      rfl
    · simp only [if_neg hr]
      rfl

theorem restPost_view (url : List Byte) (payload : Option (List Byte)) (env : CurlEnv) :
    (restPost w u url payload env).view Effect.external? =
      ⟨if env.init then [.perform (postRequest (urlString w u url env) payload) env.perform] else [],
        .ok (postResult env)⟩ := by
  rw [restPost_eq]
  refine Proc.ext ?_ rfl
  show ((fullUrl w u url env).out ++ _ :: performed env _).filterMap Effect.external? = _
  rw [List.filterMap_append, (quiet_fullUrl w u url env).unseen, List.nil_append, performed]
  by_cases hi : env.init = true
  · by_cases hp : env.perform = .ok
    · simp [hi, hp, List.filterMap_cons, Effect.external?]
    · simp [hi, hp, List.filterMap_cons, Effect.external?]
  · simp [hi, Effect.external?]

theorem onMqttMsg_view (topic : CStrAt) (msg : Option (List Byte)) (env : CurlEnv) :
    (onMqttMsg w topic msg (some u) env).view Effect.external? =
      (restPost w u (urlOf u.mqttTopic topic) msg env).view Effect.external? >>= fun _ => pure () := by
  have hpost := Proc.view_bind Effect.external? (restPost w u (urlOf u.mqttTopic topic) msg env) fun _ => pure ()
  cases msg <;> exact hpost

theorem message_forwards {msg : MosqMessage} (hu : UrlFits u msg.topic) (env : CurlEnv) :
    (mqttCbMsg w (mqtt2restClient u config) msg env).view Effect.external? = forwardEvent u (.message msg env) := by
  have hurl : urlString w u (urlOf u.mqttTopic msg.topic) env = forwardUrl u msg.topic :=
    urlString_cut w _ env hu.nonempty hu.base hu.slashed
  have hview : (mqttCbMsg w (mqtt2restClient u config) msg env).view Effect.external? = _ :=
    onMqttMsg_view w msg.topic msg.payloadPtr env
  rw [hview, restPost_view, hurl, postRequest_payload, Proc.mk_ok_bind]
  unfold forwardEvent
  by_cases hi : env.init = true
  · simp only [if_pos hi]
    rfl
  · simp only [if_neg hi]
    rfl

theorem callback_forwards {ev : MosqEvent} (hu : EventFits u ev) :
    (callback w (mqtt2restClient u config) ev).view Effect.external? = forwardEvent u ev := by
  cases ev with
  | connect result => exact connect_forwards config result
  | message msg env => exact message_forwards w config hu env
  | subscribe mid qos more => exact subscribe_view _ mid qos more
  | disconnect rc => rfl
  | log level str => cases level <;> rfl

variable (timeout : Int) {h : MqttClientHandle} {env : Mqtt2RestEnv}

theorem iteration_failed {eintr : Bool} (hp : env.poll = .failed eintr) :
    (mqtt2restIteration w timeout h env).view Effect.external? = pure (.stop h) := by
  rw [mqtt2restIteration, Proc.view_bind, checkConnection_view, pure_bind]
  simp only [Bool.not_true, Bool.false_eq_true, if_false]
  rw [Proc.view_bind, getPollfds_view, pure_bind, Proc.view_bind, Proc.view_emit, hp]
  simp only [Proc.view_bind, pollFailed_view]
  rfl

theorem iteration_ready {pollin pollout : Bool} (hp : env.poll = .ready pollin pollout)
    (hc : h.config = mqtt2restClient u config) (hu : ∀ ev ∈ loopEvents pollin pollout env.loop, EventFits u ev) :
    Proc.Sim (fun f _ => ∃ h', f = .next h' ∧ h'.config = mqtt2restClient u config)
      ((mqtt2restIteration w timeout h env).view Effect.external?)
      ((loopEvents pollin pollout env.loop).forM (forwardEvent u)) := by
  have hloop := mqttClientLoop_sim w hc pollin pollout env.loop fun ev hev => callback_forwards w config (hu ev hev)
  rw [mqtt2restIteration, Proc.view_bind, checkConnection_view, pure_bind]
  simp only [Bool.not_true, Bool.false_eq_true, if_false]
  rw [Proc.view_bind, getPollfds_view, pure_bind, Proc.view_bind, Proc.view_emit, hp]
  simp only [Proc.view_bind]
  rw [← bind_pure (List.forM _ _)]
  exact hloop.bind fun h' _ hh' => .ok ⟨h', rfl, hh'⟩

end

theorem reported_cons (env : Mqtt2RestEnv) (envs : List Mqtt2RestEnv) :
    reported (env :: envs) = if env.poll.isReady then env.poll.events env.loop ++ reported envs else [] := by
  unfold reported
  by_cases hr : env.poll.isReady = true
  · simp [hr]
  · simp [hr]

theorem forwardLoop_sim (w : LongWidth) {u : Mqtt2RestUnitConfiguration} (config : Configuration) (timeout : Int)
    {h : MqttClientHandle} (hc : h.config = mqtt2restClient u config) {envs : List Mqtt2RestEnv}
    (hu : ∀ ev ∈ reported envs, EventFits u ev) :
    Proc.Sim (fun _ _ => True) ((Proc.loop (mqtt2restIteration w timeout) h envs).view Effect.external?)
      ((reported envs).forM (forwardEvent u)) := by
  induction envs generalizing h with
  | nil => exact .ok trivial
  | cons env envs ih =>
    rw [reported_cons] at hu ⊢
    unfold Proc.loop
    rw [Proc.view_bind]
    cases hp : env.poll with
    | failed eintr =>
      rw [iteration_failed w timeout hp]
      exact .ok trivial
    | ready pollin pollout =>
      rw [hp] at hu
      obtain ⟨hround, hrest⟩ := List.forall_mem_append.mp hu
      have hsplit : (loopEvents pollin pollout env.loop ++ reported envs).forM (forwardEvent u) =
          (loopEvents pollin pollout env.loop).forM (forwardEvent u) >>= fun _ => (reported envs).forM (forwardEvent u) :=
        List.forM_append
      show Proc.Sim _ _ ((loopEvents pollin pollout env.loop ++ reported envs).forM (forwardEvent u))
      rw [hsplit]
      refine (iteration_ready w config timeout hp hc hround).bind fun f _ hf => ?_
      obtain ⟨h', rfl, hh'⟩ := hf
      exact ih hh' hrest

theorem mqtt2restUnitRun_sim (w : LongWidth) {configdata : Option Mqtt2RestUnitConfiguration}
    {envs : List Mqtt2RestEnv} (hu : ∀ u, configdata = some u → ∀ ev ∈ reported envs, EventFits u ev) (setup : SetupEnv) :
    Proc.Sim (fun _ _ => True) ((mqtt2restUnitRun w configdata setup envs).view Effect.external?)
      (forwardUnit configdata setup envs) := by
  cases configdata with
  | none => exact .error [] _
  | some u =>
    have hu := hu u rfl
    unfold mqtt2restUnitRun forwardUnit
    simp only [info]
    rw [Proc.view_bind, Proc.view_emit]
    cases hcfg : u.commonConfiguration with
    | none => exact .error [] _
    | some config =>
      dsimp only
      rw [← bind_assoc, Proc.view_bind]
      refine (openClient_sim (mqtt2restClient u config) setup).bind fun x _ hx => ?_
      rw [← bind_pure (List.forM _ _), Proc.view_bind]
      refine (forwardLoop_sim w config _ hx hu).bind fun y _ _ => ?_
      cases y with
      | next h => exact .ok trivial
      | stop h => exact .ok trivial

/-- **An MQTT to REST unit translates a stream of events.** What is seen of its thread are the attempts to connect,
then for each event that libmosquitto reports, round after round, the subscription or the POST it stands for. -/
theorem mqtt2restUnitRun_refines (w : LongWidth) {configdata : Option Mqtt2RestUnitConfiguration}
    {envs : List Mqtt2RestEnv} (hu : ∀ u, configdata = some u → ∀ ev ∈ reported envs, EventFits u ev) (setup : SetupEnv) :
    (mqtt2restUnitRun w configdata setup envs).out.filterMap Effect.external? = (forwardUnit configdata setup envs).out ∧
      ((∃ h, (mqtt2restUnitRun w configdata setup envs).res = .ok h ∧ (forwardUnit configdata setup envs).res = .ok ()) ∨
        ∃ e, (mqtt2restUnitRun w configdata setup envs).res = .error e ∧
          (forwardUnit configdata setup envs).res = .error e) := by
  obtain ⟨hout, ⟨h, _, hh, hf, _⟩ | herr⟩ := (mqtt2restUnitRun_sim w hu setup).of_view
  · exact ⟨hout, Or.inl ⟨h, hh, hf⟩⟩
  · exact ⟨hout, Or.inr herr⟩

def deliveringEnv (msg : MosqMessage) : Mqtt2RestEnv :=
  ⟨⟨5, false⟩, .ready true false, ⟨⟨[], .success⟩, ⟨[.message msg curlEnv], .success⟩, ⟨[], .success⟩⟩⟩

theorem mqtt2restUnitRun_refines_sample :
    (mqtt2restUnitRun .long64 (some sampleMqtt2Rest) (setupWith .success)
        [deliveringEnv (messageOf (bytes "on"))]).out.filterMap Effect.external? =
      [.mosquittoNew (bytes "product1"), .connect (bytes "localhost") 1883 60 .success,
        .perform ⟨"POST", bytes "http://localhost:8000/api/lamp", bytes "on"⟩ .ok] := by
  have hu : ∀ u, some sampleMqtt2Rest = some u →
      ∀ ev ∈ reported [deliveringEnv (messageOf (bytes "on"))], EventFits u ev := by
    rintro u ⟨⟩ ev hev
    obtain rfl := List.mem_singleton.mp hev
    exact ⟨by decide, by decide⟩
  rw [(mqtt2restUnitRun_refines .long64 hu (setupWith .success)).1]
  decide +kernel

/-! ## `rest2mqtt_unit_run` -/

section
variable {ι : Type}

theorem own_view {α : Type} (p : Run α) :
    (own p : UnitProc ι α).view external? = own (p.view Effect.external?) := view_tagged none p

theorem own_bind {α β : Type} (p : Run α) (f : α → Run β) :
    (own (p >>= f) : UnitProc ι β) = own p >>= fun a => own (f a) := Proc.mapOut_bind p f

theorem handler_view {α : Type} (p : Proc (ι × Effect) Halt α) :
    (handler p).view external? = handler (p.view external?) :=
  view_mapOut_external some p

/-- Code of the thread itself of which nothing is seen. -/
theorem own_unseen {α β : Type} {p : Run α} {a : α} (hp : p.view Effect.external? = pure a) (f : α → UnitProc ι β) :
    (own p >>= f).view external? = (f a).view external? := by
  rw [Proc.view_bind, own_view, hp]
  exact pure_bind a _

theorem emit_unseen {e : Effect} (he : e.external? = none) :
    (Proc.emit e : Run Unit).view Effect.external? = pure () := by
  rw [Proc.view_emit, he]
  rfl

theorem callback_ignores (w : LongWidth) (u : Rest2MqttUnitConfiguration) (config : Configuration) (ev : MosqEvent) :
    (callback w (rest2mqttClient u config) ev).view Effect.external? = ignoreEvent ev := by
  cases ev with
  | connect result => rfl
  | message msg env => rfl
  | subscribe mid qos more => exact subscribe_view _ mid qos more
  | disconnect rc => rfl
  | log level str => cases level <;> rfl

theorem StoresInside.quiet {count : Nat} {out : List Effect} (h : StoresInside count out) : Quiet out := by
  intro e he
  obtain ⟨i, _, rfl⟩ := h e he
  rfl

theorem getMhdPollfds_view (env : FdsetEnv) : (getMhdPollfds env pfdSize).view Effect.external? =
    if env.ret ≠ .yes ∨ pfdSize ≤ (mhdPart env).length then Proc.halt (.exit 1) else pure (mhdPart env) := by
  obtain ⟨o, ho, ⟨hr, hlt, heq⟩ | ⟨hbad, f, heq⟩⟩ := @getMhdPollfds_cases env pfdSize (by decide)
  · have hok : ¬ (env.ret ≠ .yes ∨ pfdSize ≤ (mhdPart env).length) := by
      simp only [hr, ne_eq, not_true_eq_false, false_or]
      omega
    rw [if_neg hok, heq]
    exact view_of_quiet (StoresInside.quiet ho) rfl
  · rw [if_pos hbad, heq]
    exact view_of_quiet (Mqrestt.quiet.append (StoresInside.quiet ho) (quiet_log _ _ _)) rfl

/-- The calls of the access handler in the rounds whose `poll` returned. -/
def servedCalls (envs : List (Rest2MqttEnv ι)) : List (ι × Call) :=
  envs.flatMap fun env => if env.poll.isReady then env.calls else []

theorem servedCalls_snoc (envs : List (Rest2MqttEnv ι)) (env : Rest2MqttEnv ι) :
    servedCalls (envs ++ [env]) = servedCalls envs ++ if env.poll.isReady then env.calls else [] := by
  simp [servedCalls]

theorem servedCalls_mono {as bs : List (Rest2MqttEnv ι)} (h : as <+: bs) : servedCalls as <+: servedCalls bs := by
  obtain ⟨cs, rfl⟩ := h
  exact ⟨servedCalls cs, List.flatMap_append.symm⟩

variable [DecidableEq ι] {w : LongWidth} {req : ι → Request}

structure MirrorsUnit (w : LongWidth) (req : ι → Request) (config : MqttClientConfiguration)
    (done : List (Rest2MqttEnv ι))
    (s : UnitState ι) (phs : ι → Phase) : Prop where
  client : s.1.config = config
  server : Mirrors w req (servedCalls done) s.2 phs

section
variable {u : Rest2MqttUnitConfiguration} {config : Configuration} (timeout : Int)

theorem MirrorsUnit.iteration {done : List (Rest2MqttEnv ι)} {s : UnitState ι} {phs : ι → Phase} (env : Rest2MqttEnv ι)
    (h : MirrorsUnit w req (rest2mqttClient u config) done s phs)
    (hp : ∀ i, (req i).method = postMethod → Protocol (callsOf i (servedCalls (done ++ [env])))) :
    Proc.Sim (Proc.Flow.Rel (MirrorsUnit w req (rest2mqttClient u config) (done ++ [env])))
      ((rest2mqttIteration w req timeout s env).view external?) (relayRound w req phs env) := by
  have hsnoc := servedCalls_snoc done env
  rw [rest2mqttIteration, own_unseen (checkConnection_view s.1)]
  simp only [Bool.not_true, Bool.false_eq_true, if_false]
  rw [relayRound, Proc.view_bind, own_view, getMhdPollfds_view]
  by_cases hbad : env.fdset.ret ≠ .yes ∨ pfdSize ≤ (mhdPart env.fdset).length
  · rw [if_pos hbad, if_pos hbad]
    exact .error [] _
  · rw [if_neg hbad, if_neg hbad]
    show Proc.Sim _ (Proc.view external? _) _
    rw [own_unseen (getPollfds_view s.1 env.socket), own_unseen (emit_unseen rfl), own_unseen (emit_unseen rfl)]
    cases hpoll : env.poll with
    | failed eintr =>
      rw [own_unseen (pollFailed_view eintr)]
      rw [hpoll] at hsnoc
      refine .ok (.stop ⟨h.client, ?_⟩)
      rw [hsnoc]
      simpa [PollResult.isReady] using h.server
    | ready pollin pollout =>
      rw [hpoll] at hsnoc
      simp only [PollResult.isReady, if_true] at hsnoc
      rw [hsnoc] at hp
      dsimp only
      rw [Proc.view_bind, handler_view]
      refine ((h.server.serveAll s.1 hp).mapOut _).bind fun server phs' hserver => ?_
      rw [Proc.view_bind, own_view]
      have hloop := mqttClientLoop_sim w h.client pollin pollout env.loop fun ev _ => callback_ignores w u config ev
      refine (hloop.mapOut _).bind fun h' _ hh' => .ok (.next ⟨hh', ?_⟩)
      rw [hsnoc]
      exact hserver

end

theorem rest2mqttUnitRun_sim (st : Store) (configdata : Option Rest2MqttUnitConfiguration) (setup : SetupEnv)
    {envs : List (Rest2MqttEnv ι)} (hp : ∀ i, (req i).method = postMethod → Protocol (callsOf i (servedCalls envs))) :
    Proc.Sim (fun _ _ => True) ((rest2mqttUnitRun w req st configdata setup envs).view external?)
      (relayUnit w req configdata setup envs) := by
  cases configdata with
  | none => exact .error [] _
  | some u =>
    unfold rest2mqttUnitRun relayUnit
    dsimp only
    cases hcfg : u.commonConfiguration with
    | none => exact .error [] _
    | some config =>
      dsimp only
      have hsetup := (openClient_sim (rest2mqttClient u config) setup).mapOut (Prod.mk (none : Option ι))
      have hinfo : ∀ f as, (info f as).view Effect.external? = pure () := fun _ _ => rfl
      rw [own_unseen (hinfo _ _), ← bind_assoc, Proc.view_bind, ← own_bind, own_view]
      refine hsetup.bind fun x _ hx => ?_
      rw [Proc.view_bind, own_view, Proc.view_emit]
      refine (Proc.Sim.refl _).bind fun _ _ _ => ?_
      rw [Proc.view_bind, Proc.view_loop]
      have hstart : MirrorsUnit w req (rest2mqttClient u config) [] (x.2, freshServer st) fun _ => .idle :=
        ⟨hx, Mirrors.init st⟩
      have hloop := Proc.Sim.loop_along (fun done s phs env hd h => h.iteration (pollTimeout config) env fun i hi =>
        (hp i hi).mono (callsOf_mono i (servedCalls_mono hd))) hstart
      refine hloop.bind fun y z hyz => ?_
      cases hyz with
      | next _ => exact .ok trivial
      | stop _ => exact .ok trivial

/-- **A REST to MQTT unit relays.** What is seen of its thread, through all its rounds, is what is seen of the
relay between the start and the stop of the server, and it ends as the relay does. Each block is taken to have room
for the terminator behind it. -/
theorem rest2mqttUnitRun_refines (st : Store) (configdata : Option Rest2MqttUnitConfiguration) (setup : SetupEnv)
    {envs : List (Rest2MqttEnv ι)} (hp : ∀ i, (req i).method = postMethod → Protocol (callsOf i (servedCalls envs))) :
    (rest2mqttUnitRun w req st configdata setup envs).out.filterMap external? =
      (relayUnit w req configdata setup envs).out ∧
      ((∃ s phs, (rest2mqttUnitRun w req st configdata setup envs).res = .ok s ∧
          (relayUnit w req configdata setup envs).res = .ok phs) ∨
        ∃ e, (rest2mqttUnitRun w req st configdata setup envs).res = .error e ∧
          (relayUnit w req configdata setup envs).res = .error e) := by
  obtain ⟨hout, ⟨s, phs, hs, hphs, _⟩ | herr⟩ := (rest2mqttUnitRun_sim st configdata setup hp).of_view
  · exact ⟨hout, Or.inl ⟨s, phs, hs, hphs⟩⟩
  · exact ⟨hout, Or.inr herr⟩

end

theorem sampleRun_protocol (i : Unit) (_ : (sampleRequest qosOne).method = postMethod) :
    Protocol (callsOf i (servedCalls [rest2mqttEnvWith .success (requestCalls (bytes "abc") .success)])) :=
  ⟨[bytes "abc"], by decide, by decide +revert⟩

theorem rest2mqttUnitRun_refines_sample : (sampleRun rootA .success).out.filterMap external? =
    [(none, .mosquittoNew (bytes "productA")), (none, .connect (bytes "localhost") 1883 60 .success),
      (none, .startDaemon 9000), (some (), .publish ⟨bytes "lamp/on", bytes "abc", 1, .success⟩),
      (some (), .queueResponse okResponse)] := by
  rw [sampleRun, (rest2mqttUnitRun_refines ⟨∅, ∅⟩ (some (sampleRest2Mqtt rootA)) (setupWith .success)
    sampleRun_protocol).1]
  decide +kernel

end Mqrestt
