import Mqrestt.MqttClientSound
import Mqrestt.Units

/-!
# Whole runs of the units

A property of effects that sequencing keeps holds of a run when it holds of what the
unit does itself, of each look at the client's socket, and of each call of the access
handler. What is proved about runs below comes from this, with an invariant of the
handle where one is needed.
-/

namespace Mqrestt
open CSem Mqtt

/-! ## What a unit does itself -/

def Effect.plain : Effect → Bool
  | .publish _ | .queueResponse _ | .socket _ => false
  | _ => true

/-- The numbers of its configuration that a unit hands on. -/
structure Numbers where
  port : Int
  keepalive : Int
  timeout : Int
  listen : Nat

def Effect.uses (n : Numbers) : Effect → Prop
  | .connect _ port keepalive _ => port = n.port ∧ keepalive = n.keepalive
  | .poll _ timeout => timeout = n.timeout
  | .startDaemon port => port = n.listen
  | _ => True

def Plain (n : Numbers) (out : List Effect) : Prop := ∀ e ∈ out, e.plain = true ∧ e.uses n

section
variable {n : Numbers}

theorem plain : Proc.Compositional (Plain n) := Proc.compositional_forall _

theorem FromCallback.plain {out : List Effect} (h : FromCallback out) : Plain n out := by
  intro e he
  have := h e he
  cases e <;> first | exact ⟨rfl, trivial⟩ | cases this

theorem Quiet.plain {out : List Effect} (h : Quiet out) : Plain n out := h.fromCallback.plain

theorem plain_emit {e : Effect} (h : e.plain = true) (hu : e.uses n) : Plain n (Proc.emit e : Run Unit).out := by
  intro e' he
  cases List.mem_singleton.mp he
  exact ⟨h, hu⟩

theorem plain_libCall (w : LongWidth) (config : MqttClientConfiguration) {effect : MosqErr → Effect} (c : LibCall)
    (h : (effect c.rc).plain = true) (hu : (effect c.rc).uses n) : Plain n (libCall w config effect c).out := by
  unfold libCall
  refine plain.bind (fromCallback.forM (fromCallback_callback w config) c.events).plain fun _ _ => ?_
  exact plain.bind (plain_emit h hu) fun _ _ => plain.nil

theorem plain_loopCall (w : LongWidth) (config : MqttClientConfiguration) (wanted : Bool)
    {effect : MosqErr → Effect} (c : LibCall) (ret : MosqErr) (h : (effect c.rc).plain = true)
    (hu : (effect c.rc).uses n) : Plain n (loopCall w config wanted effect c ret).out := by
  unfold loopCall
  split
  · exact plain_libCall w config c h hu
  · exact plain.nil

theorem plain_mqttClientLoop (w : LongWidth) (h : MqttClientHandle) (read write : Bool) (env : LoopEnv) :
    Plain n (mqttClientLoop w h read write env).out := by
  unfold mqttClientLoop
  refine plain.bind (plain_loopCall w _ _ _ _ rfl trivial) fun _ _ => ?_
  refine plain.bind (plain_loopCall w _ _ _ _ rfl trivial) fun _ _ => ?_
  exact plain.bind (plain_libCall w _ _ rfl trivial) fun _ _ => plain.nil

theorem plain_connectLoop {h : MqttClientHandle} (hp : h.config.brokerPort = n.port)
    (hk : h.config.keepalive = n.keepalive) (rc : Nat → MosqErr) (count k : Nat) :
    Plain n (connectLoop h rc count k).out := by
  induction count generalizing k with
  | zero => exact plain.nil
  | succ count ih =>
    unfold connectLoop
    refine plain.bind (plain_emit rfl ⟨hp, hk⟩) fun _ _ => ?_
    split
    · refine plain.bind (plain_emit rfl trivial) fun _ _ => ?_
      exact plain.bind (plain_emit rfl trivial) fun _ _ => ih (k + 1)
    · exact plain.nil

theorem plain_mqttClientConnect {h : MqttClientHandle} (hp : h.config.brokerPort = n.port)
    (hk : h.config.keepalive = n.keepalive) (env : ConnectEnv) : Plain n (mqttClientConnect h env).out := by
  obtain ⟨q1, q2⟩ := quiet_setUp h.config env.tlsSet env.usernamePwSet
  unfold mqttClientConnect
  refine plain.bind q1.plain fun _ _ => plain.bind q2.plain fun _ _ => ?_
  exact plain.bind (plain_connectLoop hp hk env.connect 3 0) fun _ _ => plain.nil

theorem plain_mqttClientInit (config : MqttClientConfiguration) (env : InitEnv) :
    Plain n (mqttClientInit config env).out := by
  unfold mqttClientInit
  refine plain.bind (plain_emit rfl trivial) fun _ _ => ?_
  split
  · exact plain_emit rfl trivial
  · split <;> exact plain.nil

theorem plain_checkConnection (h : MqttClientHandle) : Plain n (checkConnection h).out := by
  unfold checkConnection
  split
  · exact plain.bind (plain_emit rfl trivial) fun _ _ => plain.nil
  · exact plain.nil

theorem plain_pollFailed (eintr : Bool) : Plain n (pollFailed eintr).out := by
  unfold pollFailed
  split
  · exact plain_emit rfl trivial
  · exact plain.nil

theorem plain_getMhdPollfds (env : FdsetEnv) (count : Nat) : Plain n (getMhdPollfds env count).out := by
  have hfatal : ∀ f as, Plain n (fatal f as : Run (List Pollfd)).out := fun _ _ => plain_emit rfl trivial
  unfold getMhdPollfds
  split
  · exact hfatal _ _
  · apply plain.foldlM
    intro pfds fd
    unfold mhdPollfd
    split
    · refine plain.bind (plain_emit rfl trivial) fun _ _ => ?_
      dsimp only
      split
      · exact hfatal _ _
      · exact plain.nil
    · exact plain.nil

end

theorem mqttClientInit_config {config : MqttClientConfiguration} {env : InitEnv} {h : MqttClientHandle}
    (hr : (mqttClientInit config env).res = .ok h) : h.config = config := by
  unfold mqttClientInit at hr
  obtain ⟨_, _, hr, _⟩ := Proc.bind_eq_ok hr
  split at hr
  · cases hr
  · split at hr
    · cases hr
    · cases hr
      rfl

/-- The flag goes through the check as it is: `mqtt_client_reconnect` only says yes. -/
theorem checkConnection_res (h : MqttClientHandle) : (checkConnection h).res = .ok true := by
  unfold checkConnection mqttClientReconnect
  split <;> rfl

/-! ## `mqtt2rest_unit_run` -/

def numbersOf (config : Configuration) (listenPort : Int) : Numbers where
  port := config.mqttBrokerPort
  keepalive := config.mqttKeepalive
  timeout := pollTimeout config
  listen := (listenPort % 2 ^ 16).toNat

/-- A unit of this kind listens on no port, so any will do. -/
def mqtt2restNumbers (configdata : Option Mqtt2RestUnitConfiguration) (listenPort : Int) : Numbers :=
  match configdata.bind (·.commonConfiguration) with
  | some config => numbersOf config listenPort
  | none => ⟨0, 0, 0, 0⟩

section
variable (w : LongWidth) {Q : List Effect → Prop} (hQ : Proc.Compositional Q)
  {n : Numbers} (hplain : ∀ out, Plain n out → Q out)
  {I : MqttClientHandle → Prop} (hsocket : ∀ h, I h → Q [.socket h.connected])
include hQ hplain hsocket

theorem mqtt2restIteration_out {h : MqttClientHandle} (hI : I h) (env : Mqtt2RestEnv) :
    Q (mqtt2restIteration w n.timeout h env).out := by
  unfold mqtt2restIteration
  refine hQ.bind (hplain _ (plain_checkConnection h)) fun b _ => ?_
  split
  · exact hQ.nil
  · refine hQ.bind (hQ.bind (hsocket h hI) fun _ _ => hQ.nil) fun pfd _ => ?_
    refine hQ.bind (hplain _ (plain_emit rfl rfl)) fun _ _ => ?_
    cases env.poll with
    | failed eintr => exact hQ.bind (hplain _ (plain_pollFailed eintr)) fun _ _ => hQ.nil
    | ready pollin pollout => exact hQ.bind (hplain _ (plain_mqttClientLoop w h _ _ _)) fun _ _ => hQ.nil

omit hQ hplain hsocket in
theorem mqtt2restIteration_next {timeout : Int} {h h' : MqttClientHandle} {env : Mqtt2RestEnv}
    (hr : (mqtt2restIteration w timeout h env).res = .ok (.next h')) :
    ∃ pollin pollout, env.poll = .ready pollin pollout ∧
      (mqttClientLoop w h pollin pollout env.loop).res = .ok h' := by
  unfold mqtt2restIteration at hr
  rw [Proc.bind_of_ok (checkConnection_res h)] at hr
  simp only [Bool.not_true, Bool.false_eq_true, if_false] at hr
  obtain ⟨_, _, hr, _⟩ := Proc.bind_eq_ok hr
  obtain ⟨_, _, hr, _⟩ := Proc.bind_eq_ok hr
  cases hp : env.poll with
  | failed eintr =>
    rw [hp] at hr
    obtain ⟨_, _, hr, _⟩ := Proc.bind_eq_ok hr
    cases hr
  | ready pollin pollout =>
    rw [hp] at hr
    obtain ⟨h₁, hl, hr, _⟩ := Proc.bind_eq_ok hr
    cases hr
    exact ⟨pollin, pollout, rfl, hl⟩

/-- **Properties of runs.** -/
theorem mqtt2restUnitRun_out {configdata : Option Mqtt2RestUnitConfiguration} {listenPort : Int}
    (hn : mqtt2restNumbers configdata listenPort = n) {setup : SetupEnv} {envs : List Mqtt2RestEnv}
    (hstart : ∀ h h' b, (mqttClientConnect h setup.connect).res = .ok (b, h') → I h')
    (hkeep : ∀ env ∈ envs, ∀ h h' pollin pollout, env.poll = .ready pollin pollout → I h →
      (mqttClientLoop w h pollin pollout env.loop).res = .ok h' → I h') :
    Q (mqtt2restUnitRun w configdata setup envs).out := by
  unfold mqtt2restUnitRun
  cases configdata with
  | none => exact hQ.nil
  | some unitconfig =>
    refine hQ.bind (hplain _ (plain_emit rfl trivial)) fun _ _ => ?_
    cases hc : unitconfig.commonConfiguration with
    | none => exact hQ.nil
    | some config =>
      obtain rfl : numbersOf config listenPort = n := by simpa [mqtt2restNumbers, hc] using hn
      refine hQ.bind (hplain _ (plain_mqttClientInit _ _)) fun h hinit => ?_
      have hconf := mqttClientInit_config hinit
      refine hQ.bind (hplain _ (plain_mqttClientConnect (by rw [hconf]; rfl) (by rw [hconf]; rfl) _)) fun r hr => ?_
      refine hQ.bind ?_ fun f _ => ?_
      · refine hQ.loop (fun h env _ hI => mqtt2restIteration_out w hQ hplain hsocket hI env) ?_
          (hstart h r.2 r.1 hr)
        intro h₁ h₂ env henv hI hnext
        obtain ⟨pollin, pollout, hp, hl⟩ := mqtt2restIteration_next w hnext
        exact hkeep env henv h₁ h₂ pollin pollout hp hI hl
      · cases f with
        | next h => exact hQ.nil
        | stop h => exact hQ.bind (hplain _ (plain_emit rfl trivial)) fun _ _ => hQ.nil

end

/-! ## `rest2mqtt_unit_run` -/

def rest2mqttNumbers (configdata : Option Rest2MqttUnitConfiguration) : Numbers :=
  match configdata with
  | some unitconfig =>
    match unitconfig.commonConfiguration with
    | some config => numbersOf config unitconfig.listenPort
    | none => ⟨0, 0, 0, 0⟩
  | none => ⟨0, 0, 0, 0⟩

section
variable {ι : Type} [DecidableEq ι] (w : LongWidth) (req : ι → Request)
  {Q : List (Option ι × Effect) → Prop} (hQ : Proc.Compositional Q)
  {n : Numbers} (hplain : ∀ out, Plain n out → Q (out.map (Prod.mk none)))
  (hcall : ∀ i cls c st conCls, Q ((answerToConnection w cls (req i) c st conCls).out.map (Prod.mk (some i))))
  {I : MqttClientHandle → Prop} (hsocket : ∀ h, I h → Q [(none, .socket h.connected)])

include hQ hcall in
theorem serveAll_out (cls : MqttClientHandle) (s : Server ι) (es : List (ι × Call)) :
    Q (handler (serveAll w cls req s es)).out := by
  have hQ' : Proc.Compositional fun out : List (ι × Effect) => Q (out.map fun e => (some e.1, e.2)) :=
    ⟨hQ.nil, fun ha hb => by rw [List.map_append]; exact hQ.append ha hb⟩
  refine hQ'.foldlM (fun s e => ?_) es s
  refine hQ'.bind ?_ fun _ _ => hQ.nil
  have := hcall e.1 cls e.2 s.store (s.conCls e.1)
  simpa [Function.comp_def] using this

include hQ hplain hcall hsocket in
theorem rest2mqttIteration_out {s : UnitState ι} (hI : I s.1) (env : Rest2MqttEnv ι) :
    Q (rest2mqttIteration w req n.timeout s env).out := by
  unfold rest2mqttIteration
  refine hQ.bind (hplain _ (plain_checkConnection s.1)) fun b _ => ?_
  split
  · exact hQ.nil
  · refine hQ.bind (hplain _ (plain_getMhdPollfds _ _)) fun pfds _ => ?_
    refine hQ.bind (hsocket s.1 hI) fun pfd _ => ?_
    refine hQ.bind (hplain _ (plain_emit rfl trivial)) fun _ _ => ?_
    refine hQ.bind (hplain _ (plain_emit rfl rfl)) fun _ _ => ?_
    cases env.poll with
    | failed eintr => exact hQ.bind (hplain _ (plain_pollFailed eintr)) fun _ _ => hQ.nil
    | ready pollin pollout =>
      refine hQ.bind (serveAll_out w req hQ hcall s.1 s.2 env.calls) fun server _ => ?_
      exact hQ.bind (hplain _ (plain_mqttClientLoop w s.1 _ _ _)) fun _ _ => hQ.nil

theorem rest2mqttIteration_next {timeout : Int} {s s' : UnitState ι} {env : Rest2MqttEnv ι}
    (hr : (rest2mqttIteration w req timeout s env).res = .ok (.next s')) :
    ∃ pollin pollout, env.poll = .ready pollin pollout ∧
      (mqttClientLoop w s.1 pollin pollout env.loop).res = .ok s'.1 := by
  have hcheck : (own (checkConnection s.1) : UnitProc ι Bool).res = .ok true := checkConnection_res s.1
  unfold rest2mqttIteration at hr
  rw [Proc.bind_of_ok hcheck] at hr
  simp only [Bool.not_true, Bool.false_eq_true, if_false] at hr
  obtain ⟨_, _, hr, _⟩ := Proc.bind_eq_ok hr
  obtain ⟨_, _, hr, _⟩ := Proc.bind_eq_ok hr
  obtain ⟨_, _, hr, _⟩ := Proc.bind_eq_ok hr
  obtain ⟨_, _, hr, _⟩ := Proc.bind_eq_ok hr
  cases hp : env.poll with
  | failed eintr =>
    rw [hp] at hr
    obtain ⟨_, _, hr, _⟩ := Proc.bind_eq_ok hr
    cases hr
  | ready pollin pollout =>
    rw [hp] at hr
    obtain ⟨_, _, hr, _⟩ := Proc.bind_eq_ok hr
    obtain ⟨h₁, hl, hr, _⟩ := Proc.bind_eq_ok hr
    cases hr
    exact ⟨pollin, pollout, rfl, hl⟩

include hQ hplain hcall hsocket in
theorem rest2mqttUnitRun_out (st : Store) {configdata : Option Rest2MqttUnitConfiguration}
    (hn : rest2mqttNumbers configdata = n) {setup : SetupEnv} {envs : List (Rest2MqttEnv ι)}
    (hstart : ∀ h h' b, (mqttClientConnect h setup.connect).res = .ok (b, h') → I h')
    (hkeep : ∀ env ∈ envs, ∀ h h' pollin pollout, env.poll = .ready pollin pollout → I h →
      (mqttClientLoop w h pollin pollout env.loop).res = .ok h' → I h') :
    Q (rest2mqttUnitRun w req st configdata setup envs).out := by
  unfold rest2mqttUnitRun
  cases configdata with
  | none => exact hQ.nil
  | some unitconfig =>
    cases hc : unitconfig.commonConfiguration with
    | none => simp only [hc]; exact hQ.nil
    | some config =>
      simp only [hc]
      obtain rfl : numbersOf config unitconfig.listenPort = n := by simpa [rest2mqttNumbers, hc] using hn
      refine hQ.bind (hplain _ (plain_emit rfl trivial)) fun _ _ => ?_
      refine hQ.bind (hplain _ (plain_mqttClientInit _ _)) fun h hinit => ?_
      have hconf := mqttClientInit_config hinit
      refine hQ.bind (hplain _ (plain_mqttClientConnect (by rw [hconf]; rfl) (by rw [hconf]; rfl) _)) fun r hr => ?_
      refine hQ.bind (hplain _ (plain_emit rfl rfl)) fun _ _ => ?_
      refine hQ.bind ?_ fun f _ => ?_
      · refine hQ.loop (I := fun s => I s.1)
          (fun s env _ hI => rest2mqttIteration_out w req hQ hplain hcall hsocket hI env) ?_ (hstart h r.2 r.1 hr)
        intro s₁ s₂ env henv hI hnext
        obtain ⟨pollin, pollout, hp, hl⟩ := rest2mqttIteration_next w req hnext
        exact hkeep env henv s₁.1 s₂.1 pollin pollout hp hI hl
      · cases f with
        | next s => exact hQ.nil
        | stop s =>
          refine hQ.bind (hplain _ (plain_emit rfl trivial)) fun _ _ => ?_
          refine hQ.bind (hplain _ (plain_emit rfl trivial)) fun _ _ => ?_
          exact hQ.bind (hplain _ (plain_emit rfl trivial)) fun _ _ => hQ.nil

end

/-! ## Sample units -/

def sampleConfiguration : Configuration where
  mqttBrokerHost := localhost
  mqttBrokerPort := 1883
  mqttKeepalive := 60
  mqttTls := false
  mqttCafile := none
  mqttCapath := none
  mqttCertfile := none
  mqttKeyfile := none
  mqttUserPw := false
  mqttUser := emptyStr
  mqttPw := emptyStr

def sampleMqtt2Rest : Mqtt2RestUnitConfiguration where
  unitName := ⟨bytes "product1", by decide⟩
  enabled := true
  webserviceBaseurl := ⟨bytes "http://localhost:8000/api", by decide⟩
  mqttTopic := unit1
  commonConfiguration := some sampleConfiguration

def sampleRest2Mqtt (root : CStr) : Rest2MqttUnitConfiguration where
  unitName := ⟨bytes "productA", by decide⟩
  enabled := true
  listenPort := 9000
  mqttTopicRoot := root
  commonConfiguration := some sampleConfiguration

def rootA : CStr := ⟨bytes "/productA/", by decide⟩

def rootB : CStr := ⟨bytes "/productB/", by decide⟩

def setupWith (connect : MosqErr) : SetupEnv := ⟨⟨true, true⟩, ⟨.success, .success, fun _ => connect⟩⟩

def loopEnvWith (rc : MosqErr) : LoopEnv := ⟨⟨[], rc⟩, ⟨[], rc⟩, ⟨[], rc⟩⟩

def mqtt2restEnvWith (rc : MosqErr) : Mqtt2RestEnv := ⟨⟨5, false⟩, .ready true false, loopEnvWith rc⟩

def rest2mqttEnvWith (rc : MosqErr) (calls : List (Unit × Call)) : Rest2MqttEnv Unit where
  fdset := ⟨.yes, 4, fun fd => fd == 4, fun _ => false, fun _ => false⟩
  socket := ⟨5, false⟩
  poll := .ready true false
  calls := calls
  loop := loopEnvWith rc

def requestCalls (body : List Byte) (publish : MosqErr) : List (Unit × Call) :=
  let last := plainCall [] 3
  [((), plainCall [] 1), ((), plainCall body 2), ((), { last with env := { last.env with publish } })]

def sampleRun (root : CStr) (publish : MosqErr) : UnitProc Unit (Proc.Flow (UnitState Unit)) :=
  rest2mqttUnitRun .long64 (fun _ => sampleRequest qosOne) ⟨∅, ∅⟩ (some (sampleRest2Mqtt root)) (setupWith .success)
    [rest2mqttEnvWith .success (requestCalls (bytes "abc") publish)]

/-! ## The socket is looked at while connected -/

def clearsFlag (poll : PollResult) (env : LoopEnv) : Bool :=
  match poll with
  | .failed _ => false
  | .ready pollin pollout => (decisive pollin pollout env).isLoss

theorem connected_of_loop {w : LongWidth} {h h' : MqttClientHandle} {pollin pollout : Bool} {poll : PollResult}
    {env : LoopEnv} (hp : poll = .ready pollin pollout) (hkeep : clearsFlag poll env = false)
    (hc : h.connected = true) (hr : (mqttClientLoop w h pollin pollout env).res = .ok h') : h'.connected = true := by
  have hd : (decisive pollin pollout env).isLoss = false := by rw [hp] at hkeep; exact hkeep
  have hh := (mqttClientLoop_returned hr).2
  rw [hd] at hh
  rw [hh]
  exact hc

section
variable (w : LongWidth) {setup : SetupEnv} (hconnect : ∃ j < 3, setup.connect.connect j = .success)

theorem plain_ne_socket {e : Effect} (h : e.plain = true) : e ≠ .socket false := by
  intro hs
  subst hs; cases h

include hconnect

theorem connected_of_setup (h h' : MqttClientHandle) (b : Bool)
    (hr : (mqttClientConnect h setup.connect).res = .ok (b, h')) : h'.connected = true :=
  ((mqttClientConnect_returned hr).2.1 hconnect).1

theorem mqtt2rest_sockets (configdata : Option Mqtt2RestUnitConfiguration) {envs : List Mqtt2RestEnv}
    (hkeep : ∀ env ∈ envs, clearsFlag env.poll env.loop = false) :
    ∀ e ∈ (mqtt2restUnitRun w configdata setup envs).out, e ≠ .socket false := by
  have hQ := Proc.compositional_forall fun e : Effect => e ≠ .socket false
  apply mqtt2restUnitRun_out w hQ (I := fun h => h.connected = true) (n := mqtt2restNumbers configdata 0)
  · intro out hout e he
    exact plain_ne_socket (hout e he).1
  · intro h hI
    simp [hI]
  · rfl
  · exact connected_of_setup hconnect
  · intro env henv h h' pollin pollout hp hc hr
    exact connected_of_loop hp (hkeep env henv) hc hr

theorem rest2mqtt_sockets {ι : Type} [DecidableEq ι] (req : ι → Request) (st : Store)
    (configdata : Option Rest2MqttUnitConfiguration) {envs : List (Rest2MqttEnv ι)}
    (hkeep : ∀ env ∈ envs, clearsFlag env.poll env.loop = false) :
    ∀ e ∈ (rest2mqttUnitRun w req st configdata setup envs).out, e.2 ≠ .socket false := by
  have hQ := Proc.compositional_forall fun e : Option ι × Effect => e.2 ≠ .socket false
  apply rest2mqttUnitRun_out w req hQ (I := fun h => h.connected = true)
  · intro out hout e he
    obtain ⟨e', he', rfl⟩ := List.mem_map.mp he
    exact plain_ne_socket (hout e' he').1
  · intro i cls c st conCls e he
    obtain ⟨e', he', rfl⟩ := List.mem_map.mp he
    rcases mem_answer he' with hi | ⟨_, _, _, rfl⟩ | rfl
    · intro h
      rw [show e' = .socket false from h] at hi
      cases hi
    · simp
    · simp
  · intro h hI
    simp [hI]
  · rfl
  · exact connected_of_setup hconnect
  · intro env henv h h' pollin pollout hp hc hr
    exact connected_of_loop hp (hkeep env henv) hc hr

end

/-- **A unit works while connected**, as long as one of its attempts to connect succeeded and no
iteration has cleared the flag. -/
theorem sockets_connected {ι : Type} [DecidableEq ι] (w : LongWidth) {setup : SetupEnv}
    (hconnect : ∃ j < 3, setup.connect.connect j = .success) :
    (∀ configdata envs, (∀ env ∈ envs, clearsFlag env.poll env.loop = false) →
        ∀ b, Effect.socket b ∈ (mqtt2restUnitRun w configdata setup envs).out → b = true) ∧
      ∀ (req : ι → Request) st configdata envs, (∀ env ∈ envs, clearsFlag env.poll env.loop = false) →
        ∀ x b, (x, Effect.socket b) ∈ (rest2mqttUnitRun w req st configdata setup envs).out → b = true := by
  constructor
  · intro configdata envs hkeep b hb
    have := mqtt2rest_sockets w hconnect configdata hkeep _ hb
    cases b with
    | true => rfl
    | false => exact absurd rfl this
  · intro req st configdata envs hkeep x b hb
    have := rest2mqtt_sockets w hconnect req st configdata hkeep _ hb
    cases b with
    | true => rfl
    | false => exact absurd rfl this

theorem sockets_connected_sample :
    (∀ b, Effect.socket b ∈ (mqtt2restUnitRun .long64 (some sampleMqtt2Rest) (setupWith .success)
        [mqtt2restEnvWith .success, mqtt2restEnvWith .success]).out → b = true) ∧
      ∀ x b, (x, Effect.socket b) ∈ (rest2mqttUnitRun .long64 (fun _ : Unit => sampleRequest qosOne) ⟨∅, ∅⟩
        (some (sampleRest2Mqtt rootA)) (setupWith .success) [rest2mqttEnvWith .success []]).out → b = true := by
  have hconnect : ∃ j < 3, (setupWith .success).connect.connect j = .success := ⟨0, by decide, rfl⟩
  obtain ⟨h₁, h₂⟩ := @sockets_connected Unit _ .long64 _ hconnect
  refine ⟨h₁ _ _ ?_, h₂ _ _ _ _ ?_⟩
  · intro env henv
    simp only [List.mem_cons, List.not_mem_nil, or_false, or_self] at henv
    subst henv; rfl
  · intro env henv
    cases List.mem_singleton.mp henv
    rfl

theorem sockets_unconnected :
    (.socket false ∈ (mqtt2restUnitRun .long64 (some sampleMqtt2Rest) (setupWith .noConn)
        [mqtt2restEnvWith .success]).out ∧
      .socket false ∈ (mqtt2restUnitRun .long64 (some sampleMqtt2Rest) (setupWith .success)
        [mqtt2restEnvWith .connLost, mqtt2restEnvWith .success]).out) ∧
    ((none, .socket false) ∈ (rest2mqttUnitRun .long64 (fun _ : Unit => sampleRequest qosOne) ⟨∅, ∅⟩
        (some (sampleRest2Mqtt rootA)) (setupWith .noConn) [rest2mqttEnvWith .success []]).out ∧
      (none, .socket false) ∈ (rest2mqttUnitRun .long64 (fun _ : Unit => sampleRequest qosOne) ⟨∅, ∅⟩
        (some (sampleRest2Mqtt rootA)) (setupWith .success)
        [rest2mqttEnvWith .connLost [], rest2mqttEnvWith .success []]).out) := by
  decide +kernel

/-! ## Messages and answers of a run -/

section
variable {ι : Type} [DecidableEq ι]

/-- Only the handler publishes and answers; it publishes to the topic of the request, and all its
answers are the same. -/
def Handled (req : ι → Request) : Option ι × Effect → Prop
  | (some i, .publish p) => p.topic = topicOf (req i)
  | (some _, .queueResponse a) => a.status = mhdHttpOk
  | (none, .publish _) | (none, .queueResponse _) => False
  | _ => True

def Paired (out : List (Option ι × Effect)) : Prop :=
  ∀ i, (∃ a, (some i, Effect.queueResponse a) ∈ out) ↔ ∃ p, (some i, Effect.publish p) ∈ out

omit [DecidableEq ι] in
theorem paired : Proc.Compositional (Paired : List (Option ι × Effect) → Prop) where
  nil i := by simp
  append ha hb i := by
    simp only [List.mem_append, exists_or]
    exact or_congr (ha i) (hb i)

variable (w : LongWidth) (req : ι → Request) (st : Store) (configdata : Option Rest2MqttUnitConfiguration)
  (setup : SetupEnv) (envs : List (Rest2MqttEnv ι))

theorem run_handled : ∀ e ∈ (rest2mqttUnitRun w req st configdata setup envs).out, Handled req e := by
  apply rest2mqttUnitRun_out w req (Proc.compositional_forall (Handled req)) (I := fun _ => True)
  · intro out hout e he
    obtain ⟨e', he', rfl⟩ := List.mem_map.mp he
    have := (hout e' he').1
    cases e' <;> trivial
  · intro i cls c st conCls e he
    obtain ⟨e', he', rfl⟩ := List.mem_map.mp he
    rcases mem_answer he' with hi | ⟨_, _, _, rfl⟩ | rfl
    · cases e' <;> trivial
    · rfl
    · rfl
  · simp [Handled]
  · rfl
  · intros; trivial
  · intros; trivial

theorem run_paired : Paired (rest2mqttUnitRun w req st configdata setup envs).out := by
  apply rest2mqttUnitRun_out w req paired (I := fun _ => True)
  · intro out hout i
    simp
  · intro i cls c st conCls j
    have h := answers_iff_publishes w cls (req i) c st conCls
    by_cases hij : i = j
    · subst hij
      simpa using h
    · simp [hij]
  · intro h _ i
    simp
  · rfl
  · intros; trivial
  · intros; trivial

def ToldOk (out : List (Option ι × Effect)) (i : ι) : Prop :=
  ∃ a, (some i, Effect.queueResponse a) ∈ out ∧ a.status = mhdHttpOk

def NoAckLost (out : List (Option ι × Effect)) : Prop :=
  ∀ i, ToldOk out i → (∃ p, (some i, Effect.publish p) ∈ out ∧ p.rc = .success) ∧
    ∀ p, (some i, Effect.publish p) ∈ out → p.rc = .success

/-- **No acknowledged message is lost exactly when none is lost at all.** Terminators that go one past a block are taken
to do no harm. -/
theorem noAckLost_iff : NoAckLost (rest2mqttUnitRun w req st configdata setup envs).out ↔
    ∀ x p, (x, Effect.publish p) ∈ (rest2mqttUnitRun w req st configdata setup envs).out → p.rc = .success := by
  have hpaired := run_paired w req st configdata setup envs
  have hhandled := run_handled w req st configdata setup envs
  constructor
  · intro h x p hp
    cases x with
    | none => exact (hhandled _ hp).elim
    | some i =>
      obtain ⟨a, ha⟩ := (hpaired i).mpr ⟨p, hp⟩
      exact (h i ⟨a, ha, hhandled _ ha⟩).2 p hp
  · intro h i hi
    obtain ⟨a, ha, _⟩ := hi
    obtain ⟨p, hp⟩ := (hpaired i).mp ⟨a, ha⟩
    exact ⟨⟨p, hp, h _ p hp⟩, fun q hq => h _ q hq⟩

theorem not_noAckLost_noConn : ¬ NoAckLost (sampleRun rootA .noConn).out := by
  intro h
  have hpub : (some (), Effect.publish ⟨bytes "lamp/on", bytes "abc", 1, .noConn⟩) ∈
      (sampleRun rootA .noConn).out := by decide +kernel
  have htold : (some (), Effect.queueResponse ⟨mhdHttpOk, "text/html", bytes "OK" ++ [0]⟩) ∈
      (sampleRun rootA .noConn).out := by decide +kernel
  exact absurd ((h () ⟨_, htold, rfl⟩).2 _ hpub) (by decide)

/-! ## Topics and the root of the unit -/

def stripSlash (url : List Byte) : List Byte := if url.head? = some slash then url.tail else url

def UnderRoot (root : CStr) (req : ι → Request) (out : List (Option ι × Effect)) : Prop :=
  ∀ i p, (some i, Effect.publish p) ∈ out → p.topic = joinSlash root.bytes (stripSlash (req i).url.str.bytes)

/-- The topic of a request never gets that long, unless its URL is empty and the topic is read
from the memory behind it. -/
theorem topicOf_eq_iff (root : List Byte) (r : Request) :
    topicOf r = joinSlash root (stripSlash r.url.str.bytes) ↔
      r.url.str.bytes = [] ∧ cstr r.url.beyond = joinSlash root [] := by
  have h0 := r.url.str.noNul
  unfold topicOf CStrAt.mem
  cases hu : r.url.str.bytes with
  | nil => simp [stripSlash]
  | cons b u =>
    rw [hu] at h0
    have htopic : cstr ((b :: u ++ 0 :: r.url.beyond).drop 1) = u :=
      cstr_append_nul (fun hm => h0 (List.mem_cons_of_mem _ hm)) _
    have hlen : u.length ≤ (stripSlash (b :: u)).length := by
      unfold stripSlash
      split <;> simp
    have hlt := length_lt_joinSlash root (stripSlash (b :: u))
    rw [htopic]
    constructor
    · intro h
      rw [← h] at hlt
      omega
    · intro h
      cases h.1

/-- **No message of a request with a URL goes under the root.** -/
theorem underRoot_iff (unitconfig : Rest2MqttUnitConfiguration) :
    UnderRoot unitconfig.mqttTopicRoot req (rest2mqttUnitRun w req st (some unitconfig) setup envs).out ↔
      ∀ i p, (some i, Effect.publish p) ∈ (rest2mqttUnitRun w req st (some unitconfig) setup envs).out →
        (req i).url.str.bytes = [] ∧ cstr (req i).url.beyond = joinSlash unitconfig.mqttTopicRoot.bytes [] := by
  have hhandled := run_handled w req st (some unitconfig) setup envs
  unfold UnderRoot
  refine forall_congr' fun i => forall_congr' fun p => forall_congr' fun hp => ?_
  rw [← topicOf_eq_iff, show p.topic = topicOf (req i) from hhandled _ hp]

end

theorem not_underRoot_lamp :
    ¬ UnderRoot rootA (fun _ => sampleRequest qosOne) (sampleRun rootA .success).out ∧
      ∃ p q, (some (), .publish p) ∈ (sampleRun rootA .success).out ∧
        (some (), .publish q) ∈ (sampleRun rootB .success).out ∧ p.topic = q.topic := by
  have hpub : ∀ root ∈ [rootA, rootB], (some (), .publish ⟨bytes "lamp/on", bytes "abc", 1, .success⟩) ∈
      (sampleRun root .success).out := by decide +kernel
  have hA := hpub rootA (by simp)
  refine ⟨fun h => absurd (h () _ hA) (by decide), _, _, hA, hpub rootB (by simp), rfl⟩

end Mqrestt
