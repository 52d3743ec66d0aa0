import Mqrestt.BackendsSound
import Mqrestt.DaemonSound
import Mqrestt.InitConfigSound
import Mqrestt.JoinSound
import Mqrestt.Lib.Halts
import Mqrestt.Program

/-!
# How the program ends

Every function of the source that calls `exit` says why before, and nothing comes after
its last word. Whether the word is seen depends on the level of the log: `main` uses a
level for two of them that a log of fatal lines leaves out.
-/

namespace Mqrestt
open CSem

/-! ## The last word -/

/-- The user sees it: a line for `stderr`, or a line of the log that is not dropped. -/
def Effect.tells (loglevel : Nat) : Effect → Bool
  | .stderr .. => true
  | .log type .. => type.level ≤ loglevel
  | _ => false

/-- An exit has status 1, and the last word is one that no setting of `loglevel` drops. -/
def SaysWhy (out : List Effect) (h : Halt) : Prop :=
  ∀ code, h = .exit code → code = 1 ∧ ∃ e, out.getLast? = some e ∧ e.tells 0 = true

theorem saysWhy_front (o' o : List Effect) (h : Halt) (ht : SaysWhy o h) : SaysWhy (o' ++ o) h := by
  intro code hcode
  obtain ⟨h1, e, he, htells⟩ := ht code hcode
  exact ⟨h1, e, by rw [List.getLast?_append, he, Option.some_or], htells⟩

theorem saysWhy_of_not_exit (o : List Effect) {h : Halt} (hh : ∀ code, h ≠ .exit code) : SaysWhy o h :=
  fun code hcode => absurd hcode (hh code)

/-- For a process whose effects carry a mark. -/
def SaysWhyTagged {κ : Type} (out : List (κ × Effect)) (h : Halt) : Prop := SaysWhy (out.map Prod.snd) h

theorem saysWhyTagged_front {κ : Type} (o' o : List (κ × Effect)) (h : Halt) (ht : SaysWhyTagged o h) :
    SaysWhyTagged (o' ++ o) h := by
  unfold SaysWhyTagged
  rw [List.map_append]
  exact saysWhy_front _ _ h ht

section
variable {α : Type}

theorem halts_fatal (format : String) (args : List LogArg) : Proc.Halts SaysWhy (fatal format args : Run α) := by
  intro h hres code hcode
  cases hres
  cases hcode
  exact ⟨rfl, _, rfl, rfl⟩

theorem halts_halt {h : Halt} (hh : ∀ code, h ≠ .exit code) : Proc.Halts SaysWhy (Proc.halt h : Run α) := by
  intro h' hres
  cases hres
  exact saysWhy_of_not_exit _ hh

theorem halts_outOfMemory (line n : Nat) : Proc.Halts SaysWhy (outOfMemory line n : Run α) := by
  intro h hres code hcode
  cases hres
  cases hcode
  exact ⟨rfl, _, rfl, rfl⟩

theorem halts_tagged {κ : Type} (k : κ) {p : Run α} (hp : Proc.Halts SaysWhy p) :
    Proc.Halts SaysWhyTagged (p.mapOut (Prod.mk k)) := by
  intro h hres
  have ht := hp h hres
  simpa [SaysWhyTagged, Function.comp_def] using ht

end

/-! ## `utils.c` and `mqtt2rest_unit.c` -/

section
variable {α : Type}

theorem halts_safeMalloc (h : Heap α) (offer : Option Addr) (v : α) (n line : Nat) :
    Proc.Halts SaysWhy (safeMalloc h offer v n line) := by
  unfold safeMalloc
  split
  · exact Proc.halts_pure _ _
  · exact halts_outOfMemory line n

theorem halts_safeRealloc (h : Heap Block) (offer : Option Addr) (fill : Mem) (ptr : Option Addr) (n line : Nat) :
    Proc.Halts SaysWhy (safeRealloc h offer fill ptr n line) := by
  unfold safeRealloc
  split
  · exact Proc.halts_pure _ _
  · exact halts_outOfMemory line n

theorem halts_deref (h : Heap α) (a : Addr) : Proc.Halts SaysWhy (deref h a) := by
  unfold deref
  split
  · exact Proc.halts_pure _ _
  · exact halts_halt fun code hcode => by cases hcode

end

theorem halts_parseInt (w : LongWidth) (str : Option (List Byte)) (val : Int) :
    Proc.Halts SaysWhy (parseInt w str val) := by
  unfold parseInt
  split
  · exact halts_halt fun code hcode => by cases hcode
  · exact Proc.halts_pure _ _

theorem halts_fullUrl (w : LongWidth) (config : Mqtt2RestUnitConfiguration) (url : List Byte) (env : CurlEnv) :
    Proc.Halts SaysWhy (fullUrl w config url env) := by
  unfold fullUrl
  refine Proc.Halts.bind saysWhy_front (Proc.halts_emits _ _) fun _ _ => ?_
  refine Proc.Halts.bind saysWhy_front ?_ fun _ _ => ?_
  · unfold appendSlash
    refine Proc.Halts.bind saysWhy_front (Proc.halts_emit _ _) fun _ _ => ?_
    split
    · exact Proc.halts_of_ok rfl
    · exact Proc.halts_pure _ _
  · exact Proc.halts_of_ok rfl

theorem halts_restPost (w : LongWidth) (config : Mqtt2RestUnitConfiguration) (url : List Byte)
    (payload : Option (List Byte)) (env : CurlEnv) : Proc.Halts SaysWhy (restPost w config url payload env) := by
  unfold restPost
  refine Proc.Halts.bind saysWhy_front (Proc.halts_emit _ _) fun _ _ => ?_
  refine Proc.Halts.bind saysWhy_front (halts_fullUrl w config url env) fun m _ => ?_
  refine Proc.Halts.bind saysWhy_front (Proc.halts_emit _ _) fun _ _ => ?_
  split
  · refine Proc.Halts.bind saysWhy_front (Proc.halts_emit _ _) fun _ _ => ?_
    split
    · exact Proc.halts_of_ok rfl
    · exact Proc.halts_of_ok rfl
  · exact Proc.halts_of_ok rfl

theorem halts_onMqttMsg (w : LongWidth) (topic : CStrAt) (msg : Option (List Byte))
    (ctx : Option Mqtt2RestUnitConfiguration) (env : CurlEnv) : Proc.Halts SaysWhy (onMqttMsg w topic msg ctx env) := by
  unfold onMqttMsg
  refine Proc.Halts.bind saysWhy_front (Proc.halts_emit _ _) fun _ _ => ?_
  split
  · exact halts_halt fun code hcode => by cases hcode
  · have hpost := fun u url => halts_restPost w u url msg env
    split
    · refine Proc.Halts.bind saysWhy_front (Proc.halts_emit _ _) fun _ _ => ?_
      exact Proc.Halts.bind saysWhy_front (hpost _ _) fun _ _ => Proc.halts_pure _ _
    · exact Proc.Halts.bind saysWhy_front (hpost _ _) fun _ _ => Proc.halts_pure _ _

/-! ## `mqtt_client.c` -/

theorem halts_callback (w : LongWidth) (config : MqttClientConfiguration) (e : MosqEvent) :
    Proc.Halts SaysWhy (callback w config e) := by
  cases e with
  | connect result =>
    simp only [callback, mqttCbConnect]
    refine Proc.Halts.bind saysWhy_front (Proc.halts_emit _ _) fun _ _ => ?_
    split
    · exact Proc.halts_pure _ _
    · split
      · exact halts_fatal _ _
      · split
        · exact Proc.halts_emit _ _
        · exact Proc.halts_emit _ _
  | message msg env =>
    simp only [callback, mqttCbMsg]
    split
    · exact halts_onMqttMsg w _ _ _ env
    · exact Proc.halts_pure _ _
  | subscribe mid qos more =>
    refine Proc.Halts.bind saysWhy_front (Proc.halts_emit _ _) fun _ _ => ?_
    exact Proc.Halts.forM saysWhy_front (fun q => Proc.halts_emit _ _) more
  | disconnect rc => exact Proc.halts_emit _ _
  | log level str =>
    cases level with
    | debug | info | notice | warning | err => exact Proc.halts_emit _ _
    | other => exact halts_fatal _ _

theorem halts_libCall (w : LongWidth) (config : MqttClientConfiguration) (effect : MosqErr → Effect) (c : LibCall) :
    Proc.Halts SaysWhy (libCall w config effect c) :=
  Proc.Halts.bind saysWhy_front (Proc.Halts.forM saysWhy_front (halts_callback w config) c.events) fun _ _ =>
    Proc.halts_of_ok rfl

theorem halts_mqttClientLoop (w : LongWidth) (h : MqttClientHandle) (read write : Bool) (env : LoopEnv) :
    Proc.Halts SaysWhy (mqttClientLoop w h read write env) := by
  have hcall : ∀ wanted effect c ret, Proc.Halts SaysWhy (loopCall w h.config wanted effect c ret) := by
    intro wanted effect c ret
    cases wanted with
    | false => exact Proc.halts_pure _ _
    | true => exact halts_libCall w h.config effect c
  unfold mqttClientLoop
  refine Proc.Halts.bind saysWhy_front (hcall _ _ _ _) fun _ _ => ?_
  refine Proc.Halts.bind saysWhy_front (hcall _ _ _ _) fun _ _ => ?_
  exact Proc.Halts.bind saysWhy_front (halts_libCall w _ _ _) fun _ _ => Proc.halts_pure _ _

theorem halts_mqttClientInit (config : MqttClientConfiguration) (env : InitEnv) :
    Proc.Halts SaysWhy (mqttClientInit config env) := by
  unfold mqttClientInit
  refine Proc.Halts.bind saysWhy_front (Proc.halts_emit _ _) fun _ _ => ?_
  split
  · exact halts_fatal _ _
  · split
    · exact halts_halt fun code hcode => by cases hcode
    · exact Proc.halts_pure _ _

theorem halts_connectLoop (h : MqttClientHandle) (rc : Nat → MosqErr) (count k : Nat) :
    Proc.Halts SaysWhy (connectLoop h rc count k) := by
  induction count generalizing k with
  | zero => exact Proc.halts_pure _ _
  | succ count ih =>
    unfold connectLoop
    refine Proc.Halts.bind saysWhy_front (Proc.halts_emit _ _) fun _ _ => ?_
    split
    · refine Proc.Halts.bind saysWhy_front (Proc.halts_emit _ _) fun _ _ => ?_
      exact Proc.Halts.bind saysWhy_front (Proc.halts_emit _ _) fun _ _ => ih (k + 1)
    · exact Proc.halts_pure _ _

theorem halts_mqttClientConnect (h : MqttClientHandle) (env : ConnectEnv) :
    Proc.Halts SaysWhy (mqttClientConnect h env) := by
  unfold mqttClientConnect
  refine Proc.Halts.bind saysWhy_front ?_ fun _ _ => ?_
  · unfold setUpTls
    split
    · refine Proc.Halts.bind saysWhy_front (Proc.halts_emit _ _) fun _ _ => ?_
      split
      · exact halts_fatal _ _
      · exact Proc.halts_pure _ _
    · exact Proc.halts_pure _ _
  · refine Proc.Halts.bind saysWhy_front ?_ fun _ _ => ?_
    · unfold setUpUserPw
      split
      · split
        · exact halts_fatal _ _
        · exact Proc.halts_pure _ _
      · exact Proc.halts_pure _ _
    · exact Proc.Halts.bind saysWhy_front (halts_connectLoop h _ 3 0) fun _ _ => Proc.halts_pure _ _

theorem halts_mqttClientPublish (h : MqttClientHandle) (topic : List Byte) (msg : Option (List Byte)) (qos : Int)
    (rc : MosqErr) : Proc.Halts SaysWhy (mqttClientPublish h topic msg qos rc) := by
  unfold mqttClientPublish
  refine Proc.Halts.bind saysWhy_front (Proc.halts_emit _ _) fun _ _ => ?_
  split
  · exact halts_halt fun code hcode => by cases hcode
  · refine Proc.Halts.bind saysWhy_front (Proc.halts_emit _ _) fun _ _ => ?_
    split
    · exact Proc.halts_of_ok rfl
    · exact Proc.halts_of_ok rfl

/-! ## `rest2mqtt_unit.c` -/

theorem halts_firstCall (w : LongWidth) (c : Call) (st : Store) : Proc.Halts SaysWhy (firstCall w c st) := by
  unfold firstCall
  refine Proc.Halts.bind saysWhy_front (Proc.halts_emit _ _) fun _ _ => ?_
  exact Proc.Halts.bind saysWhy_front (halts_safeMalloc _ _ _ _ _) fun _ _ => Proc.halts_pure _ _

theorem halts_continuation (c : Call) (st : Store) (p : Addr) : Proc.Halts SaysWhy (continuation c st p) := by
  unfold continuation
  refine Proc.Halts.bind saysWhy_front (Proc.halts_emit _ _) fun _ _ => ?_
  refine Proc.Halts.bind saysWhy_front (halts_deref _ _) fun incoming _ => ?_
  split
  · refine Proc.Halts.bind saysWhy_front (halts_deref _ _) fun _ _ => ?_
    refine Proc.Halts.bind saysWhy_front (halts_safeRealloc _ _ _ _ _ _) fun _ _ => ?_
    exact Proc.Halts.bind saysWhy_front (halts_deref _ _) fun _ _ => Proc.halts_of_ok rfl
  · refine Proc.Halts.bind saysWhy_front (halts_safeRealloc _ _ _ _ _ _) fun _ _ => ?_
    exact Proc.Halts.bind saysWhy_front (halts_deref _ _) fun _ _ => Proc.halts_of_ok rfl

theorem halts_finalCall (w : LongWidth) (cls : MqttClientHandle) (r : Request) (c : Call) (st : Store) (p : Addr) :
    Proc.Halts SaysWhy (finalCall w cls r c st p) := by
  have hpublish : ∀ (msg : Option (List Byte)) (qos : Int) (a : Answer), Proc.Halts SaysWhy (do
      let _ ← mqttClientPublish cls r.url.mem msg qos c.env.publish
      Proc.emit (.queueResponse { status := mhdHttpOk, contentType := "text/html", body := bytes "OK" ++ [0] })
      return a) := fun msg qos a =>
    Proc.Halts.bind saysWhy_front (halts_mqttClientPublish _ _ _ _ _) fun _ _ => Proc.halts_of_ok rfl
  unfold finalCall
  refine Proc.Halts.bind saysWhy_front (Proc.halts_emit _ _) fun _ _ => ?_
  refine Proc.Halts.bind saysWhy_front (halts_parseInt _ _ _) fun _ _ => ?_
  refine Proc.Halts.bind saysWhy_front (halts_deref _ _) fun incoming _ => ?_
  dsimp only
  split
  · rw [pure_bind]
    exact hpublish none _ _
  · refine Proc.Halts.bind saysWhy_front (halts_deref _ _) fun b _ => ?_
    rw [pure_bind]
    exact hpublish _ _ _

theorem halts_answerToConnection (w : LongWidth) (cls : MqttClientHandle) (r : Request) (c : Call) (st : Store)
    (conCls : Option Addr) : Proc.Halts SaysWhy (answerToConnection w cls r c st conCls) := by
  unfold answerToConnection
  refine Proc.Halts.bind saysWhy_front (Proc.halts_emit _ _) fun _ _ => ?_
  split
  · exact Proc.halts_pure _ _
  · unfold answerPost
    split
    · exact halts_firstCall w c st
    · split
      · exact halts_continuation c st _
      · exact halts_finalCall w cls r c st _

theorem halts_getMhdPollfds (env : FdsetEnv) (count : Nat) : Proc.Halts SaysWhy (getMhdPollfds env count) := by
  unfold getMhdPollfds
  split
  · exact halts_fatal _ _
  · refine Proc.Halts.foldlM saysWhy_front (fun pfds fd => ?_) _ _
    unfold mhdPollfd
    split
    · refine Proc.Halts.bind saysWhy_front (Proc.halts_emit _ _) fun _ _ => ?_
      dsimp only
      split
      · exact halts_fatal _ _
      · exact Proc.halts_pure _ _
    · exact Proc.halts_pure _ _

/-! ## The threads -/

section
variable {ι : Type}

theorem halts_own {α : Type} {p : Run α} (hp : Proc.Halts SaysWhy p) : Proc.Halts SaysWhyTagged (own p : UnitProc ι α) :=
  halts_tagged none hp

theorem halts_checkConnection (h : MqttClientHandle) : Proc.Halts SaysWhy (checkConnection h) :=
  Proc.halts_of_ok (checkConnection_res h)

theorem halts_pollFailed (eintr : Bool) : Proc.Halts SaysWhy (pollFailed eintr) := by
  cases eintr with
  | false => exact Proc.halts_emit _ _
  | true => exact Proc.halts_pure _ _

theorem halts_mqtt2restStep (w : LongWidth) (u : Mqtt2RestUnitConfiguration) (config : Configuration)
    (phase : Poller.Phase MqttClientHandle (Bool × Bool)) (i : Poller.Input SetupEnv SocketEnv (Bool × Bool) LoopEnv) :
    Proc.Halts SaysWhy ((mqtt2restPoller w u config).step phase i) := by
  refine Poller.halts_step saysWhy_front ?_ ?_ halts_pollFailed ?_ ?_ phase i
  · intro setup
    refine Proc.Halts.bind saysWhy_front (Proc.halts_emit _ _) fun _ _ => ?_
    refine Proc.Halts.bind saysWhy_front (halts_mqttClientInit _ _) fun h _ => ?_
    exact Proc.Halts.bind saysWhy_front (halts_mqttClientConnect h _) fun _ _ => Proc.halts_pure _ _
  · intro h socket
    refine Proc.Halts.bind saysWhy_front (halts_checkConnection h) fun goesOn _ => ?_
    cases goesOn with
    | false => exact Proc.halts_pure _ _
    | true => exact Proc.halts_of_ok rfl
  · intro h revents env
    exact halts_mqttClientLoop w h _ _ env
  · intro h
    exact Proc.halts_emit _ _

variable [DecidableEq ι]

theorem halts_serveAll (w : LongWidth) (cls : MqttClientHandle) (req : ι → Request) (s : Server ι)
    (es : List (ι × Call)) :
    Proc.Halts SaysWhyTagged (serveAll w cls req s es) := by
  refine Proc.Halts.foldlM saysWhyTagged_front (fun s e => ?_) es s
  refine Proc.Halts.bind saysWhyTagged_front ?_ fun _ _ => Proc.halts_pure _ _
  exact halts_tagged e.1 (halts_answerToConnection w cls _ _ _ _)

theorem halts_rest2mqttStep (w : LongWidth) (req : ι → Request) (st : Store) (u : Rest2MqttUnitConfiguration)
    (config : Configuration) (phase : Poller.Phase (UnitState ι) (Bool × Bool))
    (i : Poller.Input SetupEnv (FdsetEnv × SocketEnv) (Bool × Bool) (List (ι × Call) × LoopEnv)) :
    Proc.Halts SaysWhyTagged ((rest2mqttPoller w req st u config).step phase i) := by
  refine Poller.halts_step saysWhyTagged_front ?_ ?_ (fun b => halts_own (halts_pollFailed b)) ?_ ?_ phase i
  · intro setup
    refine Proc.Halts.bind saysWhyTagged_front (halts_own (Proc.halts_emit _ _)) fun _ _ => ?_
    refine Proc.Halts.bind saysWhyTagged_front (halts_own (halts_mqttClientInit _ _)) fun h _ => ?_
    refine Proc.Halts.bind saysWhyTagged_front (halts_own (halts_mqttClientConnect h _)) fun _ _ => ?_
    exact Proc.halts_of_ok rfl
  · intro s env
    refine Proc.Halts.bind saysWhyTagged_front (halts_own (halts_checkConnection s.1)) fun goesOn _ => ?_
    cases goesOn with
    | false => exact Proc.halts_pure _ _
    | true =>
      refine Proc.Halts.bind saysWhyTagged_front (halts_own (halts_getMhdPollfds _ _)) fun _ _ => ?_
      exact Proc.halts_of_ok rfl
  · intro s revents env
    refine Proc.Halts.bind saysWhyTagged_front ?_ fun server _ => ?_
    · intro h hres
      have ht := halts_serveAll w s.1 req s.2 env.1 h hres
      simpa [SaysWhyTagged, handler, Function.comp_def] using ht
    · exact Proc.Halts.bind saysWhyTagged_front (halts_own (halts_mqttClientLoop w _ _ _ _)) fun _ _ =>
        Proc.halts_pure _ _
  · intro s
    exact Proc.halts_of_ok rfl

theorem halts_unitStep (world : World ι) (config : Configuration) (env : UnitEnv ι) (st : Store)
    (thread : UnitThread ι) : Proc.Halts SaysWhy (thread.step world config env st) := by
  cases thread with
  | mqtt2rest u phase =>
    exact Proc.Halts.bind saysWhy_front (halts_mqtt2restStep _ u config phase _) fun _ _ => Proc.halts_pure _ _
  | rest2mqtt u phase =>
    have hstep := halts_rest2mqttStep world.w world.req st u config (phase.map (onHeap st)) env.rest2mqtt
    exact Proc.Halts.bind saysWhy_front (Proc.halts_mapOut hstep) fun _ _ => Proc.halts_pure _ _

end

/-! ## `main` and the handler -/

theorem halts_processStep {ι : Type} [DecidableEq ι] (world : World ι) (units : Units) (config : Configuration)
    (s : Process ι) (a : Act ι) : Proc.Halts SaysWhy (s.step world units config a) := by
  intro h hres
  have hstep : s.step world units config a = ⟨(s.step world units config a).out, .error h⟩ := Proc.ext rfl hres
  rcases step_halts hstep with ⟨ret, -, hout, rfl⟩ | ⟨k, env, thread, -, -, -, hstep⟩ | ⟨rfl, -⟩
  · intro code hcode
    cases hcode
    rw [hout]
    exact ⟨rfl, _, rfl, rfl⟩
  · have ht := halts_unitStep world config env s.store thread h (congrArg Proc.res hstep)
    rwa [hstep] at ht
  · exact saysWhy_of_not_exit _ fun code hcode => by cases hcode

/-! ## The unit sections -/

/-- There is room and memory for each section. -/
structure Readable (file : ConfigFile) (env : LoadEnv) : Prop where
  mqtt2rest : file.mqtt2rest.length ≤ maxUnitNum ∧ ∀ i < file.mqtt2rest.length, env.mqtt2rest i = true
  rest2mqtt : file.rest2mqtt.length ≤ maxUnitNum ∧ ∀ i < file.rest2mqtt.length, env.rest2mqtt i = true

theorem readUnits_eq_some_iff {σ υ : Type} {read : σ → Run υ} {f : σ → υ} (hread : ∀ sec, (read sec).res = .ok (f sec))
    (malloc : Nat → Bool) (i : Nat) (secs : List σ) :
    (readUnits read malloc i secs).res = .ok (some (secs.map f)) ↔ ∀ k < secs.length, malloc (i + k) = true := by
  induction secs generalizing i with
  | nil => exact ⟨fun _ k hk => absurd hk (Nat.not_lt_zero k), fun _ => rfl⟩
  | cons sec secs ih =>
    have hshift : (∀ k < (sec :: secs).length, malloc (i + k) = true) ↔
        malloc i = true ∧ ∀ k < secs.length, malloc (i + 1 + k) = true := by
      rw [List.length_cons]
      constructor
      · intro h
        refine ⟨h 0 (Nat.succ_pos _), fun k hk => ?_⟩
        have := h (k + 1) (Nat.succ_lt_succ hk)
        rwa [Nat.add_assoc, Nat.add_comm 1 k]
      · rintro ⟨h0, hs⟩ k hk
        cases k with
        | zero => exact h0
        | succ k =>
          have := hs k (Nat.lt_of_succ_lt_succ hk)
          rwa [Nat.add_assoc, Nat.add_comm 1 k] at this
    rw [hshift, ← ih (i + 1), readUnits]
    cases hm : malloc i with
    | false => simp
    | true =>
      simp only [Bool.not_true, Bool.false_eq_true, if_false, true_and]
      rw [Proc.bind_of_ok (hread sec)]
      rcases readUnits_res hread malloc (i + 1) secs with h | h
      · rw [Proc.bind_of_ok h, h]
        simp
      · rw [Proc.bind_of_ok h, h]
        simp

theorem getUnitconfigs_eq_some_iff {σ υ : Type} {read : σ → Run υ} {f : σ → υ}
    (hread : ∀ sec, (read sec).res = .ok (f sec)) (secs : List σ) (maxSize : Nat) (malloc : Nat → Bool) :
    (getUnitconfigs read secs maxSize malloc).res = .ok (some (secs.map f)) ↔
      secs.length ≤ maxSize ∧ ∀ i < secs.length, malloc i = true := by
  unfold getUnitconfigs
  by_cases hlen : maxSize < secs.length
  · rw [if_pos hlen]
    exact ⟨fun h => (by cases h), fun h => absurd hlen (Nat.not_lt.mpr h.1)⟩
  · rw [if_neg hlen, readUnits_eq_some_iff hread]
    simp [Nat.not_lt.mp hlen]

def ConfigFile.count (file : ConfigFile) : Nat := file.mqtt2rest.length + file.rest2mqtt.length

/-- The two ends of `main` that use the level of errors. -/
def miscounted (file : ConfigFile) : Effect :=
  if file.count = 0 then .log .error "No units found. Please check configuration file %s" [.str (some file.name)]
  else .log .error "Max number of units/threads (%d) exceeded" [.num maxUnitNum]

section
variable {file : ConfigFile} {env : LoadEnv}

theorem loadUnits_of_readable (h : Readable file env) :
    (file.count ≠ 0 ∧ file.count ≤ maxUnitNum ∧ ∃ units, (loadUnits file env).res = .ok units) ∨
    ((file.count = 0 ∨ maxUnitNum < file.count) ∧ (loadUnits file env).res = .error (.exit 1) ∧
      (loadUnits file env).out.getLast? = some (miscounted file)) := by
  have hm := (getUnitconfigs_eq_some_iff readMqtt2rest_res file.mqtt2rest maxUnitNum env.mqtt2rest).mpr h.mqtt2rest
  have hr := (getUnitconfigs_eq_some_iff readRest2mqtt_res file.rest2mqtt maxUnitNum env.rest2mqtt).mpr h.rest2mqtt
  have hcount : (file.mqtt2rest.map mqtt2restOf).length + (file.rest2mqtt.map rest2mqttOf).length = file.count := by
    simp [ConfigFile.count]
  unfold loadUnits getMqtt2restUnitconfigs getRest2mqttUnitconfigs
  rw [Proc.bind_of_ok hm, Proc.bind_of_ok hr]
  dsimp only
  split
  next hne =>
    rw [hcount] at hne
    split
    next hle =>
      rw [hcount] at hle
      exact Or.inl ⟨hne, hle, _, rfl⟩
    next hgt =>
      rw [hcount] at hgt
      refine Or.inr ⟨Or.inr (Nat.not_le.mp hgt), rfl, ?_⟩
      rw [List.getLast?_append, List.getLast?_append, miscounted, if_neg hne]
      rfl
  next hzero =>
    rw [hcount, not_not] at hzero
    refine Or.inr ⟨Or.inl hzero, rfl, ?_⟩
    rw [List.getLast?_append, List.getLast?_append, miscounted, if_pos hzero]
    rfl

theorem loadUnits_of_not_readable (h : ¬ Readable file env) : Proc.Halts SaysWhy (loadUnits file env) ∧
    ∃ e, (loadUnits file env).res = .error e := by
  have hmiff := getUnitconfigs_eq_some_iff readMqtt2rest_res file.mqtt2rest maxUnitNum env.mqtt2rest
  have hriff := getUnitconfigs_eq_some_iff readRest2mqtt_res file.rest2mqtt maxUnitNum env.rest2mqtt
  have hfatal : ∀ {ms rs}, (getMqtt2restUnitconfigs file maxUnitNum env.mqtt2rest).res = .ok ms →
      (getRest2mqttUnitconfigs file maxUnitNum env.rest2mqtt).res = .ok rs → ms = none ∨ rs = none →
      Proc.Halts SaysWhy (loadUnits file env) ∧ ∃ e, (loadUnits file env).res = .error e := by
    intro ms rs hms hrs hnone
    have heq : loadUnits file env = (getMqtt2restUnitconfigs file maxUnitNum env.mqtt2rest >>= fun _ =>
        getRest2mqttUnitconfigs file maxUnitNum env.rest2mqtt >>= fun _ =>
          fatal "Failed to init unit configs, check config file:" [.str (some file.name)]) := by
      unfold loadUnits
      rw [Proc.bind_of_ok hms, Proc.bind_of_ok hms, Proc.bind_of_ok hrs, Proc.bind_of_ok hrs]
      rcases hnone with rfl | rfl
      · rfl
      · cases ms <;> rfl
    rw [heq]
    refine ⟨?_, .exit 1, ?_⟩
    · refine Proc.Halts.bind saysWhy_front (Proc.halts_of_ok hms) fun _ _ => ?_
      exact Proc.Halts.bind saysWhy_front (Proc.halts_of_ok hrs) fun _ _ => halts_fatal _ _
    · rw [Proc.bind_of_ok hms, Proc.bind_of_ok hrs]
      rfl
  rcases getUnitconfigs_res readMqtt2rest_res file.mqtt2rest maxUnitNum env.mqtt2rest with hm | hm
  · rcases getUnitconfigs_res readRest2mqtt_res file.rest2mqtt maxUnitNum env.rest2mqtt with hr | hr
    · exact hfatal hm hr (Or.inl rfl)
    · exact hfatal hm hr (Or.inl rfl)
  · rcases getUnitconfigs_res readRest2mqtt_res file.rest2mqtt maxUnitNum env.rest2mqtt with hr | hr
    · exact hfatal hm hr (Or.inr rfl)
    · exact absurd ⟨hmiff.mp hm, hriff.mp hr⟩ h

end

/-! ## The start -/

/-- The same for an exit that is not a success. -/
def FailureTold (out : List Effect) (h : Halt) : Prop := h ≠ .exit 0 → SaysWhy out h

theorem failureTold_front (o' o : List Effect) (h : Halt) (ht : FailureTold o h) : FailureTold (o' ++ o) h :=
  fun hne => saysWhy_front o' o h (ht hne)

theorem halts_readOptions (appName : CStr) (v : Versions) (mqresttConfig : Option CStr) (opts : List Opt) :
    Proc.Halts FailureTold (readOptions appName v mqresttConfig opts) := by
  have hstep : ∀ o opt, Proc.Halts FailureTold (optionStep appName v o opt) := by
    intro o opt
    cases opt with
    | configfile optarg => exact Proc.halts_pure _ _
    | daemon => exact Proc.halts_pure _ _
    | dump => exact Proc.halts_pure _ _
    | help =>
      intro h hres hne
      cases hres
      exact absurd rfl hne
    | version =>
      intro h hres hne
      cases hres
      exact absurd rfl hne
    | unknown =>
      intro h hres _ code hcode
      cases hres
      cases hcode
      exact ⟨rfl, _, rfl, rfl⟩
  unfold readOptions
  cases mqresttConfig with
  | none => exact Proc.Halts.foldlM failureTold_front hstep opts _
  | some s =>
    refine Proc.Halts.bind failureTold_front (Proc.halts_of_ok rfl) fun _ _ => ?_
    exact Proc.Halts.foldlM failureTold_front hstep opts _

theorem halts_initConfig (filepath : CStr) (dump : Bool) (env : ConfigEnv) :
    Proc.Halts SaysWhy (initConfig filepath dump env) := by
  intro h hres
  cases hcfg : env.cfgInit with
  | false =>
    rw [initConfig_noCfg filepath dump hcfg] at hres
    cases hres
    exact saysWhy_of_not_exit _ fun code hcode => by cases hcode
  | true =>
    cases hm : env.malloc with
    | false =>
      rw [initConfig_noMemory filepath dump hcfg hm] at hres
      cases hres
      exact saysWhy_of_not_exit _ fun code hcode => by cases hcode
    | true =>
      by_cases hca : env.options.EmptyCa
      · rw [initConfig_noCa filepath dump hcfg hm hca] at hres
        cases hres
      · rw [initConfig_returns filepath dump hcfg hm hca] at hres
        cases hres

theorem halts_loadConfig (filepath : CStr) (dump : Bool) (env : ConfigEnv) :
    Proc.Halts SaysWhy (loadConfig filepath dump env) := by
  unfold loadConfig
  refine Proc.Halts.bind saysWhy_front (halts_initConfig filepath dump env) fun config _ => ?_
  cases config with
  | none =>
    intro h hres code hcode
    cases hres
    cases hcode
    exact ⟨rfl, _, rfl, rfl⟩
  | some config => exact Proc.halts_pure _ _

def ProgramEffect.tells (loglevel : Nat) : ProgramEffect → Bool
  | .did e => e.tells loglevel
  | .stdout .. => true
  | _ => false

def ProgramTold (out : List ProgramEffect) (h : Halt) : Prop :=
  ∀ code, h = .exit code → code ≠ 0 → code = 1 ∧ ∃ e, out.getLast? = some e ∧ e.tells 0 = true

theorem programTold_front (o' o : List ProgramEffect) (h : Halt) (ht : ProgramTold o h) : ProgramTold (o' ++ o) h := by
  intro code hcode hne
  obtain ⟨h1, e, he, htells⟩ := ht code hcode hne
  exact ⟨h1, e, by rw [List.getLast?_append, he, Option.some_or], htells⟩

theorem halts_did {α : Type} {p : Run α} (hp : Proc.Halts FailureTold p) : Proc.Halts ProgramTold (did p) := by
  intro h hres code hcode hne
  have hfail : h ≠ .exit 0 := by
    rintro rfl
    cases hcode
    exact hne rfl
  obtain ⟨h1, e, he, htells⟩ := hp h hres hfail code hcode
  refine ⟨h1, .did e, ?_, htells⟩
  rw [did, Proc.mapOut_out, List.getLast?_map, he]
  rfl

theorem halts_told {α : Type} {p : Run α} (hp : Proc.Halts SaysWhy p) : Proc.Halts ProgramTold (did p) :=
  halts_did fun h hres _ => hp h hres

/-- `log_init` returns, whatever it returns. -/
theorem halts_logInit {W : List ProgramEffect → Halt → Prop} (hW : ∀ o' o h, W o h → W (o' ++ o) h)
    (config : FullConfiguration) (env : LogInitEnv) : Proc.Halts W (logInit config env) := by
  obtain ⟨loglevel, hlevel⟩ := logLookupLoglevel_returns config.loglevel
  have hfacility : Proc.Halts W (logLookupSyslogFacility env.facilitynames config.logfacility) := by
    unfold logLookupSyslogFacility
    split
    · exact Proc.halts_pure _ _
    · exact Proc.halts_of_ok rfl
  unfold logInit
  refine Proc.Halts.bind hW (Proc.halts_of_ok hlevel) fun _ _ => ?_
  split
  · exact Proc.halts_pure _ _
  split
  · exact Proc.Halts.bind hW hfacility fun _ _ => Proc.halts_of_ok rfl
  split
  · refine Proc.Halts.bind hW (Proc.halts_emit _ _) fun _ _ => ?_
    split
    · exact Proc.halts_of_ok rfl
    · exact Proc.halts_pure _ _
  · exact Proc.halts_pure _ _

theorem optionSteps_foreground {appName : CStr} {v : Versions} {opts : List Opt} (hd : Opt.daemon ∉ opts) {o o' : Options}
    (ho : o.startDaemonized = false) (h : (opts.foldlM (optionStep appName v) o).res = .ok o') :
    o'.startDaemonized = false := by
  induction opts generalizing o with
  | nil =>
    cases h
    exact ho
  | cons opt opts ih =>
    rw [List.mem_cons, not_or] at hd
    obtain ⟨hne, hrest⟩ := hd
    rw [List.foldlM_cons] at h
    obtain ⟨o₁, h₁, h₂, -⟩ := Proc.bind_eq_ok h
    refine ih hrest ?_ h₂
    cases opt with
    | configfile optarg =>
      cases h₁
      exact ho
    | daemon => exact absurd rfl hne
    | dump =>
      cases h₁
      exact ho
    | help | version | unknown => cases h₁

theorem readOptions_foreground {appName : CStr} {v : Versions} {mqresttConfig : Option CStr} {opts : List Opt}
    {o : Options}
    (hd : Opt.daemon ∉ opts) (h : (readOptions appName v mqresttConfig opts).res = .ok o) :
    o.startDaemonized = false := by
  cases mqresttConfig with
  | none => exact optionSteps_foreground hd rfl h
  | some s => exact optionSteps_foreground hd rfl h

/-- Without `-d`, every failure of the start is told. -/
theorem halts_startUp {env : ProgramEnv} (hd : Opt.daemon ∉ env.opts) : Proc.Halts ProgramTold (startUp env) := by
  unfold startUp
  refine Proc.Halts.bind programTold_front (halts_did (halts_readOptions _ _ _ _)) fun o ho => ?_
  simp only [readOptions_foreground hd ho, Bool.false_eq_true, if_false]
  refine Proc.Halts.bind programTold_front (halts_told (halts_loadConfig _ _ _)) fun config _ => ?_
  refine Proc.Halts.bind programTold_front (halts_logInit programTold_front config env.log) fun r _ => ?_
  split
  · intro h hres code hcode _
    cases hres
    cases hcode
    exact ⟨rfl, _, rfl, rfl⟩
  · refine Proc.Halts.bind programTold_front ?_ fun _ _ => Proc.halts_of_ok rfl
    unfold logStarted
    split
    · exact halts_told (halts_halt fun code hcode => by cases hcode)
    · exact Proc.halts_of_ok rfl

/-! ## The end -/

section
variable {ι : Type} [DecidableEq ι] {world : World ι} {env : ProgramEnv} {acts : List (Act ι)}

theorem halts_cleanUp {α : Type} (l : LogState) : Proc.Halts ProgramTold (cleanUp l : ProgramRun α) := by
  intro h hres code hcode hne
  have hexit : (cleanUp l : ProgramRun α).res = .error (.exit 0) := by
    obtain ⟨target, loglevel, logfile⟩ := l
    cases logfile <;> rfl
  rw [hexit] at hres
  cases hres
  cases hcode
  exact absurd rfl hne

theorem halts_program (hd : Opt.daemon ∉ env.opts) (hload : ∀ confFileName config l,
      (startUp env).res = .ok (confFileName, config, l) →
        Proc.Halts SaysWhy (loadUnits (env.configFile confFileName) env.load)) :
    Proc.Halts ProgramTold (program world env acts) := by
  refine Proc.Halts.bind programTold_front (halts_startUp hd) fun r hr => ?_
  obtain ⟨confFileName, config, l⟩ := r
  refine Proc.Halts.bind programTold_front (halts_told (hload confFileName config l hr)) fun units _ => ?_
  have hacts := Proc.Halts.foldlM saysWhy_front (halts_processStep world units config.toConfiguration) acts
    (Process.start world env.beyond)
  refine Proc.Halts.bind programTold_front (halts_told hacts) fun s _ => ?_
  split
  · exact halts_cleanUp l
  · exact Proc.halts_pure _ _

end

/-! ## Success -/

section
variable {ι : Type} [DecidableEq ι] {world : World ι} {env : ProgramEnv} {acts : List (Act ι)}

/-- A success is one that was asked for. -/
def Asked (opts : List Opt) (h : Halt) : Prop := h = .exit 0 → Opt.help ∈ opts ∨ Opt.version ∈ opts

theorem asked_of_told {o : List Effect} {h : Halt} (ht : SaysWhy o h) (opts : List Opt) : Asked opts h := by
  rintro rfl
  exact absurd (ht 0 rfl).1 Nat.zero_ne_one

theorem halts_optionSteps (appName : CStr) (v : Versions) (opts : List Opt) (o : Options) :
    Proc.Halts (fun _ => Asked opts) (opts.foldlM (optionStep appName v) o) := by
  induction opts generalizing o with
  | nil => exact Proc.halts_pure _ _
  | cons opt opts ih =>
    rw [List.foldlM_cons]
    refine Proc.Halts.bind (fun _ _ _ h => h) ?_ fun o' _ => ?_
    · cases opt with
      | configfile optarg => exact Proc.halts_pure _ _
      | daemon => exact Proc.halts_pure _ _
      | dump => exact Proc.halts_pure _ _
      | help => exact fun _ _ _ => Or.inl List.mem_cons_self
      | version => exact fun _ _ _ => Or.inr List.mem_cons_self
      | unknown =>
        intro h hres h0
        cases hres
        cases h0
    · exact (ih o').mono fun _ h hasked h0 => (hasked h0).imp (List.mem_cons_of_mem _) (List.mem_cons_of_mem _)

theorem startUp_asked (hd : Opt.daemon ∉ env.opts) : Proc.Halts (fun _ => Asked env.opts) (startUp env) := by
  have hdid : ∀ {α : Type} {p : Run α}, Proc.Halts SaysWhy p → Proc.Halts (fun _ => Asked env.opts) (did p) :=
    fun hp h hres => asked_of_told (hp h hres) _
  unfold startUp
  refine Proc.Halts.bind (fun _ _ _ h => h) ?_ fun o ho => ?_
  · unfold readOptions
    cases env.mqresttConfig with
    | none => exact halts_optionSteps _ _ env.opts _
    | some s => exact fun h hres => halts_optionSteps _ _ env.opts _ h hres
  simp only [readOptions_foreground hd ho, Bool.false_eq_true, if_false]
  refine Proc.Halts.bind (fun _ _ _ h => h) (hdid (halts_loadConfig _ _ _)) fun config _ => ?_
  refine Proc.Halts.bind (fun _ _ _ h => h) (halts_logInit (fun _ _ _ h => h) config env.log) fun r _ => ?_
  split
  · intro h hres h0
    cases hres
    cases h0
  · refine Proc.Halts.bind (fun _ _ _ h => h) ?_ fun _ _ => Proc.halts_of_ok rfl
    unfold logStarted
    split
    · exact hdid (halts_halt fun code hcode => by cases hcode)
    · exact Proc.halts_of_ok rfl

theorem loadUnits_ne_success {file : ConfigFile} {load : LoadEnv} : (loadUnits file load).res ≠ .error (.exit 0) := by
  intro h
  by_cases hread : Readable file load
  · rcases loadUnits_of_readable hread with ⟨-, -, units, hunits⟩ | ⟨-, hres, -⟩
    · rw [hunits] at h
      cases h
    · rw [hres] at h
      cases h
  · exact absurd ((loadUnits_of_not_readable hread).1 _ h 0 rfl).1 Nat.zero_ne_one

/-- **A success of the program is the end of all its units.** Unless the help or the version was asked for, each enabled
unit of the file was started, in the order of the file, and each of these threads has exited and was joined. -/
theorem program_success (hd : Opt.daemon ∉ env.opts) (h : (program world env acts).res = .error (.exit 0)) :
    (Opt.help ∈ env.opts ∨ Opt.version ∈ env.opts) ∨ ∃ confFileName config l units out s,
      (startUp env).res = .ok (confFileName, config, l) ∧
      (loadUnits (env.configFile confFileName) env.load).res = .ok units ∧
      acts.foldlM (Process.step world units config.toConfiguration) (Process.start world env.beyond) = ⟨out, .ok s⟩ ∧
      s.main.pc = .finished ∧ s.main.created.map Prod.snd = enabledJobs units config.toConfiguration ∧
      s.threads.length = s.main.created.length ∧ ∀ thread ∈ s.threads, thread.exited = true := by
  cases hs : (startUp env).res with
  | error e =>
    have hprogram : (program world env acts).res = .error e := by
      unfold program
      rw [Proc.bind_of_error hs]
    rw [hprogram] at h
    cases h
    exact Or.inl (startUp_asked hd _ hs rfl)
  | ok r =>
    obtain ⟨confFileName, config, l⟩ := r
    refine Or.inr ?_
    unfold program at h
    rw [Proc.bind_of_ok hs] at h
    dsimp only at h
    cases hu : (did (loadUnits (env.configFile confFileName) env.load)).res with
    | error e =>
      rw [Proc.bind_of_error hu] at h
      cases h
      exact absurd hu loadUnits_ne_success
    | ok units =>
      rw [Proc.bind_of_ok hu] at h
      dsimp only at h
      cases ha : (did (acts.foldlM (Process.step world units config.toConfiguration)
          (Process.start world env.beyond))).res with
      | error e =>
        rw [Proc.bind_of_error ha] at h
        cases h
        have hacts := Proc.Halts.foldlM saysWhy_front (halts_processStep world units config.toConfiguration) acts
          (Process.start world env.beyond)
        exact absurd (hacts _ ha 0 rfl).1 Nat.zero_ne_one
      | ok s =>
        rw [Proc.bind_of_ok ha] at h
        dsimp only at h
        by_cases hfin : s.main.pc = .finished
        · have hrun := Proc.eq_of_ok (show (acts.foldlM (Process.step world units config.toConfiguration)
            (Process.start world env.beyond)).res = .ok s from ha)
          have hinv := joinInv_of_run hrun
          obtain ⟨out, htable⟩ := hinv.table
          refine ⟨_, _, _, units, _, s, rfl, hu, hrun, hfin, ?_, hinv.parallel, (hinv.all_exited hfin).2⟩
          rw [htable.jobs, hfin]
          rfl
        · rw [if_neg hfin] at h
          cases h

end

/-- No options, and a file that sets no option. -/
def sampleProgramEnv (file : ConfigFile) : ProgramEnv where
  appName := confPath
  versions := ⟨2, 0, 18, 2000018, emptyStr, emptyStr, emptyStr⟩
  mqresttConfig := none
  opts := []
  daemon := sampleDaemonEnv
  fds := sampleFds
  config := fileEnv .success none
  log := ⟨true, []⟩
  pid := 42
  file := file
  load := ⟨fun _ => true, fun _ => true⟩
  beyond _ := 0

theorem program_success_sample :
    (program sampleWorld (sampleProgramEnv (sampleFile rootA)) joinedActs).res = .error (.exit 0) ∧
    ∃ units config out s, joinedActs.foldlM (Process.step sampleWorld units config)
      (Process.start sampleWorld fun _ => 0) = ⟨out, .ok s⟩ ∧
      ∀ thread ∈ s.threads, thread.exited = true := by
  have hmap : ((program sampleWorld (sampleProgramEnv (sampleFile rootA)) joinedActs).res.map fun _ => ()) =
      .error (.exit 0) := by decide
  have hres := congrArg Proc.res (Proc.eq_error_of_map hmap)
  refine ⟨hres, ?_⟩
  rcases program_success List.not_mem_nil hres with (h | h) | ⟨_, config, _, units, out, s, -, -, hrun, -, -, -, hexited⟩
  · cases h
  · cases h
  · exact ⟨units, config.toConfiguration, out, s, hrun, hexited⟩

end Mqrestt
