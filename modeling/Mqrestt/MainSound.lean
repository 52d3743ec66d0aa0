import Mqrestt.Main
import Mqrestt.UnitsSound

/-!
# The units that `main` starts, and the ids they use at the broker
-/

namespace Mqrestt
open CSem

/-! ## Reading the sections -/

theorem readUnits_res {σ υ : Type} {read : σ → Run υ} {f : σ → υ} (hread : ∀ sec, (read sec).res = .ok (f sec))
    (malloc : Nat → Bool) (i : Nat) (secs : List σ) :
    (readUnits read malloc i secs).res = .ok none ∨ (readUnits read malloc i secs).res = .ok (some (secs.map f)) := by
  induction secs generalizing i with
  | nil => exact .inr rfl
  | cons sec secs ih =>
    unfold readUnits
    split
    · exact .inl rfl
    · rw [Proc.bind_of_ok (hread sec)]
      rcases ih (i + 1) with h | h
      · rw [Proc.bind_of_ok h]
        exact .inl rfl
      · rw [Proc.bind_of_ok h]
        exact .inr rfl

theorem getUnitconfigs_res {σ υ : Type} {read : σ → Run υ} {f : σ → υ} (hread : ∀ sec, (read sec).res = .ok (f sec))
    (secs : List σ) (maxSize : Nat) (malloc : Nat → Bool) :
    (getUnitconfigs read secs maxSize malloc).res = .ok none ∨
      (getUnitconfigs read secs maxSize malloc).res = .ok (some (secs.map f)) := by
  unfold getUnitconfigs
  split
  · exact .inl rfl
  · exact readUnits_res hread malloc 0 secs

def mqtt2restOf (sec : Mqtt2RestSection) : Mqtt2RestUnitConfiguration :=
  ⟨sec.title, sec.enabled, sec.webserviceBaseurl, sec.mqttTopic, none⟩

def rest2mqttOf (sec : Rest2MqttSection) : Rest2MqttUnitConfiguration :=
  ⟨sec.title, sec.enabled, toCInt sec.listenPort, sec.mqttTopicRoot, none⟩

theorem readMqtt2rest_res (sec : Mqtt2RestSection) : (readMqtt2rest sec).res = .ok (mqtt2restOf sec) := rfl

theorem readRest2mqtt_res (sec : Rest2MqttSection) : (readRest2mqtt sec).res = .ok (rest2mqttOf sec) := rfl

theorem loadUnits_units {file : ConfigFile} {env : LoadEnv} {units : Units} (h : (loadUnits file env).res = .ok units) :
    units.mqtt2rest = file.mqtt2rest.map mqtt2restOf ∧ units.rest2mqtt = file.rest2mqtt.map rest2mqttOf := by
  unfold loadUnits at h
  obtain ⟨ms, hms, h, -⟩ := Proc.bind_eq_ok h
  obtain ⟨rs, hrs, h, -⟩ := Proc.bind_eq_ok h
  have hm := getUnitconfigs_res readMqtt2rest_res file.mqtt2rest maxUnitNum env.mqtt2rest
  have hr := getUnitconfigs_res readRest2mqtt_res file.rest2mqtt maxUnitNum env.rest2mqtt
  unfold getMqtt2restUnitconfigs at hms
  unfold getRest2mqttUnitconfigs at hrs
  rw [hms] at hm
  rw [hrs] at hr
  simp only [Except.ok.injEq] at hm hr
  rcases hm with rfl | rfl
  · cases h
  rcases hr with rfl | rfl
  · cases h
  dsimp only at h
  split at h
  · split at h
    · cases h
      exact ⟨rfl, rfl⟩
    · cases h
  · cases h

/-! ## Client ids -/

def enabledMqtt2rest (config : Configuration) (us : List Mqtt2RestUnitConfiguration) : List Job :=
  (us.filter (·.enabled)).map fun u => .mqtt2rest { u with commonConfiguration := some config }

def enabledRest2mqtt (config : Configuration) (us : List Rest2MqttUnitConfiguration) : List Job :=
  (us.filter (·.enabled)).map fun u => .rest2mqtt { u with commonConfiguration := some config }

def enabledJobs (units : Units) (config : Configuration) : List Job :=
  enabledMqtt2rest config units.mqtt2rest ++ enabledRest2mqtt config units.rest2mqtt

def clientIds (units : Units) (config : Configuration) : List CStr := (enabledJobs units config).map (·.clientId config)

theorem clientIds_eq {file : ConfigFile} {env : LoadEnv} {units : Units} (h : (loadUnits file env).res = .ok units) :
    clientIds units file.common =
      (file.mqtt2rest.filter (·.enabled)).map (·.title) ++ (file.rest2mqtt.filter (·.enabled)).map (·.title) := by
  obtain ⟨hm, hr⟩ := loadUnits_units h
  unfold clientIds enabledJobs enabledMqtt2rest enabledRest2mqtt
  rw [hm, hr, List.map_append]
  simp only [List.filter_map, List.map_map]
  rfl

theorem mosquittoNew_mem_init (config : MqttClientConfiguration) (env : InitEnv) :
    .mosquittoNew config.label.bytes ∈ (mqttClientInit config env).out :=
  Proc.mem_bind_left List.mem_cons_self _

theorem mqtt2restUnitRun_id (w : LongWidth) {u : Mqtt2RestUnitConfiguration} {config : Configuration}
    (hc : u.commonConfiguration = some config) (setup : SetupEnv) (envs : List Mqtt2RestEnv) :
    .mosquittoNew (Job.clientId config (.mqtt2rest u)).bytes ∈ (mqtt2restUnitRun w (some u) setup envs).out := by
  unfold mqtt2restUnitRun
  apply Proc.mem_bind_right rfl
  rw [hc]
  exact Proc.mem_bind_left (mosquittoNew_mem_init (mqtt2restClient u config) setup.init) _

theorem rest2mqttUnitRun_id {ι : Type} [DecidableEq ι] (w : LongWidth) (req : ι → Request) (st : Store)
    {u : Rest2MqttUnitConfiguration} {config : Configuration} (hc : u.commonConfiguration = some config)
    (setup : SetupEnv) (envs : List (Rest2MqttEnv ι)) :
    (none, .mosquittoNew (Job.clientId config (.rest2mqtt u)).bytes) ∈
      (rest2mqttUnitRun w req st (some u) setup envs).out := by
  have hinit := mosquittoNew_mem_init (rest2mqttClient u config) setup.init
  unfold rest2mqttUnitRun
  simp only [hc]
  apply Proc.mem_bind_right rfl
  exact Proc.mem_bind_left (List.mem_map_of_mem hinit) _

structure AsksFor (units : Units) (config : Configuration) : Prop where
  mqtt2rest : ∀ u, .mqtt2rest u ∈ enabledJobs units config → ∀ w setup envs,
    .mosquittoNew (Job.clientId config (.mqtt2rest u)).bytes ∈ (mqtt2restUnitRun w (some u) setup envs).out
  rest2mqtt : ∀ u, .rest2mqtt u ∈ enabledJobs units config → ∀ {ι : Type} [DecidableEq ι] w (req : ι → Request) st
    setup envs, (none, .mosquittoNew (Job.clientId config (.rest2mqtt u)).bytes) ∈
      (rest2mqttUnitRun w req st (some u) setup envs).out

theorem common_of_enabled {units : Units} {config : Configuration} :
    (∀ u, .mqtt2rest u ∈ enabledJobs units config → u.commonConfiguration = some config) ∧
      ∀ u, .rest2mqtt u ∈ enabledJobs units config → u.commonConfiguration = some config := by
  constructor <;> intro u hu <;> unfold enabledJobs enabledMqtt2rest enabledRest2mqtt at hu
  · simp only [List.mem_append, List.mem_map, Job.mqtt2rest.injEq, reduceCtorEq, and_false, exists_false, or_false] at hu
    obtain ⟨_, _, rfl⟩ := hu
    rfl
  · simp only [List.mem_append, List.mem_map, Job.rest2mqtt.injEq, reduceCtorEq, and_false, exists_false, false_or] at hu
    obtain ⟨_, _, rfl⟩ := hu
    rfl

theorem asksFor (units : Units) (config : Configuration) : AsksFor units config where
  mqtt2rest u hu w setup envs := mqtt2restUnitRun_id w (common_of_enabled.1 u hu) setup envs
  rest2mqtt u hu _ _ w req st setup envs := rest2mqttUnitRun_id w req st (common_of_enabled.2 u hu) setup envs

/-- **The client ids differ exactly if no title is enabled in both kinds.** -/
theorem clientIds_nodup_iff {file : ConfigFile} {env : LoadEnv} {units : Units}
    (h : (loadUnits file env).res = .ok units) :
    AsksFor units file.common ∧ ((clientIds units file.common).Nodup ↔
      ∀ m ∈ file.mqtt2rest, ∀ r ∈ file.rest2mqtt, m.enabled = true → r.enabled = true → m.title ≠ r.title) := by
  refine ⟨asksFor units file.common, ?_⟩
  have hm : ((file.mqtt2rest.filter (·.enabled)).map (·.title)).Nodup :=
    file.mqtt2restTitles.sublist (List.filter_sublist.map _)
  have hr : ((file.rest2mqtt.filter (·.enabled)).map (·.title)).Nodup :=
    file.rest2mqttTitles.sublist (List.filter_sublist.map _)
  rw [clientIds_eq h, List.nodup_append]
  simp only [hm, hr, true_and, List.mem_map, List.mem_filter]
  constructor
  · intro hne m hmem r rmem hme hre
    exact hne m.title ⟨m, ⟨hmem, hme⟩, rfl⟩ r.title ⟨r, ⟨rmem, hre⟩, rfl⟩
  · rintro hne _ ⟨m, ⟨hmem, hme⟩, rfl⟩ _ ⟨r, ⟨rmem, hre⟩, rfl⟩
    exact hne m hmem r rmem hme hre

def sampleFile (title : CStr) : ConfigFile where
  name := bytes "mqrestt.conf"
  common := sampleConfiguration
  mqtt2rest := [⟨sampleMqtt2Rest.unitName, sampleMqtt2Rest.webserviceBaseurl, unit1, true⟩]
  rest2mqtt := [⟨title, 9000, rootA, true⟩]
  mqtt2restTitles := List.nodup_singleton _
  rest2mqttTitles := List.nodup_singleton _

def sampleUnits (title : CStr) : Units where
  mqtt2rest := (sampleFile title).mqtt2rest.map mqtt2restOf
  rest2mqtt := (sampleFile title).rest2mqtt.map rest2mqttOf
  found := Nat.succ_ne_zero 1
  bounded := Nat.le_add_right 2 30

theorem loadUnits_sampleFile (title : CStr) :
    (loadUnits (sampleFile title) ⟨fun _ => true, fun _ => true⟩).res = .ok (sampleUnits title) := rfl

theorem clientIds_nodup_rootA : (clientIds (sampleUnits rootA) sampleConfiguration).Nodup := by
  refine (clientIds_nodup_iff (loadUnits_sampleFile rootA)).2.mpr ?_
  intro m hm r hr _ _
  rw [List.mem_singleton.mp hm, List.mem_singleton.mp hr]
  decide

/-- A file with a unit of each kind that have one title. -/
theorem not_clientIds_nodup_sameTitle :
    (loadUnits (sampleFile sampleMqtt2Rest.unitName) ⟨fun _ => true, fun _ => true⟩).res =
        .ok (sampleUnits sampleMqtt2Rest.unitName) ∧
      AsksFor (sampleUnits sampleMqtt2Rest.unitName) sampleConfiguration ∧
      ¬ (clientIds (sampleUnits sampleMqtt2Rest.unitName) sampleConfiguration).Nodup := by
  have hload := loadUnits_sampleFile sampleMqtt2Rest.unitName
  refine ⟨hload, asksFor _ _, ?_⟩
  have hids : clientIds (sampleUnits sampleMqtt2Rest.unitName) sampleConfiguration =
      [sampleMqtt2Rest.unitName, sampleMqtt2Rest.unitName] := clientIds_eq hload
  rw [hids]
  decide

end Mqrestt
