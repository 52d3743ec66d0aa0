import Mathlib
import Mqrestt.InitConfig

/-!
# Which files `init_config` takes

`init_config` is meant to return a configuration only for a file that was read and is complete.
It does not look at the result of `cfg_parse`, its check for a CA also passes on the placeholder
that stands for an option the file leaves out, and the way out for a missing `cfg_t` asserts that
there is one.
-/

namespace Mqrestt
open CSem

/-- The file itself names a CA. -/
def CfgOptions.HasCa (o : CfgOptions) : Prop :=
  (∃ s, o.mqttCafile = some s ∧ s.bytes ≠ []) ∨ ∃ s, o.mqttCapath = some s ∧ s.bytes ≠ []

def FileComplete (env : ConfigEnv) : Prop :=
  env.cfgParse = .success ∧ (env.options.mqttTls = some true → env.options.HasCa)

/-- A configuration only for a complete file, and `NULL` for every other one. -/
structure TakesComplete (filepath : CStr) (dump : Bool) (env : ConfigEnv) : Prop where
  onlyComplete : ∀ config, (initConfig filepath dump env).res = .ok (some config) → FileComplete env
  elseNull : ¬ FileComplete env → (initConfig filepath dump env).res = .ok none

/-- TLS is asked for, and the file sets both places for a CA to nothing. -/
def CfgOptions.EmptyCa (o : CfgOptions) : Prop :=
  o.mqttTls = some true ∧ (∃ s, o.mqttCafile = some s ∧ s.bytes = []) ∧ ∃ s, o.mqttCapath = some s ∧ s.bytes = []

/-! ## The result -/

theorem pathOption_eq_none {value : Option CStr} : pathOption value = none ↔ ∃ s, value = some s ∧ s.bytes = [] := by
  unfold pathOption
  cases value with
  | none => simp [placeholder, bytes]
  | some s => simp

theorem emptyCa_iff {o : CfgOptions} : o.EmptyCa ↔ ((readConfig o).mqttTls && (readConfig o).mqttCafile.isNone &&
    (readConfig o).mqttCapath.isNone) = true := by
  simp only [CfgOptions.EmptyCa, readConfig, Bool.and_eq_true, Option.isNone_iff_eq_none, pathOption_eq_none, and_assoc]
  cases o.mqttTls with
  | none => simp
  | some b => simp

section
variable (filepath : CStr) (dump : Bool) {env : ConfigEnv}

theorem initConfig_noCfg (hcfg : env.cfgInit = false) :
    (initConfig filepath dump env).res = .error .assertion := by
  simp [initConfig, hcfg, freeConfig]

theorem initConfig_noMemory (hcfg : env.cfgInit = true) (hm : env.malloc = false) :
    (initConfig filepath dump env).res = .error .nullPointer := by
  cases dump <;> simp [initConfig, hcfg, hm, dumpConfig]

theorem initConfig_noCa (hcfg : env.cfgInit = true) (hm : env.malloc = true) (hca : env.options.EmptyCa) :
    (initConfig filepath dump env).res = .ok none := by
  have hcheck := emptyCa_iff.mp hca
  cases dump <;> simp [initConfig, hcfg, hm, hcheck, dumpConfig, freeConfig]

theorem initConfig_returns (hcfg : env.cfgInit = true) (hm : env.malloc = true) (hca : ¬ env.options.EmptyCa) :
    (initConfig filepath dump env).res = .ok (some (readConfig env.options)) := by
  have hcheck := mt emptyCa_iff.mpr hca
  cases dump <;> simp [initConfig, hcfg, hm, hcheck, dumpConfig]

theorem initConfig_some {filepath : CStr} {dump : Bool} {config : FullConfiguration}
    (h : (initConfig filepath dump env).res = .ok (some config)) : config = readConfig env.options := by
  cases hcfg : env.cfgInit with
  | false =>
    rw [initConfig_noCfg _ _ hcfg] at h
    cases h
  | true =>
    cases hm : env.malloc with
    | false =>
      rw [initConfig_noMemory _ _ hcfg hm] at h
      cases h
    | true =>
      by_cases hca : env.options.EmptyCa
      · rw [initConfig_noCa _ _ hcfg hm hca] at h
        cases h
      · rw [initConfig_returns _ _ hcfg hm hca] at h
        cases h
        rfl

end

theorem not_fileComplete_noCfg {env : ConfigEnv} (hcfg : env.cfgInit = false) : ¬ FileComplete env := by
  intro h
  have hparse := h.1
  simp [ConfigEnv.cfgParse, hcfg] at hparse

/-- What does not return `NULL` is right only for a complete file. -/
theorem takesComplete_of_not_null {filepath : CStr} {dump : Bool} {env : ConfigEnv}
    (hne : (initConfig filepath dump env).res ≠ .ok none) : TakesComplete filepath dump env ↔ FileComplete env := by
  constructor
  · intro h
    by_contra hno
    exact hne (h.elseNull hno)
  · intro h
    exact ⟨fun _ _ => h, fun hno => absurd h hno⟩

/-- **`init_config` does what it is for exactly when** there is a `cfg_t` and either the file is complete, or
it is incomplete in the one way that is noticed: TLS, and a CA set to nothing twice. -/
theorem takesComplete_iff (filepath : CStr) (dump : Bool) (env : ConfigEnv) :
    TakesComplete filepath dump env ↔
      env.cfgInit = true ∧ (FileComplete env ∨ env.malloc = true ∧ env.options.EmptyCa) := by
  cases hcfg : env.cfgInit with
  | false =>
    refine iff_of_false (fun h => ?_) (by simp)
    have hnull := h.elseNull (not_fileComplete_noCfg hcfg)
    rw [initConfig_noCfg _ _ hcfg] at hnull
    cases hnull
  | true =>
    simp only [true_and]
    cases hm : env.malloc with
    | false =>
      rw [takesComplete_of_not_null (by rw [initConfig_noMemory _ _ hcfg hm]; simp)]
      simp
    | true =>
      by_cases hca : env.options.EmptyCa
      · have hnull := initConfig_noCa filepath dump hcfg hm hca
        refine iff_of_true ⟨fun config h => ?_, fun _ => hnull⟩ (Or.inr ⟨rfl, hca⟩)
        rw [hnull] at h
        cases h
      · rw [takesComplete_of_not_null (by rw [initConfig_returns _ _ hcfg hm hca]; simp)]
        simp [hca]

def confPath : CStr := ⟨bytes "/etc/mqrestt.conf", by decide⟩

/-- A file that sets nothing, or only `mqtt_tls`. -/
def fileEnv (parse : CfgResult) (tls : Option Bool) : ConfigEnv where
  malloc := true
  cfgInit := true
  parse := parse
  options := {
    logtarget := none
    logfile := none
    logfacility := none
    loglevel := none
    mqttBrokerHost := none
    mqttBrokerPort := none
    mqttKeepalive := none
    mqttTls := tls
    mqttCafile := none
    mqttCapath := none
    mqttCertfile := none
    mqttKeyfile := none
    mqttUserPw := none
    mqttUser := none
    mqttPw := none }
  print := []

theorem initConfig_fileEnv (parse : CfgResult) (tls : Option Bool) :
    (initConfig confPath false (fileEnv parse tls)).res = .ok (some (readConfig (fileEnv parse tls).options)) := by
  apply initConfig_returns confPath false rfl rfl
  rintro ⟨-, ⟨s, hs, -⟩, -⟩
  cases hs

/-- A file that cannot be opened, one that breaks off at once, one with TLS and no CA, and no `cfg_t`. -/
theorem not_takesComplete_routes :
    ¬ TakesComplete confPath false (fileEnv .fileError none) ∧
    ¬ TakesComplete confPath false (fileEnv .parseError none) ∧
    ¬ TakesComplete confPath false (fileEnv .success (some true)) ∧
    ¬ TakesComplete confPath false { fileEnv .success none with cfgInit := false } := by
  refine ⟨fun h => ?_, fun h => ?_, fun h => ?_, fun h => ?_⟩
  · cases (h.onlyComplete _ (initConfig_fileEnv .fileError none)).1
  · cases (h.onlyComplete _ (initConfig_fileEnv .parseError none)).1
  · rcases (h.onlyComplete _ (initConfig_fileEnv .success (some true))).2 rfl with ⟨s, hs, -⟩ | ⟨s, hs, -⟩
    · cases hs
    · cases hs
  · have hnull := h.elseNull (not_fileComplete_noCfg rfl)
    rw [initConfig_noCfg confPath false rfl] at hnull
    cases hnull

example : (readConfig (fileEnv .success (some true)).options).mqttCafile = some placeholder := rfl

end Mqrestt
