import Mqrestt.ProgramSound

/-!
# An exit that nobody is told of

`main` uses the level of errors for two of its last words, and the default level of the log
is that of fatal lines. Then the whole run is silent if the start was: it has lines of its
own for `MQRESTT_CONFIG`, for most options and for what it does not find.
-/

namespace Mqrestt
open CSem

/-! ## A start that is silent -/

/-- `log_init` finds what it looks for, and for the facility has no word when it does not. -/
inductive QuietLog (config : FullConfiguration) (env : LogInitEnv) : Prop
  | console (target : config.logtarget.bytes = bytes "stdout")
  | syslog (target : config.logtarget.bytes = bytes "syslog")
      (facility : ∀ f ∈ env.facilitynames, f.1 ≠ config.logfacility.bytes)
  | file (target : config.logtarget.bytes = bytes "file") (opened : env.fopen = true)

/-- A condition on what the program is given. -/
structure QuietStart (env : ProgramEnv) : Prop where
  mqresttConfig : env.mqresttConfig = none
  opts : ∀ opt ∈ env.opts, ∃ optarg, opt = .configfile optarg
  cfgInit : env.config.cfgInit = true
  malloc : env.config.malloc = true
  options : ¬ env.config.options.EmptyCa
  loglevel : (readConfig env.config.options).loglevel.bytes = bytes "fatal"
  log : QuietLog (readConfig env.config.options) env.log

def Effect.Hidden (e : Effect) : Prop := e.tells 0 = false

def ProgramEffect.Hidden (e : ProgramEffect) : Prop := e.tells 0 = false

@[simp] theorem not_hidden_stderr {format : String} {args : List LogArg} : ¬ (Effect.stderr format args).Hidden := by
  simp [Effect.Hidden, Effect.tells]

@[simp] theorem not_hidden_stdout {format : String} {args : List LogArg} :
    ¬ (ProgramEffect.stdout format args).Hidden := by
  simp [ProgramEffect.Hidden, ProgramEffect.tells]

@[simp] theorem hidden_log {type : LogMsgType} {format : String} {args : List LogArg} :
    (Effect.log type format args).Hidden ↔ type ≠ .fatal := by
  cases type <;> simp [Effect.Hidden, Effect.tells, LogMsgType.level]

theorem returns_did {α : Type} {p : Run α} {a : α} :
    (did p).Returns ProgramEffect.Hidden a ↔ p.Returns Effect.Hidden a :=
  Proc.returns_mapOut

section
variable {appName : CStr} {v : Versions} {opts : List Opt}

/-- Only the dump has its lines later. -/
theorem optionSteps_quiet_iff (hd : Opt.daemon ∉ opts) (o : Options) :
    (∃ o', (opts.foldlM (optionStep appName v) o).Returns Effect.Hidden o' ∧ o'.dumpConfig = false) ↔
      o.dumpConfig = false ∧ ∀ opt ∈ opts, ∃ optarg, opt = .configfile optarg := by
  induction opts generalizing o with
  | nil => simp
  | cons opt opts ih =>
    rw [List.mem_cons, not_or] at hd
    obtain ⟨hne, hrest⟩ := hd
    have hcons : (∃ o', ((opt :: opts).foldlM (optionStep appName v) o).Returns Effect.Hidden o' ∧
          o'.dumpConfig = false) ↔
        ∃ o₁, (optionStep appName v o opt).Returns Effect.Hidden o₁ ∧ o₁.dumpConfig = false ∧
          ∀ opt ∈ opts, ∃ optarg, opt = .configfile optarg := by
      simp only [List.foldlM_cons, Proc.returns_bind, ← ih hrest]
      constructor
      · rintro ⟨o', ⟨o₁, h₁, h'⟩, hdump⟩
        exact ⟨o₁, h₁, o', h', hdump⟩
      · rintro ⟨o₁, h₁, o', h', hdump⟩
        exact ⟨o', ⟨o₁, h₁, h'⟩, hdump⟩
    rw [hcons, List.forall_mem_cons]
    cases opt with
    | configfile optarg => simp [optionStep]
    | daemon => exact absurd rfl hne
    | dump => simp [optionStep]
    | help | version | unknown => simp [optionStep, Proc.returns_bind]

theorem readOptions_quiet_iff (hd : Opt.daemon ∉ opts) {mqresttConfig : Option CStr} :
    (∃ o, (readOptions appName v mqresttConfig opts).Returns Effect.Hidden o ∧ o.dumpConfig = false) ↔
      mqresttConfig = none ∧ ∀ opt ∈ opts, ∃ optarg, opt = .configfile optarg := by
  cases mqresttConfig with
  | none => simp [readOptions, optionSteps_quiet_iff hd]
  | some s => simp [readOptions]

end

section
variable {filepath : CStr} {dump : Bool} {env : ConfigEnv}

theorem initConfig_quiet_iff {config : Option FullConfiguration} :
    (initConfig filepath dump env).Returns Effect.Hidden config ↔
      dump = false ∧ env.cfgInit = true ∧ env.malloc = true ∧ ¬ env.options.EmptyCa ∧
        some (readConfig env.options) = config := by
  unfold initConfig
  cases hcfg : env.cfgInit with
  | false => simp
  | true =>
    cases dump with
    | true => simp [dumpConfig]
    | false =>
      cases hm : env.malloc with
      | false => simp
      | true =>
        by_cases hca : env.options.EmptyCa
        · have hcheck := emptyCa_iff.mp hca
          simp [hcheck, hca]
        · have hcheck := mt emptyCa_iff.mpr hca
          simp [hcheck, hca]

theorem loadConfig_quiet_iff {config : FullConfiguration} :
    (loadConfig filepath dump env).Returns Effect.Hidden config ↔
      dump = false ∧ env.cfgInit = true ∧ env.malloc = true ∧ ¬ env.options.EmptyCa ∧
        readConfig env.options = config := by
  unfold loadConfig
  simp only [Proc.returns_bind, initConfig_quiet_iff]
  constructor
  · rintro ⟨_, ⟨hdump, hcfg, hm, hca, rfl⟩, h⟩
    exact ⟨hdump, hcfg, hm, hca, Proc.returns_pure.mp h⟩
  · rintro ⟨hdump, hcfg, hm, hca, h⟩
    exact ⟨_, ⟨hdump, hcfg, hm, hca, rfl⟩, Proc.returns_pure.mpr h⟩

end

theorem logLookupLoglevel_quiet_iff {name : CStr} :
    (logLookupLoglevel name).Returns Effect.Hidden 0 ↔ name.bytes = bytes "fatal" := by
  unfold logLookupLoglevel
  by_cases h : name.bytes = bytes "fatal"
  · simp [h]
  · rw [if_neg h]
    refine iff_of_false ?_ h
    repeat' split
    all_goals simp

theorem logLookupSyslogFacility_quiet_iff {facilitynames : List (List Byte × Int)} {name : CStr} :
    (∃ facility, (logLookupSyslogFacility facilitynames name).Returns ProgramEffect.Hidden facility) ↔
      ∀ f ∈ facilitynames, f.1 ≠ name.bytes := by
  unfold logLookupSyslogFacility
  cases hfind : facilitynames.find? fun f => f.1 = name.bytes with
  | none => simpa using hfind
  | some f =>
    have hname := List.find?_some hfind
    refine iff_of_false ?_ fun h => h f (List.mem_of_find?_eq_some hfind) (of_decide_eq_true hname)
    simp

section
variable {config : FullConfiguration} {env : LogInitEnv}

theorem quietLog_of_returns {l : LogState} (hl : (logInit config env).Returns ProgramEffect.Hidden (0, l))
    (hprint : l.logPrint ≠ none) :
    (logLookupLoglevel config.loglevel).Returns Effect.Hidden l.loglevel ∧ QuietLog config env := by
  unfold logInit at hl
  obtain ⟨loglevel, hlevel, hl⟩ := Proc.returns_bind.mp hl
  rw [returns_did] at hlevel
  split at hl
  next target =>
    cases Proc.returns_pure.mp hl
    exact ⟨hlevel, .console target⟩
  split at hl
  next target =>
    obtain ⟨facility, hfacility, hl⟩ := Proc.returns_bind.mp hl
    obtain ⟨-, -, hl⟩ := Proc.returns_bind.mp hl
    cases Proc.returns_pure.mp hl
    exact ⟨hlevel, .syslog target (logLookupSyslogFacility_quiet_iff.mp ⟨facility, hfacility⟩)⟩
  split at hl
  next target =>
    obtain ⟨-, -, hl⟩ := Proc.returns_bind.mp hl
    split at hl
    next =>
      obtain ⟨-, -, hl⟩ := Proc.returns_bind.mp hl
      cases Proc.returns_pure.mp hl
    next hopened =>
      cases Proc.returns_pure.mp hl
      exact ⟨hlevel, .file target (by simpa using hopened)⟩
  next =>
    cases Proc.returns_pure.mp hl
    exact absurd rfl hprint

theorem QuietLog.returns (h : QuietLog config env) (hlevel : config.loglevel.bytes = bytes "fatal") :
    ∃ l, (logInit config env).Returns ProgramEffect.Hidden (0, l) ∧ l.loglevel = 0 ∧ l.logPrint ≠ none := by
  have hlookup := returns_did.mpr (logLookupLoglevel_quiet_iff.mpr hlevel)
  cases h with
  | console target =>
    refine ⟨⟨some .console, 0, false⟩, Proc.returns_bind.mpr ⟨0, hlookup, ?_⟩, rfl, by simp⟩
    simp [target]
  | syslog target facility =>
    obtain ⟨code, hcode⟩ := logLookupSyslogFacility_quiet_iff.mpr facility
    refine ⟨⟨some .syslog, 0, false⟩, Proc.returns_bind.mpr ⟨0, hlookup, ?_⟩, rfl, by simp⟩
    have hne : ¬ bytes "syslog" = bytes "stdout" := by decide
    rw [target, if_neg hne, if_pos rfl]
    refine Proc.returns_bind.mpr ⟨code, hcode, ?_⟩
    simp [ProgramEffect.Hidden, ProgramEffect.tells]
  | file target opened =>
    refine ⟨⟨some .file, 0, true⟩, Proc.returns_bind.mpr ⟨0, hlookup, ?_⟩, rfl, by simp⟩
    have hne : ¬ bytes "file" = bytes "stdout" := by decide
    have hne' : ¬ bytes "file" = bytes "syslog" := by decide
    rw [target, if_neg hne, if_neg hne', if_pos rfl]
    simp [opened, ProgramEffect.Hidden, ProgramEffect.tells]

end

/-- Without `-d`, no line of the start is seen at the level of fatal lines, exactly under the condition. -/
theorem startUp_quiet_iff {env : ProgramEnv} (hd : Opt.daemon ∉ env.opts) :
    (∃ r, (startUp env).Returns ProgramEffect.Hidden r ∧ r.2.2.loglevel = 0) ↔ QuietStart env := by
  constructor
  · rintro ⟨r, h, h0⟩
    unfold startUp at h
    obtain ⟨o, ho, h⟩ := Proc.returns_bind.mp h
    rw [returns_did] at ho
    simp only [readOptions_foreground hd ho.1, Bool.false_eq_true, if_false] at h
    obtain ⟨config, hconfig, h⟩ := Proc.returns_bind.mp h
    obtain ⟨hdump, hcfg, hm, hca, rfl⟩ := loadConfig_quiet_iff.mp (returns_did.mp hconfig)
    obtain ⟨henv, hopts⟩ := (readOptions_quiet_iff hd).mp ⟨o, ho, hdump⟩
    obtain ⟨⟨ret, l⟩, hlog, h⟩ := Proc.returns_bind.mp h
    dsimp only at h
    split at h
    next =>
      obtain ⟨-, -, h⟩ := Proc.returns_bind.mp h
      exact absurd h Proc.not_returns_halt
    next hret =>
      rw [not_not] at hret
      subst hret
      obtain ⟨_, hstarted, h⟩ := Proc.returns_bind.mp h
      obtain ⟨-, -, h⟩ := Proc.returns_bind.mp h
      cases Proc.returns_pure.mp h
      have hprint : l.logPrint ≠ none := by
        intro hnone
        simp [logStarted, hnone] at hstarted
      obtain ⟨hlevel, hquiet⟩ := quietLog_of_returns hlog hprint
      rw [show l.loglevel = 0 from h0] at hlevel
      exact ⟨henv, hopts, hcfg, hm, hca, logLookupLoglevel_quiet_iff.mp hlevel, hquiet⟩
  · intro h
    obtain ⟨o, ho, hdump⟩ := (readOptions_quiet_iff hd).mpr ⟨h.mqresttConfig, h.opts⟩
    obtain ⟨l, hl, h0, hprint⟩ := h.log.returns h.loglevel
    refine ⟨(o.confFileName, readConfig env.config.options, l), ?_, h0⟩
    unfold startUp
    refine Proc.returns_bind.mpr ⟨o, returns_did.mpr ho, ?_⟩
    simp only [readOptions_foreground hd ho.1, Bool.false_eq_true, if_false]
    refine Proc.returns_bind.mpr ⟨_, returns_did.mpr (loadConfig_quiet_iff.mpr
      ⟨hdump, h.cfgInit, h.malloc, h.options, rfl⟩), ?_⟩
    refine Proc.returns_bind.mpr ⟨(0, l), hl, ?_⟩
    obtain ⟨target, htarget⟩ := Option.ne_none_iff_exists'.mp hprint
    refine Proc.returns_bind.mpr ⟨(), ?_, ?_⟩
    · simp only [logStarted, htarget]
      exact returns_did.mpr (Proc.returns_emit.mpr (hidden_log.mpr (by decide)))
    · simp [ProgramEffect.Hidden, ProgramEffect.tells]

/-! ## The unit sections -/

theorem hidden_readUnits {σ υ : Type} {read : σ → Run υ} (hread : ∀ sec, ∀ e ∈ (read sec).out, e.Hidden)
    {malloc : Nat → Bool} {i : Nat} {secs : List σ} (hm : ∀ k < secs.length, malloc (i + k) = true) :
    ∀ e ∈ (readUnits read malloc i secs).out, e.Hidden := by
  induction secs generalizing i with
  | nil => exact fun e he => absurd he List.not_mem_nil
  | cons sec secs ih =>
    have hi : malloc i = true := hm 0 (Nat.succ_pos _)
    have hrest : ∀ k < secs.length, malloc (i + 1 + k) = true := by
      intro k hk
      rw [Nat.add_assoc, Nat.add_comm 1 k]
      exact hm (k + 1) (Nat.succ_lt_succ hk)
    simp only [readUnits, hi, Bool.not_true, Bool.false_eq_true, if_false]
    refine (Proc.compositional_forall _).bind (hread sec) fun _ _ => ?_
    exact (Proc.compositional_forall _).bind (ih hrest) fun _ _ e he => absurd he List.not_mem_nil

theorem hidden_readMqtt2rest (sec : Mqtt2RestSection) : ∀ e ∈ (readMqtt2rest sec).out, e.Hidden := by
  simp [readMqtt2rest, info]

theorem hidden_readRest2mqtt (sec : Rest2MqttSection) : ∀ e ∈ (readRest2mqtt sec).out, e.Hidden := by
  simp [readRest2mqtt, info]

theorem hidden_getUnitconfigs {σ υ : Type} {read : σ → Run υ} (hread : ∀ sec, ∀ e ∈ (read sec).out, e.Hidden)
    {secs : List σ} {maxSize : Nat} {malloc : Nat → Bool} (hlen : secs.length ≤ maxSize)
    (hm : ∀ i < secs.length, malloc i = true) : ∀ e ∈ (getUnitconfigs read secs maxSize malloc).out, e.Hidden := by
  unfold getUnitconfigs
  rw [if_neg (Nat.not_lt.mpr hlen)]
  exact hidden_readUnits hread fun k hk => by rw [Nat.zero_add]; exact hm k hk

/-- Of sections that can be read nothing is seen, whatever their number. -/
theorem hidden_loadUnits {file : ConfigFile} {env : LoadEnv} (h : Readable file env) :
    ∀ e ∈ (loadUnits file env).out, e.Hidden := by
  have hm := (getUnitconfigs_eq_some_iff readMqtt2rest_res file.mqtt2rest maxUnitNum env.mqtt2rest).mpr h.mqtt2rest
  have hr := (getUnitconfigs_eq_some_iff readRest2mqtt_res file.rest2mqtt maxUnitNum env.rest2mqtt).mpr h.rest2mqtt
  unfold loadUnits getMqtt2restUnitconfigs getRest2mqttUnitconfigs
  refine (Proc.compositional_forall _).bind (hidden_getUnitconfigs hidden_readMqtt2rest h.mqtt2rest.1 h.mqtt2rest.2)
    fun ms hms => ?_
  refine (Proc.compositional_forall _).bind (hidden_getUnitconfigs hidden_readRest2mqtt h.rest2mqtt.1 h.rest2mqtt.2)
    fun rs hrs => ?_
  cases hm.symm.trans hms
  cases hr.symm.trans hrs
  dsimp only
  split
  · split
    · exact fun e he => absurd he List.not_mem_nil
    · simp [error]
  · simp [error]

/-! ## The end -/

section
variable {ι : Type} [DecidableEq ι] (world : World ι) (env : ProgramEnv) (acts : List (Act ι))

/-- The level of the log, the lowest before `log_init`. -/
def ProgramEnv.loglevel (env : ProgramEnv) : Nat :=
  match (startUp env).res with
  | .ok (_, _, l) => l.loglevel
  | .error _ => 0

/-- The status is not that of a success, and nothing of the whole run is seen. -/
def ExitsSilently : Prop :=
  ∃ code, code ≠ 0 ∧ (program world env acts).res = .error (.exit code) ∧
    ∀ e ∈ (program world env acts).out, e.tells env.loglevel = false

variable {world env acts}

theorem loglevel_of_startUp {r : CStr × FullConfiguration × LogState} (h : (startUp env).res = .ok r) :
    env.loglevel = r.2.2.loglevel := by
  unfold ProgramEnv.loglevel
  rw [h]

theorem tells_mono {loglevel : Nat} {e : ProgramEffect} (h : e.tells 0 = true) : e.tells loglevel = true := by
  cases e with
  | did e =>
    cases e with
    | log type format args =>
      simp only [ProgramEffect.tells, Effect.tells, decide_eq_true_eq] at h ⊢
      omega
    | stderr format args => rfl
    | _ => cases h
  | stdout format args => rfl
  | _ => cases h

/-- An exit that has a last word is not silent. -/
theorem not_exitsSilently_of_told (h : Proc.Halts ProgramTold (program world env acts)) :
    ¬ ExitsSilently world env acts := by
  rintro ⟨code, hne, hres, hsilent⟩
  obtain ⟨-, e, he, htells⟩ := h _ hres code rfl hne
  have hquiet := hsilent e (List.mem_of_getLast? he)
  rw [tells_mono htells] at hquiet
  cases hquiet

theorem tells_miscounted (file : ConfigFile) (loglevel : Nat) :
    (miscounted file).tells loglevel = decide (1 ≤ loglevel) := by
  unfold miscounted
  split
  · rfl
  · rfl

theorem program_of_loadUnits {confFileName : CStr} {config : FullConfiguration} {l : LogState} {code : Nat}
    (hs : (startUp env).res = .ok (confFileName, config, l))
    (hres : (loadUnits (env.configFile confFileName) env.load).res = .error (.exit code)) :
    program world env acts =
      ⟨(startUp env).out ++ (did (loadUnits (env.configFile confFileName) env.load)).out, .error (.exit code)⟩ := by
  have hload : (did (loadUnits (env.configFile confFileName) env.load)).res = .error (.exit code) := hres
  unfold program
  rw [Proc.bind_of_ok hs]
  dsimp only
  rw [Proc.bind_of_error hload]

/-- The wrong number of units is the only end whose last word is dropped at some level. -/
theorem exitsSilently_cases (hd : Opt.daemon ∉ env.opts) (h : ExitsSilently world env acts) :
    ∃ r, (startUp env).res = .ok r ∧ r.2.2.loglevel = 0 ∧ Readable env.file env.load ∧
      (env.file.count = 0 ∨ maxUnitNum < env.file.count) := by
  cases hs : (startUp env).res with
  | error e =>
    refine absurd h (not_exitsSilently_of_told (halts_program hd fun _ _ _ hok => ?_))
    rw [hs] at hok
    cases hok
  | ok r =>
    obtain ⟨confFileName, config, l⟩ := r
    have htold : ¬ Proc.Halts SaysWhy (loadUnits (env.configFile confFileName) env.load) := by
      intro hload
      refine not_exitsSilently_of_told (halts_program hd fun _ _ _ hok => ?_) h
      rw [hs] at hok
      cases hok
      exact hload
    by_cases hread : Readable (env.configFile confFileName) env.load
    · rcases loadUnits_of_readable hread with ⟨-, -, units, hunits⟩ | ⟨hcount, hres, hlast⟩
      · exact absurd (Proc.halts_of_ok hunits) htold
      · refine ⟨_, rfl, ?_, ⟨hread.mqtt2rest, hread.rest2mqtt⟩, hcount⟩
        obtain ⟨code, -, -, hsilent⟩ := h
        rw [program_of_loadUnits hs hres] at hsilent
        -- the last word is a line of the log for errors
        have hword := hsilent (.did (miscounted (env.configFile confFileName)))
          (List.mem_append_right _ (List.mem_map_of_mem (List.mem_of_getLast? hlast)))
        rw [loglevel_of_startUp hs] at hword
        have hlevel := (tells_miscounted _ _).symm.trans hword
        simpa using hlevel
    · exact absurd (loadUnits_of_not_readable hread).1 htold

/-- **The program exits in silence exactly when** a start of which nothing is seen finds sections that can be read and
no unit among them, or more than there is room for. Whatever the options but `-d`, the file, the answers of the
libraries and the order of the threads' steps, any other exit that is no success has a word that is seen. -/
theorem exitsSilently_iff (hd : Opt.daemon ∉ env.opts) : ExitsSilently world env acts ↔
    QuietStart env ∧ Readable env.file env.load ∧ (env.file.count = 0 ∨ maxUnitNum < env.file.count) := by
  constructor
  · intro h
    obtain ⟨r, hs, h0, hread, hcount⟩ := exitsSilently_cases hd h
    refine ⟨(startUp_quiet_iff hd).mp ⟨r, ⟨hs, fun e he => ?_⟩, h0⟩, hread, hcount⟩
    obtain ⟨code, -, -, hsilent⟩ := h
    have hquiet := hsilent e (Proc.mem_bind_left he _)
    rwa [loglevel_of_startUp hs, h0] at hquiet
  · rintro ⟨hstart, hread, hcount⟩
    obtain ⟨⟨confFileName, config, l⟩, ⟨hs, hquiet⟩, h0⟩ := (startUp_quiet_iff hd).mpr hstart
    have hread' : Readable (env.configFile confFileName) env.load := ⟨hread.mqtt2rest, hread.rest2mqtt⟩
    rcases loadUnits_of_readable hread' with ⟨hne, hle, -⟩ | ⟨-, hres, -⟩
    · rcases hcount with hzero | hgt
      · exact absurd hzero hne
      · exact absurd hgt (Nat.not_lt.mpr hle)
    · refine ⟨1, Nat.one_ne_zero, ?_, ?_⟩
      · rw [program_of_loadUnits hs hres]
      · rw [program_of_loadUnits hs hres, loglevel_of_startUp hs, h0]
        intro e he
        rcases List.mem_append.mp he with he | he
        · exact hquiet e he
        · obtain ⟨e', he', rfl⟩ := List.mem_map.mp he
          exact hidden_loadUnits hread' e' he'

end

/-- It sets no option and has no section. -/
def emptyFile : ConfigFile := ⟨bytes "mqrestt.conf", sampleConfiguration, [], [], List.nodup_nil, List.nodup_nil⟩

theorem exitsSilently_emptyFile : ExitsSilently sampleWorld (sampleProgramEnv emptyFile) [] := by
  refine (exitsSilently_iff List.not_mem_nil).mpr ⟨?_, ⟨⟨by decide, fun _ _ => rfl⟩, by decide, fun _ _ => rfl⟩, .inl rfl⟩
  have hca : ¬ (sampleProgramEnv emptyFile).config.options.EmptyCa := by
    rintro ⟨htls, -⟩
    cases htls
  exact ⟨rfl, fun _ h => absurd h List.not_mem_nil, rfl, rfl, hca, rfl, .console rfl⟩

end Mqrestt
