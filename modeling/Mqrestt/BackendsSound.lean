import Mqrestt.LoggingSound

/-!
# One specification for three back-ends

A message is emitted when its level is not above `loglevel`, as the format with the caller's
arguments, and the process ends after it when it was fatal. `log_print_syslog` hands its
`va_list` to `syslog`, which takes it for the first argument of the format.
-/

namespace Mqrestt
open CSem

/-! ## The specification -/

def LogEffect.text? : LogEffect → Option (List Byte)
  | .stdout line => some line
  | .logfile line => some line
  | .syslog _ text => some text
  | _ => none

def emitted (out : List LogEffect) : List (List Byte) := out.filterMap LogEffect.text?

/-- A head and the message, which is cut off only where the text has come to the limit. -/
def Renders (head : List Byte) (limit : Option Nat) (message text : List Byte) : Prop :=
  ∃ shown, text = head ++ shown ∧ shown <+: message ∧ (shown = message ∨ ∃ n, limit = some n ∧ n ≤ text.length)

/-- What a back-end is for. A store outside the buffer is not defined, so it meets no specification. -/
structure Meets (p : LogRun Unit) (loglevel : Nat) (type : LogMsgType) (head : List Byte) (limit : Option Nat)
    (message : List Byte) : Prop where
  shown : type.level ≤ loglevel → ∃ text, emitted p.out = [text] ∧ Renders head limit message text
  silent : loglevel < type.level → emitted p.out = []
  exits : p.res = if type = .fatal then .error (.exit 1) else .ok ()
  inside : ∀ i : Int, .write i ∈ p.out → 0 ≤ i ∧ i < logMsgMaxLength

/-- The three back-ends on one call. What the first two write ends at the first NUL. -/
structure Agree (loglevel : Nat) (env : LogEnv) (c : LogCall) : Prop where
  file : Meets (logPrintFile loglevel env c) loglevel c.type (lineHead env (msgHead c.type) c.site) (some 254)
    (cstr (messageText env c))
  console : Meets (logPrintConsole loglevel env c) loglevel c.type (lineHead env (msgHeadConsole c.type) c.site)
    (some 254) (cstr (messageText env c))
  syslog : Meets (logPrintSyslog loglevel env c) loglevel c.type [] none (messageText env c)

/-! ## A head is a string -/

theorem noNul_twoDigits {n : Nat} (h : n < 100) : 0 ∉ twoDigits n := by
  have hdigit : ∀ d < 10, (48 + d).toUInt8 ≠ 0 := by decide
  intro hmem
  rcases List.mem_cons.mp hmem with h0 | hmem
  · exact hdigit (n / 10) (by omega) h0.symm
  · exact hdigit (n % 10) (by omega) (List.mem_singleton.mp hmem).symm

theorem noNul_printTime (libc : Libc) (t : TimeOfDay) : 0 ∉ printTime libc t := by
  have hhour := noNul_twoDigits (t.hour_lt.trans (by decide))
  have hminute := noNul_twoDigits (t.minute_lt.trans (by decide))
  have hsecond := noNul_twoDigits (t.second_le.trans_lt (by decide))
  have hmillisec := noNul_decimal (t.usec / 1000)
  rw [printTime_eq]
  simp [strftime, millisecText, hhour, hminute, hsecond, hmillisec]

theorem noNul_intText (n : Int) : 0 ∉ intText n := by
  have hdecimal := noNul_decimal n.natAbs
  unfold intText
  split <;> simp [hdecimal]

theorem noNul_msgHead (type : LogMsgType) : 0 ∉ msgHead type := by
  cases type <;> decide

theorem noNul_msgHeadConsole (type : LogMsgType) : 0 ∉ msgHeadConsole type := by
  cases type <;> decide

theorem noNul_lineHead (env : LogEnv) {head : List Byte} (h : 0 ∉ head) (site : LogSite) :
    0 ∉ lineHead env head site := by
  rw [lineHead_eq]
  simp [bytes, h, noNul_printTime, noNul_intText, site.file.noNul, site.function.noNul]

/-! ## The three calls -/

theorem renders_line {head : List Byte} (h0 : 0 ∉ head) (message : List Byte) :
    Renders head (some 254) (cstr message) (cstr (head ++ message.take (254 - head.length))) := by
  rw [cstr_append_of_noNul h0, ← take_cstr]
  refine ⟨_, rfl, List.take_prefix _ _, ?_⟩
  by_cases hfits : (cstr message).length ≤ 254 - head.length
  · exact Or.inl (List.take_of_length_le hfits)
  · right
    refine ⟨254, rfl, ?_⟩
    rw [List.length_append, List.length_take]
    omega

theorem meets_dropped {loglevel : Nat} (env : LogEnv) (c : LogCall) (target : LogTarget) (head : List Byte)
    (limit : Option Nat) (message : List Byte) (h : loglevel < c.type.level) :
    Meets (logPrint target loglevel env c) loglevel c.type head limit message := by
  rw [logPrint_dropped env c target h]
  constructor
  · intro hle
    exact absurd h (not_lt.mpr hle)
  · intro _
    rfl
  · rw [if_neg (ne_fatal_of_dropped c h)]
    rfl
  · intro i hi
    cases hi

theorem LogLine.emitted_emit (l : LogLine) : emitted l.emit.out = [] := by
  refine List.filterMap_eq_nil_iff.mpr fun e he => ?_
  rcases l.mem_emit he with ⟨_, rfl⟩ | ⟨_, _, rfl⟩ <;> rfl

/-- A call that puts a line together meets the specification exactly when the head fits and the line is then written. -/
theorem meets_line_iff {w : LongWidth} {head message : List Byte} {stack : Mem} {e : LogEffect} {loglevel : Nat}
    {type : LogMsgType} (h0 : 0 ∉ head) (hlevel : type.level ≤ loglevel) (hwrite : ∀ i, e ≠ .write i)
    (he : ∀ text, e.text? = some text → text = (logLine w head message).text stack) :
    Meets ⟨(logLine w head message).emit.out ++ [e], exitResult type⟩ loglevel type head (some 254) (cstr message) ↔
      e.text?.isSome ∧ head.length ≤ 255 := by
  have hemitted : emitted ((logLine w head message).emit.out ++ [e]) = e.text?.toList := by
    rw [emitted, List.filterMap_append, ← emitted, LogLine.emitted_emit]
    cases h : e.text? <;> simp [h]
  have hmem := LogLine.write_mem_snoc (logLine w head message) hwrite
  constructor
  · intro h
    obtain ⟨text, htext, -⟩ := h.shown hlevel
    refine ⟨?_, ?_⟩
    · rw [hemitted] at htext
      cases hsome : e.text? with
      | none =>
        rw [hsome] at htext
        cases htext
      | some _ => rfl
    · apply length_le_of_inside w message
      intro i hi
      exact h.inside i ((hmem i).mpr hi)
  · rintro ⟨hsome, hlen⟩
    obtain ⟨text, htext⟩ := Option.isSome_iff_exists.mp hsome
    constructor
    · intro _
      refine ⟨text, ?_, ?_⟩
      · rw [hemitted, htext]
        rfl
      · rw [he text htext, logLine_text w message stack hlen]
        exact renders_line h0 message
    · intro h
      exact absurd h (not_lt.mpr hlevel)
    · rfl
    · intro i hi
      exact (logLine_sound w message stack hlen).inside i ((hmem i).mp hi)

section
variable {loglevel : Nat} (env : LogEnv) (c : LogCall) (hlevel : c.type.level ≤ loglevel)
include hlevel

theorem meets_file_iff : Meets (logPrintFile loglevel env c) loglevel c.type (lineHead env (msgHead c.type) c.site)
    (some 254) (cstr (messageText env c)) ↔ env.writable = true ∧ c.site.length ≤ 230 := by
  rw [logPrintFile_eq env c hlevel]
  refine (@meets_line_iff _ _ _ env.stack _ _ _ (noNul_lineHead env (noNul_msgHead c.type) c.site) hlevel
    ?_ ?_).trans ?_
  · intro i
    split <;> exact LogEffect.noConfusion
  · intro text htext
    split at htext
    · exact (Option.some.inj htext).symm
    · cases htext
  · rw [length_lineHead, length_msgHead]
    cases env.writable with
    | false => simp [LogEffect.text?]
    | true =>
      simp only [LogEffect.text?, if_true, Option.isSome_some, true_and]
      omega

theorem meets_console_iff :
    Meets (logPrintConsole loglevel env c) loglevel c.type (lineHead env (msgHeadConsole c.type) c.site) (some 254)
      (cstr (messageText env c)) ↔ (termColor c.type).length + c.site.length ≤ 223 := by
  rw [logPrintConsole_eq env c hlevel]
  refine (@meets_line_iff _ _ _ env.stack _ _ _ (noNul_lineHead env (noNul_msgHeadConsole c.type) c.site) hlevel
    ?_ ?_).trans ?_
  · intro i
    exact LogEffect.noConfusion
  · intro text htext
    exact (Option.some.inj htext).symm
  · rw [length_lineHead, length_msgHeadConsole]
    simp only [LogEffect.text?, Option.isSome_some, true_and]
    omega

theorem meets_syslog_iff : Meets (logPrintSyslog loglevel env c) loglevel c.type [] none (messageText env c) ↔
    sprintf env.libc c.format env.junk = messageText env c := by
  rw [logPrintSyslog_eq env c hlevel]
  constructor
  · intro h
    obtain ⟨text, htext, shown, rfl, -, hshown⟩ := h.shown hlevel
    rcases hshown with hshown | ⟨n, hn, -⟩
    · rw [hshown] at htext
      exact List.head_eq_of_cons_eq htext
    · cases hn
  · intro h
    constructor
    · intro _
      exact ⟨_, rfl, _, rfl, h ▸ List.prefix_rfl, Or.inl h⟩
    · intro hlt
      exact absurd hlt (not_lt.mpr hlevel)
    · rfl
    · intro i hi
      cases List.mem_singleton.mp hi

end

/-! ## All three -/

theorem agree_iff {loglevel : Nat} (env : LogEnv) (c : LogCall) (hlevel : c.type.level ≤ loglevel) :
    Agree loglevel env c ↔ env.writable = true ∧ (termColor c.type).length + c.site.length ≤ 223 ∧
      sprintf env.libc c.format env.junk = messageText env c := by
  constructor
  · intro h
    have hfile := (meets_file_iff env c hlevel).mp h.file
    exact ⟨hfile.1, (meets_console_iff env c hlevel).mp h.console, (meets_syslog_iff env c hlevel).mp h.syslog⟩
  · rintro ⟨hwritable, hsite, htext⟩
    exact ⟨(meets_file_iff env c hlevel).mpr ⟨hwritable, by omega⟩, (meets_console_iff env c hlevel).mpr hsite,
      (meets_syslog_iff env c hlevel).mpr htext⟩

theorem agree_dropped {loglevel : Nat} (env : LogEnv) (c : LogCall) (h : loglevel < c.type.level) :
    Agree loglevel env c :=
  ⟨meets_dropped env c .file _ _ _ h, meets_dropped env c .console _ _ _ h, meets_dropped env c .syslog _ _ _ h⟩

theorem logLookupLoglevel_returns (name : CStr) : ∃ loglevel, (logLookupLoglevel name).res = .ok loglevel := by
  unfold logLookupLoglevel
  repeat' split
  all_goals exact ⟨_, rfl⟩

/-- **The back-ends agree exactly when** the message is dropped, or there is a log file to write to, the head fits
into the buffer of the console, and no conversion of the format shows anything of its argument. -/
theorem backends_agree_iff (name : CStr) (env : LogEnv) (type : LogMsgType) (site : LogSite) (format : List Byte)
    {args : List VaArg} (hargs : Matches (pieces format) args) :
    ∃ loglevel, (logLookupLoglevel name).res = .ok loglevel ∧
      ((∀ junk, Matches (pieces format) junk → Agree loglevel { env with junk } ⟨type, site, format, args⟩) ↔
        loglevel < type.level ∨ env.writable = true ∧ (termColor type).length + site.length ≤ 223 ∧
          ∀ c, .conv c ∈ pieces format → ¬ env.libc.Shows c) := by
  obtain ⟨loglevel, hname⟩ := logLookupLoglevel_returns name
  refine ⟨loglevel, hname, ?_⟩
  by_cases hlevel : loglevel < type.level
  · exact iff_of_true (fun junk _ => agree_dropped _ _ hlevel) (Or.inl hlevel)
  · rw [← render_const_iff]
    simp only [hlevel, false_or]
    constructor
    · intro h
      have hall := fun junk hjunk =>
        (agree_iff { env with junk } ⟨type, site, format, args⟩ (not_lt.mp hlevel)).mp (h junk hjunk)
      obtain ⟨hwritable, hsite, -⟩ := hall args hargs
      refine ⟨hwritable, hsite, fun as as' has has' => ?_⟩
      exact (hall as has).2.2.trans (hall as' has').2.2.symm
    · rintro ⟨hwritable, hsite, hconst⟩ junk hjunk
      exact (agree_iff { env with junk } ⟨type, site, format, args⟩ (not_lt.mp hlevel)).mpr
        ⟨hwritable, hsite, hconst junk args hjunk hargs⟩

def sampleSite : LogSite := ⟨⟨bytes "configuration.c", by decide⟩, 163, ⟨bytes "init_mqtt2rest_unitconfigs", by decide⟩⟩

def infoName : CStr := ⟨bytes "info", by decide⟩

theorem backends_agree_iff_bye : ∃ loglevel, (logLookupLoglevel infoName).res = .ok loglevel ∧
    ((∀ junk, Matches (pieces (bytes "bye")) junk →
        Agree loglevel { sampleLogEnv with junk } ⟨.info, sampleSite, bytes "bye", []⟩) ↔
      loglevel < LogMsgType.level .info ∨ sampleLogEnv.writable = true ∧
        (termColor .info).length + sampleSite.length ≤ 223 ∧
          ∀ c, .conv c ∈ pieces (bytes "bye") → ¬ sampleLogEnv.libc.Shows c) :=
  backends_agree_iff infoName sampleLogEnv .info sampleSite (bytes "bye") List.nil_prefix

def unitCall : LogCall := ⟨.info, sampleSite, bytes "UNIT: %s", [.str (some (bytes "product1"))]⟩

theorem not_agree_unitCall : (logLookupLoglevel infoName).res = .ok 3 ∧ Matches (pieces unitCall.format) unitCall.args ∧
    Matches (pieces unitCall.format) sampleLogEnv.junk ∧ ¬ Agree 3 sampleLogEnv unitCall := by
  have hkinds : kindsOf (pieces unitCall.format) = [true] := by decide
  have htexts : sprintf sampleLogEnv.libc unitCall.format sampleLogEnv.junk ≠ messageText sampleLogEnv unitCall := by
    decide
  refine ⟨by decide, ?_, ?_, ?_⟩
  · rw [Matches, hkinds]
    exact List.prefix_rfl
  · rw [Matches, hkinds]
    exact List.prefix_rfl
  · rw [agree_iff sampleLogEnv unitCall (by decide)]
    exact fun h => htexts h.2.2

/-- A plain `%s` shows its argument, and so does a plain `%d`. -/
theorem shows_plain (libc : Libc) {conv : Byte} (h : conv = 115 ∨ conv = 100) : libc.Shows (plainConversion conv) := by
  rcases h with rfl | rfl
  · refine ⟨[.str (some [])], [.str (some [65])], rfl, rfl, ?_⟩
    simp [Libc.text, plainConversion, Conversion.pad, Amount.get]
  · refine ⟨[.num 0], [.num 1], rfl, rfl, ?_⟩
    have hdigits : intText (toCInt 0) ≠ intText (toCInt 1) := by decide
    simpa [Libc.text, plainConversion, Conversion.pad, Amount.get, Conversion.sign, Conversion.digits, signedValue,
      intText] using hdigits

/-- So `log_print_syslog` loses the arguments of every such format, whatever they are. -/
theorem exists_not_agree {loglevel : Nat} (env : LogEnv) {c : LogCall} (hlevel : c.type.level ≤ loglevel)
    {conv : Byte} (hconv : conv = 115 ∨ conv = 100)
    (hmem : .conv (plainConversion conv) ∈ pieces c.format) :
    ∃ junk, Matches (pieces c.format) junk ∧ ¬ Agree loglevel { env with junk } c := by
  by_contra hall
  push Not at hall
  refine (render_const_iff env.libc (pieces c.format)).mp ?_ _ hmem (shows_plain env.libc hconv)
  intro as as' has has'
  have h := ((agree_iff { env with junk := as } c hlevel).mp (hall as has)).2.2
  have h' := ((agree_iff { env with junk := as' } c hlevel).mp (hall as' has')).2.2
  exact h.trans h'.symm

end Mqrestt
