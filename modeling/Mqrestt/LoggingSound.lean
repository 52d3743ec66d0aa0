import Mqrestt.Logging

/-!
# The lines of the log

One line is a head and a message in a buffer of 256 bytes. The head is cut off by `snprintf`, but
the message is stored at the place where the whole head would have ended.
-/

namespace Mqrestt
open CSem

/-! ## The head -/

def millisecText (n : Nat) : List Byte := List.replicate (3 - (decimal n).length) 48 ++ decimal n

theorem printTime_eq (libc : Libc) (t : TimeOfDay) :
    printTime libc t = strftime t ++ 46 :: millisecText (t.usec / 1000) := by
  have hp : pieces (bytes "%s.%03d") =
      [.conv (plainConversion 115), .lit 46, .conv ⟨[48], some (.lit 3), none, [], 100⟩] := by decide
  have hsmall : t.usec / 1000 < 1000 := by
    have := t.usec_lt
    omega
  rw [printTime, sprintf, hp, render_str, render_lit]
  generalize t.usec / 1000 = n at hsmall
  have hvalue : toCInt (n : Int) = n := toCInt_of_small (by omega) (by omega)
  have hsign : ¬ (n : Int) < 0 := by omega
  simp [render, Conversion.arity, Libc.text, Conversion.pad, Amount.get, Conversion.sign, Conversion.digits,
    signedValue, millisecText, hvalue, hsign]

theorem length_printTime (libc : Libc) (t : TimeOfDay) : (printTime libc t).length = 12 := by
  have hlen : (decimal (t.usec / 1000)).length ≤ 3 := by
    have := t.usec_lt
    rw [decimal, List.length_map, Nat.length_toDigits_le_iff (by decide) (by decide)]
    omega
  rw [printTime_eq]
  simp [strftime, twoDigits, millisecText]
  omega

theorem lineHead_eq (env : LogEnv) (head : List Byte) (site : LogSite) :
    lineHead env head site = bytes "[" ++ head ++ bytes "][" ++ printTime env.libc env.time ++ bytes "] (" ++
      site.file.bytes ++ bytes ":" ++ intText (toCInt site.line) ++ bytes "," ++ site.function.bytes ++ bytes ") " := by
  have hp : pieces (bytes "[%s][%s] (%s:%d,%s) ") = .lit 91 :: .conv (plainConversion 115) :: .lit 93 :: .lit 91 ::
      .conv (plainConversion 115) :: .lit 93 :: .lit 32 :: .lit 40 :: .conv (plainConversion 115) :: .lit 58 ::
      .conv (plainConversion 100) :: .lit 44 :: .conv (plainConversion 115) :: .lit 41 :: [.lit 32] := by decide
  rw [lineHead, sprintf, hp]
  simp [bytes]

/-- The names of the place, and the digits of the line. -/
def LogSite.length (site : LogSite) : Nat :=
  site.file.bytes.length + (intText (toCInt site.line)).length + site.function.bytes.length

theorem length_lineHead (env : LogEnv) (head : List Byte) (site : LogSite) :
    (lineHead env head site).length = head.length + site.length + 22 := by
  rw [lineHead_eq]
  simp [bytes, length_printTime, LogSite.length]
  omega

/-! ## The buffer -/

/-- The line is put together inside the buffer, and the string in it is what `head` and `message` start with. -/
structure LogLine.Sound (l : LogLine) (stack : Mem) (head message : List Byte) : Prop where
  inside : ∀ i ∈ l.stores.map Prod.fst, 0 ≤ i ∧ i < logMsgMaxLength
  noWrap : (l.size : Int) = logMsgMaxLength - l.offset - 1
  terminated : ∃ k : Nat, k < logMsgMaxLength ∧ l.buffer stack k = 0
  starts : l.text stack <+: head ++ message

section
variable (w : LongWidth) {head : List Byte} (message : List Byte) (stack : Mem)

theorem size_wrapped (n : Int) : (((n % 2 ^ w.bits).toNat : Nat) : Int) = n ↔ 0 ≤ n ∧ n < 2 ^ w.bits := by
  have hpos : (0 : Int) < 2 ^ w.bits := by positivity
  have h₁ := Int.emod_nonneg n hpos.ne'
  have h₂ := Int.emod_lt_of_pos n hpos
  rw [Int.toNat_of_nonneg h₁]
  constructor
  · intro h
    omega
  · rintro ⟨h₀, h⟩
    exact Int.emod_eq_of_lt h₀ h

theorem mem_logLine {i : Int} : i ∈ (logLine w head message).stores.map Prod.fst ↔
    i ∈ (snprintf 0 logMsgMaxLength head).map Prod.fst ∨
      i ∈ (snprintf (logLine w head message).offset (logLine w head message).size message).map Prod.fst := by
  rw [LogLine.stores, List.map_append, List.mem_append]
  rfl

section
variable (hlen : head.length ≤ 255)
include hlen

theorem snprintfResult_head : snprintfResult head = head.length := if_pos (by omega)

theorem logLine_size : (logLine w head message).size = 255 - head.length := by
  have hsize : (((logMsgMaxLength : Int) - snprintfResult head - 1) % 2 ^ w.bits).toNat = 255 - head.length := by
    have hfit := (size_wrapped w ((255 - head.length : Nat) : Int)).mpr ⟨by omega, ?_⟩
    · rw [snprintfResult_head hlen, show (logMsgMaxLength : Int) - head.length - 1 = (255 - head.length : Nat) by
        simp [logMsgMaxLength]; omega]
      omega
    · cases w <;> simp only [LongWidth.bits] <;> omega
  exact hsize

/-- What the buffer holds: the head, and as much of the message as fits into 254 bytes with it. -/
theorem spells_buffer :
    Spells ((logLine w head message).buffer stack) 0 (head ++ message.take (254 - head.length) ++ [0]) := by
  have hsize := logLine_size w message hlen
  have hhead : Spells (applyStores stack (snprintf 0 logMsgMaxLength head)) 0 (head ++ [0]) := by
    have hs := @spells_snprintf 0 _ (show logMsgMaxLength ≠ 0 by decide) head stack
    rwa [List.take_of_length_le (show head.length ≤ logMsgMaxLength - 1 from hlen)] at hs
  have hbuffer : (logLine w head message).buffer stack =
      applyStores (applyStores stack (snprintf 0 logMsgMaxLength head))
        (snprintf head.length (255 - head.length) message) := by
    rw [← hsize, ← snprintfResult_head hlen]
    exact applyStores_append _ _ _
  rw [hbuffer, List.append_assoc, spells_append]
  by_cases hfull : head.length = 255
  · rw [hfull]
    rw [spells_append] at hhead
    simpa [snprintf, hfull] using hhead
  · refine ⟨?_, ?_⟩
    · refine ((spells_append _ _ _).mp hhead).1.frame fun i _ hi => applyStores_of_notMem _ fun hmem => ?_
      have := (mem_snprintf.mp hmem).2.1
      omega
    · rw [zero_add]
      have hs := @spells_snprintf head.length _ (show 255 - head.length ≠ 0 by omega) message
        (applyStores stack (snprintf 0 logMsgMaxLength head))
      rwa [show 255 - head.length - 1 = 254 - head.length by omega] at hs

theorem logLine_text :
    (logLine w head message).text stack = cstr (head ++ message.take (254 - head.length)) := by
  apply scan_eq_cstr (spells_buffer w message stack hlen)
  rw [List.length_append, List.length_take, logMsgMaxLength]
  omega

theorem logLine_sound : (logLine w head message).Sound stack head message := by
  have hsize := logLine_size w message hlen
  have hoffset : (logLine w head message).offset = head.length := snprintfResult_head hlen
  refine ⟨?_, ?_, ?_, ?_⟩
  · intro i hi
    rcases (mem_logLine w message).mp hi with hi | hi
    · obtain ⟨-, h₁, h₂⟩ := mem_snprintf.mp hi
      rw [logMsgMaxLength] at h₂ ⊢
      omega
    · obtain ⟨h₀, h₁, h₂⟩ := mem_snprintf.mp hi
      rw [hsize] at h₀ h₂
      rw [hoffset] at h₁ h₂
      rw [logMsgMaxLength]
      omega
  · rw [hsize, hoffset, logMsgMaxLength]
    omega
  · have hs := ((spells_append _ _ _).mp (spells_buffer w message stack hlen)).2
    rw [zero_add, spells_singleton] at hs
    refine ⟨_, ?_, hs⟩
    rw [List.length_append, List.length_take, logMsgMaxLength]
    omega
  · rw [logLine_text w message stack hlen]
    refine (List.takeWhile_prefix _).trans ?_
    rw [List.prefix_append_right_inj]
    exact List.take_prefix _ _

end

/-- The message of a line with too long a head is stored behind the buffer, or from the byte before it on. -/
theorem length_le_of_inside (hinside : ∀ i ∈ (logLine w head message).stores.map Prod.fst, 0 ≤ i ∧ i < logMsgMaxLength) :
    head.length ≤ 255 := by
  by_contra hlen
  have hmem : snprintfResult head ∈ (logLine w head message).stores.map Prod.fst := by
    refine (mem_logLine w message).mpr (Or.inr (mem_snprintf.mpr ⟨?_, le_rfl, by simp [logLine]⟩))
    -- the rest of the buffer comes to a negative number, and to 256 bytes where there is no length
    intro hsize
    have hzero : ((logMsgMaxLength : Int) - snprintfResult head - 1) % 2 ^ w.bits = 0 := by
      have hpos := Int.emod_nonneg ((logMsgMaxLength : Int) - snprintfResult head - 1)
        (show (2 : Int) ^ w.bits ≠ 0 by positivity)
      simp only [logLine] at hsize
      omega
    unfold snprintfResult logMsgMaxLength at hzero
    cases w <;> simp only [LongWidth.bits] at hzero <;> split at hzero <;> omega
  have hbound := hinside _ hmem
  unfold snprintfResult logMsgMaxLength at hbound
  split at hbound <;> omega

/-! ## How much of a message is shown -/

/-- The bytes of a message that a line with this head has room for. Where `snprintf` cannot count the head,
the message starts one byte before the buffer. -/
def room (head : List Byte) : Nat := if head.length < 2 ^ 31 then 254 - head.length else 255

theorem buffer_uncounted (hlong : ¬ head.length < 2 ^ 31) : (logLine w head message).buffer stack =
    applyStores (applyStores stack (snprintf 0 logMsgMaxLength head)) (storesAt (-1) (message.take 255 ++ [0])) := by
  have hoffset : snprintfResult head = -1 := if_neg hlong
  have hmessage : (logLine w head message).message = storesAt (-1) (message.take 255 ++ [0]) := by
    cases w <;> simp [logLine, hoffset, snprintf, logMsgMaxLength, LongWidth.bits]
  rw [LogLine.buffer, LogLine.stores, applyStores_append, hmessage]
  rfl

theorem logLine_text_congr {m m' : List Byte} (h : m.take (room head) = m'.take (room head)) :
    (logLine w head m).text stack = (logLine w head m').text stack := by
  by_cases hint : head.length < 2 ^ 31
  · rw [room, if_pos hint] at h
    by_cases hlen : head.length ≤ 255
    · rw [logLine_text w m stack hlen, logLine_text w m' stack hlen, h]
    · -- both messages are stored behind the buffer
      have houtside : ∀ (n : List Byte) (i : Int), i < logMsgMaxLength →
          (logLine w head n).buffer stack i = applyStores stack (snprintf 0 logMsgMaxLength head) i := by
        intro n i hi
        rw [LogLine.buffer, LogLine.stores, applyStores_append]
        refine applyStores_of_notMem _ fun hmem => ?_
        have hfrom := (mem_snprintf.mp hmem).2.1
        rw [snprintfResult, if_pos hint] at hfrom
        unfold logMsgMaxLength at hi
        omega
      refine scan_congr fun i _ hi => ?_
      rw [houtside m i (by omega), houtside m' i (by omega)]
  · rw [room, if_neg hint] at h
    unfold LogLine.text
    rw [buffer_uncounted w m stack hint, buffer_uncounted w m' stack hint, h]

theorem logLine_text_uncounted (hlong : ¬ head.length < 2 ^ 31) {b : Byte} {m : List Byte} (hm : 0 ∉ m) :
    (logLine w head (b :: m)).text stack = m.take 254 := by
  have hs := spells_storesAt ((b :: m).take 255 ++ [0]) (applyStores stack (snprintf 0 logMsgMaxLength head)) (-1)
  rw [← buffer_uncounted w (b :: m) stack hlong] at hs
  refine scan_of_spells hs.2 (fun h => hm (List.mem_of_mem_take h)) ?_
  rw [List.length_take, logMsgMaxLength]
  omega

/-- Two messages that begin alike and have no NUL show in the line as far as there is room for them. -/
theorem take_of_logLine_text {p x y : List Byte} (h0 : 0 ∉ head) (hp : p ≠ []) (hx : 0 ∉ p ++ x) (hy : 0 ∉ p ++ y)
    (h : (logLine w head (p ++ x)).text stack = (logLine w head (p ++ y)).text stack) :
    (p ++ x).take (room head) = (p ++ y).take (room head) := by
  by_cases hint : head.length < 2 ^ 31
  · rw [room, if_pos hint]
    by_cases hlen : head.length ≤ 255
    · have hnul : ∀ n : List Byte, 0 ∉ n → 0 ∉ n.take (254 - head.length) := fun n hn h => hn (List.mem_of_mem_take h)
      rw [logLine_text w _ stack hlen, logLine_text w _ stack hlen, cstr_append_of_noNul h0, cstr_append_of_noNul h0,
        cstr_eq_self_iff.mpr (hnul _ hx), cstr_eq_self_iff.mpr (hnul _ hy)] at h
      exact List.append_cancel_left h
    · rw [show 254 - head.length = 0 by omega]
      rfl
  · obtain ⟨b, q, rfl⟩ := List.exists_cons_of_ne_nil hp
    rw [List.cons_append] at hx hy h ⊢
    rw [List.cons_append] at h ⊢
    rw [logLine_text_uncounted w stack hint (List.not_mem_of_not_mem_cons hx),
      logLine_text_uncounted w stack hint (List.not_mem_of_not_mem_cons hy)] at h
    rw [room, if_neg hint]
    exact congrArg (List.cons b) h

end

/-! ## What a call does -/

def exitResult (type : LogMsgType) : Except Halt Unit := if type = .fatal then .error (.exit 1) else .ok ()

section
variable {loglevel : Nat} (env : LogEnv) (c : LogCall)

theorem exitIfFatal_eq (type : LogMsgType) : exitIfFatal type = ⟨[], exitResult type⟩ := by
  unfold exitIfFatal exitResult
  split <;> rfl

theorem logPrintFile_eq (h : c.type.level ≤ loglevel) : logPrintFile loglevel env c =
    ⟨(fileLine env c).emit.out ++ [if env.writable then .logfile ((fileLine env c).text env.stack)
      else .stderr "Write to logfile failed: %s\n" [.str (some env.strerror)]], exitResult c.type⟩ := by
  unfold logPrintFile
  rw [if_pos h, Proc.bind_of_ok (show (fileLine env c).emit.res = .ok () from rfl), exitIfFatal_eq]
  cases env.writable <;> rfl

theorem logPrintConsole_eq (h : c.type.level ≤ loglevel) : logPrintConsole loglevel env c =
    ⟨(consoleLine env c).emit.out ++ [.stdout ((consoleLine env c).text env.stack)], exitResult c.type⟩ := by
  have hemit : (consoleLine env c).emit.res = .ok () := rfl
  unfold logPrintConsole
  rw [if_pos h, exitIfFatal_eq]
  exact Proc.bind_of_ok hemit _

theorem logPrintSyslog_eq (h : c.type.level ≤ loglevel) : logPrintSyslog loglevel env c =
    ⟨[.syslog (syslogPriority c.type) (sprintf env.libc c.format env.junk)], exitResult c.type⟩ := by
  unfold logPrintSyslog
  rw [if_pos h, exitIfFatal_eq]
  rfl

/-- No level drops `log_fatal`. -/
theorem ne_fatal_of_dropped (h : loglevel < c.type.level) : c.type ≠ .fatal := by
  intro hf
  rw [hf] at h
  exact absurd h (Nat.not_lt_zero _)

theorem logPrint_dropped (target : LogTarget) (h : loglevel < c.type.level) :
    logPrint target loglevel env c = pure () := by
  have hfatal := ne_fatal_of_dropped c h
  cases target with
  | console => simp [logPrint, logPrintConsole, exitIfFatal, not_le.mpr h, hfatal]
  | file => simp [logPrint, logPrintFile, not_le.mpr h]
  | syslog => simp [logPrint, logPrintSyslog, exitIfFatal, not_le.mpr h, hfatal]

end

/-! ## Inside the buffer -/

/-- A call that puts a line together for `head` and `message`. That the line is terminated inside the buffer is
that it is shorter than the buffer: it ends at a NUL or with the last byte. -/
structure WritesInside (p : LogRun Unit) (head message : List Byte) : Prop where
  inside : ∀ i : Int, .write i ∈ p.out → 0 ≤ i ∧ i < logMsgMaxLength
  noWrap : ∀ (offset : Int) (size : Nat), .vsnprintf offset size ∈ p.out → (size : Int) = logMsgMaxLength - offset - 1
  line : ∀ text, .stdout text ∈ p.out ∨ .logfile text ∈ p.out →
    text.length < logMsgMaxLength ∧ text <+: head ++ message

section
variable (l : LogLine)

theorem LogLine.emit_out : l.emit.out =
    l.head.map (fun s => .write s.1) ++ .vsnprintf l.offset l.size :: l.message.map (fun s => .write s.1) := rfl

@[simp] theorem LogLine.write_mem_emit {i : Int} : .write i ∈ l.emit.out ↔ i ∈ l.stores.map Prod.fst := by
  simp [LogLine.emit_out, LogLine.stores]

@[simp] theorem LogLine.vsnprintf_mem_emit {offset : Int} {size : Nat} :
    .vsnprintf offset size ∈ l.emit.out ↔ offset = l.offset ∧ size = l.size := by
  simp [LogLine.emit_out]

theorem LogLine.write_mem_snoc {e : LogEffect} (he : ∀ i, e ≠ .write i) (i : Int) :
    .write i ∈ l.emit.out ++ [e] ↔ i ∈ l.stores.map Prod.fst := by
  simp [(he i).symm]

theorem LogLine.mem_emit {e : LogEffect} (h : e ∈ l.emit.out) :
    (∃ i, e = .write i) ∨ ∃ offset size, e = .vsnprintf offset size := by
  simp only [LogLine.emit_out, List.mem_append, List.mem_map, List.mem_cons] at h
  rcases h with ⟨s, _, rfl⟩ | rfl | ⟨s, _, rfl⟩
  · exact Or.inl ⟨_, rfl⟩
  · exact Or.inr ⟨_, _, rfl⟩
  · exact Or.inl ⟨_, rfl⟩

@[simp] theorem LogLine.stdout_notMem_emit {text : List Byte} : .stdout text ∉ l.emit.out := by
  intro h
  rcases l.mem_emit h with ⟨_, he⟩ | ⟨_, _, he⟩ <;> cases he

@[simp] theorem LogLine.logfile_notMem_emit {text : List Byte} : .logfile text ∉ l.emit.out := by
  intro h
  rcases l.mem_emit h with ⟨_, he⟩ | ⟨_, _, he⟩ <;> cases he

end

/-- A call that puts a line together and then writes at most that line. -/
theorem writesInside_iff {w : LongWidth} {head message : List Byte} {stack : Mem} {e : LogEffect} {r : Except Halt Unit}
    (he : e = .stdout ((logLine w head message).text stack) ∨ e = .logfile ((logLine w head message).text stack) ∨
      ∃ f as, e = .stderr f as) :
    WritesInside ⟨(logLine w head message).emit.out ++ [e], r⟩ head message ↔ head.length ≤ 255 := by
  have hwrite := LogLine.write_mem_snoc (logLine w head message) (show ∀ i, e ≠ .write i by
    rcases he with rfl | rfl | ⟨f, as, rfl⟩ <;> simp)
  have hcall : ∀ offset size, .vsnprintf offset size ∈ (logLine w head message).emit.out ++ [e] ↔
      offset = (logLine w head message).offset ∧ size = (logLine w head message).size := by
    intro offset size
    rcases he with rfl | rfl | ⟨f, as, rfl⟩ <;> simp
  have hline : ∀ text, (.stdout text ∈ (logLine w head message).emit.out ++ [e] ∨
      .logfile text ∈ (logLine w head message).emit.out ++ [e]) → text = (logLine w head message).text stack := by
    intro text htext
    rcases he with rfl | rfl | ⟨f, as, rfl⟩
    · simpa using htext
    · simpa using htext
    · simp at htext
  constructor
  · intro h
    apply length_le_of_inside w message
    intro i hi
    exact h.inside i ((hwrite i).mpr hi)
  · intro hlen
    have hsound := logLine_sound w message stack hlen
    refine ⟨fun i hi => hsound.inside i ((hwrite i).mp hi), fun offset size hc => ?_, fun text htext => ?_⟩
    · obtain ⟨rfl, rfl⟩ := (hcall offset size).mp hc
      exact hsound.noWrap
    · rw [hline text htext]
      refine ⟨?_, hsound.starts⟩
      obtain ⟨k, hk, h0⟩ := hsound.terminated
      exact lt_of_le_of_lt (length_scan_le (by rwa [zero_add])) hk

theorem length_msgHead (type : LogMsgType) : (msgHead type).length = 3 := by
  cases type <;> rfl

theorem length_msgHeadConsole (type : LogMsgType) : (msgHeadConsole type).length = (termColor type).length + 10 := by
  rw [msgHeadConsole, List.length_append, List.length_append, length_msgHead]
  rfl

theorem writesInside_dropped {loglevel : Nat} (env : LogEnv) (c : LogCall) (target : LogTarget) (head message : List Byte)
    (h : loglevel < c.type.level) : WritesInside (logPrint target loglevel env c) head message := by
  rw [logPrint_dropped env c target h]
  constructor
  · intro i hi
    cases hi
  · intro offset size hc
    cases hc
  · intro text htext
    rcases htext with ht | ht <;> cases ht

section
variable {loglevel : Nat} (env : LogEnv) (c : LogCall) (hlevel : c.type.level ≤ loglevel)
include hlevel

theorem logPrintFile_inside_iff :
    WritesInside (logPrintFile loglevel env c) (lineHead env (msgHead c.type) c.site) (messageText env c) ↔
      c.site.length ≤ 230 := by
  rw [logPrintFile_eq env c hlevel]
  refine (@writesInside_iff _ _ _ env.stack _ _ ?_).trans ?_
  · cases env.writable with
    | true => exact Or.inr (Or.inl rfl)
    | false => exact Or.inr (Or.inr ⟨_, _, rfl⟩)
  · rw [length_lineHead, length_msgHead]
    omega

theorem logPrintConsole_inside_iff :
    WritesInside (logPrintConsole loglevel env c) (lineHead env (msgHeadConsole c.type) c.site) (messageText env c) ↔
      (termColor c.type).length + c.site.length ≤ 223 := by
  rw [logPrintConsole_eq env c hlevel]
  refine (writesInside_iff (Or.inl rfl)).trans ?_
  rw [length_lineHead, length_msgHeadConsole]
  omega

end

/-- **A line stays inside its buffer exactly when** it is dropped or the names of its place are short enough:
230 bytes for the two names and the digits of the line in the log file, and on the console seven bytes and those
of the colour less. -/
theorem logPrint_writesInside_iff (loglevel : Nat) (env : LogEnv) (c : LogCall) :
    (WritesInside (logPrintFile loglevel env c) (lineHead env (msgHead c.type) c.site) (messageText env c) ↔
      loglevel < c.type.level ∨ c.site.length ≤ 230) ∧
    (WritesInside (logPrintConsole loglevel env c) (lineHead env (msgHeadConsole c.type) c.site) (messageText env c) ↔
      loglevel < c.type.level ∨ (termColor c.type).length + c.site.length ≤ 223) := by
  by_cases h : loglevel < c.type.level
  · exact ⟨iff_of_true (writesInside_dropped env c .file _ _ h) (Or.inl h),
      iff_of_true (writesInside_dropped env c .console _ _ h) (Or.inl h)⟩
  · have hlevel := not_lt.mp h
    simp only [h, false_or]
    exact ⟨logPrintFile_inside_iff env c hlevel, logPrintConsole_inside_iff env c hlevel⟩

def sampleTime : TimeOfDay := ⟨12, 34, 56, 789000, by decide, by decide, by decide, by decide⟩

def sampleLogEnv : LogEnv where
  libc := ⟨.long64, fun _ _ => []⟩
  time := sampleTime
  stack _ := 170
  writable := true
  strerror := []
  junk := [.str (some (bytes "("))]

def answerFunction : CStr := ⟨bytes "answer_to_connection", by decide⟩

def longFile : CStr := ⟨List.replicate 256 97, fun h => absurd (List.eq_of_mem_replicate h) (by decide)⟩

/-- A build path of 256 bytes. -/
def longSite : LogSite := ⟨longFile, 97, answerFunction⟩

theorem length_longSite : longSite.length = 278 := by
  have hfile : longFile.bytes.length = 256 := List.length_replicate
  have hline : (intText (toCInt 97)).length = 2 := by decide
  rw [LogSite.length, longSite, hfile, hline]
  rfl

def longCall : LogCall := ⟨.info, longSite, bytes "x", []⟩

theorem not_writesInside_longSite :
    ¬ WritesInside (logPrintFile 4 sampleLogEnv longCall) (lineHead sampleLogEnv (msgHead longCall.type) longCall.site)
        (messageText sampleLogEnv longCall) ∧
      ¬ WritesInside (logPrintConsole 4 sampleLogEnv longCall)
        (lineHead sampleLogEnv (msgHeadConsole longCall.type) longCall.site) (messageText sampleLogEnv longCall) := by
  have hlevel : longCall.type.level ≤ 4 := show LogMsgType.level .info ≤ 4 by decide
  have hsite : longCall.site.length = 278 := length_longSite
  rw [logPrintFile_inside_iff sampleLogEnv longCall hlevel, logPrintConsole_inside_iff sampleLogEnv longCall hlevel,
    hsite]
  omega

end Mqrestt
