import Mqrestt.BackendsSound
import Mqrestt.ServerSound

/-!
# What is seen of the memory behind a chunk

`upload_data` is not terminated. The copy into the body is bounded by the size of the chunk, but
two log lines take the pointer for a string, and show what follows the chunk as far as a line has
room for it.
-/

namespace Mqrestt
open CSem Mqtt

/-! ## The outputs of a call -/

structure Logger where
  target : LogTarget
  loglevel : Nat
  -- where the macro with this format stands
  site : LogMsgType → String → LogSite
  mosqStrerror : MosqErr → List Byte
  curlStrerror : CurlCode → List Byte

def Logger.arg (lg : Logger) (env : LogEnv) : LogArg → VaArg
  | .str s => .str s
  | .num n => .num n
  | .mosqStrerror rc => .str (some (lg.mosqStrerror rc))
  | .curlStrerror res => .str (some (lg.curlStrerror res))
  | .errnoText => .str (some env.strerror)

def Logger.call (lg : Logger) (env : LogEnv) (type : LogMsgType) (format : String) (args : List LogArg) : LogCall :=
  ⟨type, lg.site type format, bytes format, args.map (lg.arg env)⟩

def LogEffect.isOutput : LogEffect → Bool
  | .write _ => false
  | .vsnprintf _ _ => false
  | _ => true

inductive Output (ι : Type) where
  | log (e : LogEffect)
  | effect (i : ι) (e : Effect)

section
variable {ι : Type} (lg : Logger)

def Logger.lines (env : LogEnv) (type : LogMsgType) (format : String) (args : List LogArg) : List LogEffect :=
  (logPrint lg.target lg.loglevel env (lg.call env type format args)).out.filter LogEffect.isOutput

/-- What leaves the process: the lines of the active back-end, and every effect but an access to memory. -/
def outputs (env : LogEnv) (i : ι) : Effect → List (Output ι)
  | .log type format args => (lg.lines env type format args).map .log
  | .read _ _ _ => []
  | .write _ _ _ => []
  | e => [.effect i e]

def observe (i : ι) : (Nat → LogEnv) → List Effect → List (Output ι)
  | _, [] => []
  | env, e :: es => outputs lg (env 0) i e ++ observe i (fun n => env (n + 1)) es

/-- A call of the handler, and what the log functions find at each of its effects. -/
structure ObservedCall where
  call : Call
  env : Nat → LogEnv

variable [DecidableEq ι] (w : LongWidth) (cls : MqttClientHandle) (req : ι → Request)

def serveObserved (s : Server ι) (e : ι × ObservedCall) : Proc (Output ι) Halt (Server ι) :=
  let p := serve w cls req s (e.1, e.2.call)
  ⟨observe lg e.1 e.2.env (p.out.map Prod.snd), p.res⟩

def serveAllObserved (s : Server ι) (es : List (ι × ObservedCall)) : Proc (Output ι) Halt (Server ι) :=
  es.foldlM (serveObserved lg w cls req) s

end

/-! ## Calls that agree on their chunks -/

/-- The same call, but for the memory behind the chunk. -/
structure SameChunk (c d : Call) : Prop where
  chunk : d.upload.map Upload.chunk = c.upload.map Upload.chunk
  env : d.env = c.env

theorem SameChunk.refl (c : Call) : SameChunk c c := ⟨rfl, rfl⟩

theorem SameChunk.chunk_eq {c d : Call} (h : SameChunk c d) : d.chunk = c.chunk := by
  unfold Call.chunk
  rw [h.chunk]

theorem SameChunk.size_eq {c d : Call} (h : SameChunk c d) : d.uploadDataSize = c.uploadDataSize :=
  congrArg List.length h.chunk_eq

def dataFormat : Option Addr → String
  | none => "GOT POST connect, data: %s %zd"
  | some _ => "GOT POST continuation, size %zd,  data: %s"

def dataArgs (c : Call) : Option Addr → List LogArg
  | none => [.str (c.uploadData.map cstr), .num c.uploadDataSize]
  | some _ => [.num c.uploadDataSize, .str (c.uploadData.map cstr)]

def dataLine (conCls : Option Addr) (c : Call) : Effect := .log .info (dataFormat conCls) (dataArgs c conCls)

section
variable {c d : Call} (h : SameChunk c d) (st : Store)
include h

theorem firstCall_sameChunk (w : LongWidth) : ∃ out res, firstCall w c st = ⟨dataLine none c :: out, res⟩ ∧
    firstCall w d st = ⟨dataLine none d :: out, res⟩ := by
  unfold firstCall info dataLine dataFormat dataArgs
  simp only [Proc.emit_bind, h.size_eq, h.env]
  exact ⟨_, _, rfl, rfl⟩

theorem continuation_sameChunk (p : Addr) : ∃ out res, continuation c st p = ⟨dataLine (some p) c :: out, res⟩ ∧
    continuation d st p = ⟨dataLine (some p) d :: out, res⟩ := by
  have hcopy : ∀ (e : Call) (b : Block) (n : Nat), chunkStores b n (e.uploadData.getD []) e.uploadDataSize =
      ((n : Int), 0) :: storesAt n (cstr e.chunk ++ [0]) := by
    intro e b n
    rw [chunkStores_eq, Call.uploadDataSize, uploadData_take]
  unfold continuation info dataLine dataFormat dataArgs
  simp only [Proc.emit_bind, hcopy]
  simp only [h.chunk_eq, h.size_eq, h.env]
  exact ⟨_, _, rfl, rfl⟩

theorem finalCall_sameChunk (w : LongWidth) (cls : MqttClientHandle) (r : Request) (p : Addr) :
    finalCall w cls r d st p = finalCall w cls r c st p := by
  unfold finalCall
  rw [h.size_eq, h.env]

end

/-- A call that logs its data. -/
def LogsData (r : Request) (conCls : Option Addr) (c : Call) : Prop :=
  r.method = postMethod ∧ (conCls = none ∨ c.chunk ≠ [])

section
variable (w : LongWidth) (cls : MqttClientHandle) {r : Request} (st : Store) {conCls : Option Addr} {c d : Call}
  (h : SameChunk c d)
include h

theorem answer_of_logsData (hlogs : LogsData r conCls c) : ∃ out res,
    answerToConnection w cls r c st conCls = ⟨connectLine r :: dataLine conCls c :: out, res⟩ ∧
      answerToConnection w cls r d st conCls = ⟨connectLine r :: dataLine conCls d :: out, res⟩ := by
  obtain ⟨hm, hcall⟩ := hlogs
  rw [answer_post w cls hm, answer_post w cls hm]
  cases conCls with
  | none =>
    obtain ⟨out, res, hc, hd⟩ := firstCall_sameChunk h st w
    exact ⟨out, res, by rw [answerPost_first, hc], by rw [answerPost_first, hd]⟩
  | some p =>
    have hne : c.chunk ≠ [] := hcall.resolve_left (Option.some_ne_none p)
    obtain ⟨out, res, hc, hd⟩ := continuation_sameChunk h st p
    refine ⟨out, res, ?_, ?_⟩
    · rw [answerPost_chunk w cls r hne, hc]
    · rw [answerPost_chunk w cls r (h.chunk_eq ▸ hne), hd]

theorem answer_of_not_logsData (hlogs : ¬ LogsData r conCls c) :
    answerToConnection w cls r d st conCls = answerToConnection w cls r c st conCls := by
  by_cases hm : r.method = postMethod
  · rw [answer_post w cls hm, answer_post w cls hm]
    cases conCls with
    | none => exact absurd ⟨hm, Or.inl rfl⟩ hlogs
    | some p =>
      have hnil : c.chunk = [] := by
        by_contra hne
        exact hlogs ⟨hm, Or.inr hne⟩
      rw [answerPost_last w cls r hnil, answerPost_last w cls r (h.chunk_eq.trans hnil),
        finalCall_sameChunk h st w cls r p]
  · rw [answer_other w cls hm, answer_other w cls hm, h.size_eq]

theorem answer_res_sameChunk :
    (answerToConnection w cls r d st conCls).res = (answerToConnection w cls r c st conCls).res := by
  by_cases hlogs : LogsData r conCls c
  · obtain ⟨out, res, hc, hd⟩ := answer_of_logsData w cls st h hlogs
    rw [hc, hd]
  · rw [answer_of_not_logsData w cls st h hlogs]

end

/-! ## What a line shows -/

theorem LogLine.filter_emit (l : LogLine) : l.emit.out.filter LogEffect.isOutput = [] := by
  refine List.filter_eq_nil_iff.mpr fun e he => ?_
  rcases l.mem_emit he with ⟨_, rfl⟩ | ⟨_, _, rfl⟩ <;> exact Bool.false_ne_true

section
variable (lg : Logger) (env : LogEnv) (type : LogMsgType) (format : String)

def Logger.message (args : List LogArg) : List Byte := sprintf env.libc (bytes format) (args.map (lg.arg env))

/-- How many bytes of a message the active back-end has room for. -/
def Logger.shown : Nat :=
  if type.level ≤ lg.loglevel then
    match lg.target with
    | .console => room (lineHead env (msgHeadConsole type) (lg.site type format))
    | .file => if env.writable then room (lineHead env (msgHead type) (lg.site type format)) else 0
    | .syslog => 0
  else 0

variable {type format}

theorem lines_dropped (h : lg.loglevel < type.level) (args : List LogArg) : lg.lines env type format args = [] := by
  rw [Logger.lines, logPrint_dropped env (lg.call env type format args) lg.target h]
  rfl

section
variable (hlevel : type.level ≤ lg.loglevel) (args : List LogArg)
include hlevel

theorem lines_console (ht : lg.target = .console) : lg.lines env type format args =
    [.stdout ((logLine env.libc.width (lineHead env (msgHeadConsole type) (lg.site type format))
      (lg.message env format args)).text env.stack)] := by
  rw [Logger.lines, ht, logPrint, logPrintConsole_eq env (lg.call env type format args) hlevel, List.filter_append,
    LogLine.filter_emit]
  rfl

theorem lines_file (ht : lg.target = .file) : lg.lines env type format args =
    [if env.writable then .logfile ((logLine env.libc.width (lineHead env (msgHead type) (lg.site type format))
      (lg.message env format args)).text env.stack)
    else .stderr "Write to logfile failed: %s\n" [.str (some env.strerror)]] := by
  rw [Logger.lines, ht, logPrint, logPrintFile_eq env (lg.call env type format args) hlevel, List.filter_append,
    LogLine.filter_emit]
  cases env.writable <;> rfl

theorem lines_syslog (ht : lg.target = .syslog) : lg.lines env type format args =
    [.syslog (syslogPriority type) (sprintf env.libc (bytes format) env.junk)] := by
  rw [Logger.lines, ht, logPrint, logPrintSyslog_eq env (lg.call env type format args) hlevel]
  rfl

end

theorem lines_congr {args args' : List LogArg} (h : (lg.message env format args).take (lg.shown env type format) =
    (lg.message env format args').take (lg.shown env type format)) :
    lg.lines env type format args = lg.lines env type format args' := by
  by_cases hlevel : type.level ≤ lg.loglevel
  · rw [Logger.shown, if_pos hlevel] at h
    cases ht : lg.target with
    | console =>
      rw [ht] at h
      rw [lines_console lg env hlevel args ht, lines_console lg env hlevel args' ht, logLine_text_congr _ _ h]
    | file =>
      rw [ht] at h
      rw [lines_file lg env hlevel args ht, lines_file lg env hlevel args' ht]
      by_cases hw : env.writable = true
      · rw [if_pos hw] at h
        rw [if_pos hw, if_pos hw, logLine_text_congr _ _ h]
      · rw [if_neg hw, if_neg hw]
    | syslog => rw [lines_syslog lg env hlevel args ht, lines_syslog lg env hlevel args' ht]
  · rw [lines_dropped lg env (not_le.mp hlevel), lines_dropped lg env (not_le.mp hlevel)]

theorem take_of_lines {args args' : List LogArg} {p x y : List Byte} (hm : lg.message env format args = p ++ x)
    (hm' : lg.message env format args' = p ++ y) (hp : p ≠ []) (hx : 0 ∉ p ++ x) (hy : 0 ∉ p ++ y)
    (h : lg.lines env type format args = lg.lines env type format args') :
    (p ++ x).take (lg.shown env type format) = (p ++ y).take (lg.shown env type format) := by
  by_cases hlevel : type.level ≤ lg.loglevel
  · rw [Logger.shown, if_pos hlevel]
    cases ht : lg.target with
    | console =>
      rw [lines_console lg env hlevel args ht, lines_console lg env hlevel args' ht, hm, hm'] at h
      have hhead := noNul_lineHead env (noNul_msgHeadConsole type) (lg.site type format)
      exact take_of_logLine_text _ _ hhead hp hx hy (LogEffect.stdout.inj (List.head_eq_of_cons_eq h))
    | file =>
      rw [lines_file lg env hlevel args ht, lines_file lg env hlevel args' ht, hm, hm'] at h
      by_cases hw : env.writable = true
      · rw [if_pos hw, if_pos hw] at h
        have hhead := noNul_lineHead env (noNul_msgHead type) (lg.site type format)
        rw [if_pos hw]
        exact take_of_logLine_text _ _ hhead hp hx hy (LogEffect.logfile.inj (List.head_eq_of_cons_eq h))
      · rw [if_neg hw]
        rfl
    | syslog => rfl
  · rw [Logger.shown, if_neg hlevel]
    rfl

end

/-! ## The lines with the data -/

section
variable (w : LongWidth) (c : Call) (conCls : Option Addr)

def sizeText : List Byte := intText (signedValue w (bytes "z") c.uploadDataSize)

/-- What stands before the data. -/
def beforeData : List Byte :=
  match conCls with
  | none => bytes "GOT POST connect, data: "
  | some _ => bytes "GOT POST continuation, size " ++ sizeText w c ++ bytes ",  data: "

def afterData : List Byte :=
  match conCls with
  | none => bytes " " ++ sizeText w c
  | some _ => []

theorem noNul_beforeData : 0 ∉ beforeData w c conCls := by
  have hsize : 0 ∉ sizeText w c := noNul_intText _
  cases conCls with
  | none => exact (by decide : 0 ∉ bytes "GOT POST connect, data: ")
  | some p => simp [beforeData, bytes, hsize]

theorem noNul_afterData : 0 ∉ afterData w c conCls := by
  have hsize : 0 ∉ sizeText w c := noNul_intText _
  cases conCls <;> simp [afterData, bytes, hsize]

theorem beforeData_ne_nil : beforeData w c conCls ≠ [] := by
  cases conCls <;> exact List.cons_ne_nil _ _

theorem afterData_head : (afterData w c conCls).head? ≠ some 65 := by
  cases conCls <;> simp [afterData, bytes]

end

theorem message_data (lg : Logger) (env : LogEnv) (c : Call) (conCls : Option Addr) {data : List Byte}
    (hdata : c.uploadData = some data) : lg.message env (dataFormat conCls) (dataArgs c conCls) =
      beforeData env.libc.width c conCls ++ (cstr data ++ afterData env.libc.width c conCls) := by
  cases conCls with
  | none =>
    have hp : pieces (bytes "GOT POST connect, data: %s %zd") = (bytes "GOT POST connect, data: ").map .lit ++
        [.conv (plainConversion 115), .lit 32, .conv ⟨[], none, none, bytes "z", 100⟩] := by decide
    rw [Logger.message, sprintf, dataFormat, hp, render_lits]
    simp [dataArgs, hdata, Logger.arg, render_signed, beforeData, afterData, sizeText, bytes]
  | some p =>
    have hp : pieces (bytes "GOT POST continuation, size %zd,  data: %s") =
        (bytes "GOT POST continuation, size ").map .lit ++ .conv ⟨[], none, none, bytes "z", 100⟩ ::
          ((bytes ",  data: ").map .lit ++ [.conv (plainConversion 115)]) := by decide
    rw [Logger.message, sprintf, dataFormat, hp, render_lits]
    simp [dataArgs, hdata, Logger.arg, render_signed, render_lits, beforeData, afterData, sizeText]

/-- The line with the data of a call shows nothing of what lies behind the chunk: there is no pointer, the string
ends inside the chunk, or the line has no room for more than the chunk. -/
def Unseen (lg : Logger) (env : LogEnv) (conCls : Option Addr) (c : Call) : Prop :=
  c.upload = none ∨ 0 ∈ c.chunk ∨
    lg.shown env .info (dataFormat conCls) ≤ (beforeData env.libc.width c conCls).length + c.chunk.length

def Call.withBeyond (c : Call) (beyond : List Byte) : Call :=
  { c with upload := c.upload.map fun u => { u with beyond } }

theorem sameChunk_withBeyond (c : Call) (beyond : List Byte) : SameChunk c (c.withBeyond beyond) := by
  refine ⟨?_, rfl⟩
  unfold Call.withBeyond
  cases c.upload <;> rfl

section
variable (lg : Logger) (env : LogEnv) {conCls : Option Addr} {c d : Call}

/-- The message of a call whose chunk has no NUL. -/
theorem message_sameChunk (h : SameChunk c d) {v : Upload} (hd : d.upload = some v) (h0 : 0 ∉ c.chunk) :
    lg.message env (dataFormat conCls) (dataArgs d conCls) =
      beforeData env.libc.width c conCls ++ c.chunk ++ (cstr v.beyond ++ afterData env.libc.width c conCls) := by
  have hbefore : beforeData env.libc.width d conCls = beforeData env.libc.width c conCls := by
    cases conCls <;> simp only [beforeData, sizeText, h.size_eq]
  have hafter : afterData env.libc.width d conCls = afterData env.libc.width c conCls := by
    cases conCls <;> simp only [afterData, sizeText, h.size_eq]
  have hdata : d.uploadData = some (c.chunk ++ v.beyond) := by
    rw [← h.chunk_eq]
    simp [Call.uploadData, Call.chunk, hd]
  rw [message_data lg env d conCls hdata, cstr_append_of_noNul h0, hbefore, hafter]
  simp only [List.append_assoc]

theorem dataArgs_sameChunk (h : SameChunk c d) (hend : c.upload = none ∨ 0 ∈ c.chunk) :
    dataArgs d conCls = dataArgs c conCls := by
  have hdata : d.uploadData.map cstr = c.uploadData.map cstr := by
    have hchunk := h.chunk
    unfold Call.uploadData
    cases hc : c.upload with
    | none =>
      rw [hc] at hchunk
      rw [Option.map_eq_none_iff.mp hchunk]
    | some u =>
      rw [hc] at hchunk
      obtain ⟨v, hd, huv⟩ := Option.map_eq_some_iff.mp hchunk
      have h0 : 0 ∈ u.chunk := by simpa [hc, Call.chunk] using hend
      rw [hd, Option.map_some, Option.map_some, Option.map_some, Option.map_some, huv, cstr_append_of_nul h0,
        cstr_append_of_nul h0]
  cases conCls <;> simp only [dataArgs, hdata, h.size_eq]

theorem lines_of_unseen (h : SameChunk c d) (hunseen : Unseen lg env conCls c) :
    lg.lines env .info (dataFormat conCls) (dataArgs d conCls) =
      lg.lines env .info (dataFormat conCls) (dataArgs c conCls) := by
  by_cases hend : c.upload = none ∨ 0 ∈ c.chunk
  · rw [dataArgs_sameChunk h hend]
  · obtain ⟨hsome, h0⟩ := not_or.mp hend
    obtain ⟨u, hu⟩ := Option.ne_none_iff_exists'.mp hsome
    obtain ⟨v, hv, -⟩ : ∃ v, d.upload = some v ∧ v.chunk = u.chunk := by
      simpa [hu, Option.map_eq_some_iff] using h.chunk
    have hroom : lg.shown env .info (dataFormat conCls) ≤
        (beforeData env.libc.width c conCls ++ c.chunk).length := by
      rw [List.length_append]
      exact (hunseen.resolve_left hsome).resolve_left h0
    apply lines_congr
    rw [message_sameChunk lg env h hv h0, message_sameChunk lg env (.refl c) hu h0,
      List.take_append_of_le_length hroom, List.take_append_of_le_length hroom]

/-- The chunk with a NUL behind it, and with one more byte. -/
theorem lines_withBeyond_ne (hsome : c.upload ≠ none) (h0 : 0 ∉ c.chunk)
    (hroom : (beforeData env.libc.width c conCls).length + c.chunk.length < lg.shown env .info (dataFormat conCls)) :
    lg.lines env .info (dataFormat conCls) (dataArgs (c.withBeyond [0]) conCls) ≠
      lg.lines env .info (dataFormat conCls) (dataArgs (c.withBeyond [65, 0]) conCls) := by
  intro h
  obtain ⟨u, hu⟩ := Option.ne_none_iff_exists'.mp hsome
  have hmessage : ∀ beyond, lg.message env (dataFormat conCls) (dataArgs (c.withBeyond beyond) conCls) =
      beforeData env.libc.width c conCls ++ c.chunk ++ (cstr beyond ++ afterData env.libc.width c conCls) := by
    intro beyond
    have hd : (c.withBeyond beyond).upload = some { u with beyond } := by simp [Call.withBeyond, hu]
    exact message_sameChunk lg env (sameChunk_withBeyond c beyond) hd h0
  have hnul : ∀ x : List Byte, 0 ∉ x → 0 ∉ beforeData env.libc.width c conCls ++ c.chunk ++
      (x ++ afterData env.libc.width c conCls) := by
    intro x hx
    simp [hx, h0, noNul_beforeData, noNul_afterData]
  have htake := take_of_lines lg env (hmessage [0]) (hmessage [65, 0])
    (List.append_ne_nil_of_left_ne_nil (beforeData_ne_nil _ _ _) _) (hnul [] List.not_mem_nil) (hnul [65] (by decide)) h
  have hnext := congrArg (fun l => l[(beforeData env.libc.width c conCls ++ c.chunk).length]?) htake
  rw [← List.length_append] at hroom
  simp only [List.getElem?_take_of_lt hroom, List.getElem?_append_right le_rfl, Nat.sub_self] at hnext
  exact afterData_head env.libc.width c conCls (List.head?_eq_getElem?.trans hnext)

theorem unseen_of_lines (h : ∀ d, SameChunk c d → lg.lines env .info (dataFormat conCls) (dataArgs d conCls) =
    lg.lines env .info (dataFormat conCls) (dataArgs c conCls)) : Unseen lg env conCls c := by
  by_contra hseen
  simp only [Unseen, not_or, not_le] at hseen
  obtain ⟨hsome, h0, hroom⟩ := hseen
  apply lines_withBeyond_ne lg env hsome h0 hroom
  exact (h _ (sameChunk_withBeyond c [0])).trans (h _ (sameChunk_withBeyond c [65, 0])).symm

end

/-! ## Two runs -/

section
variable {ι : Type}

/-- One event of two runs over the same callback sequence. -/
structure SameEvent (e e' : ι × ObservedCall) : Prop where
  request : e'.1 = e.1
  env : e'.2.env = e.2.env
  call : SameChunk e.2.call e'.2.call

theorem SameEvent.refl (e : ι × ObservedCall) : SameEvent e e := ⟨rfl, rfl, .refl _⟩

variable [DecidableEq ι] (lg : Logger) (w : LongWidth) (cls : MqttClientHandle) (req : ι → Request)

theorem serveObserved_out (s : Server ι) (e : ι × ObservedCall) : (serveObserved lg w cls req s e).out =
    observe lg e.1 e.2.env (answerToConnection w cls (req e.1) e.2.call s.store (s.conCls e.1)).out := by
  have hout : (serve w cls req s (e.1, e.2.call)).out.map Prod.snd =
      (answerToConnection w cls (req e.1) e.2.call s.store (s.conCls e.1)).out := by
    cases hres : (answerToConnection w cls (req e.1) e.2.call s.store (s.conCls e.1)).res with
    | ok a => simp [serve_of_ok cls hres, Function.comp_def]
    | error h => simp [serve_of_error cls hres, Function.comp_def]
  rw [serveObserved, hout]

theorem serveObserved_res {s : Server ι} {e e' : ι × ObservedCall} (h : SameEvent e e') :
    (serveObserved lg w cls req s e').res = (serveObserved lg w cls req s e).res := by
  have hanswer := @answer_res_sameChunk w cls (req e.1) s.store (s.conCls e.1) _ _ h.call
  show (serve w cls req s (e'.1, e'.2.call)).res = (serve w cls req s (e.1, e.2.call)).res
  rw [h.request]
  cases hres : (answerToConnection w cls (req e.1) e.2.call s.store (s.conCls e.1)).res with
  | ok a => rw [serve_of_ok cls hres, serve_of_ok cls (hanswer.trans hres)]
  | error x => rw [serve_of_error cls hres, serve_of_error cls (hanswer.trans hres)]

/-- The line with the data is the second effect of a call, and all that two runs can tell apart. -/
theorem out_eq_iff_lines {s : Server ι} {i : ι} {c d : Call} (hlogs : LogsData (req i) (s.conCls i) c)
    (h : SameChunk c d) (env : Nat → LogEnv) :
    (serveObserved lg w cls req s (i, ⟨d, env⟩)).out = (serveObserved lg w cls req s (i, ⟨c, env⟩)).out ↔
      lg.lines (env 1) .info (dataFormat (s.conCls i)) (dataArgs d (s.conCls i)) =
        lg.lines (env 1) .info (dataFormat (s.conCls i)) (dataArgs c (s.conCls i)) := by
  obtain ⟨out, res, hc, hd⟩ := answer_of_logsData w cls s.store h hlogs
  rw [serveObserved_out, serveObserved_out, hc, hd]
  simp only [observe, dataLine, outputs, List.append_cancel_left_eq, List.append_cancel_right_eq]
  exact List.map_inj_right fun _ _ => Output.log.inj

theorem serveObserved_out_iff (s : Server ι) (e : ι × ObservedCall) :
    (∀ e', SameEvent e e' → (serveObserved lg w cls req s e').out = (serveObserved lg w cls req s e).out) ↔
      (LogsData (req e.1) (s.conCls e.1) e.2.call → Unseen lg (e.2.env 1) (s.conCls e.1) e.2.call) := by
  by_cases hlogs : LogsData (req e.1) (s.conCls e.1) e.2.call
  · constructor
    · intro h _
      apply unseen_of_lines
      intro d hd
      exact (out_eq_iff_lines lg w cls req hlogs hd e.2.env).mp (h _ ⟨rfl, rfl, hd⟩)
    · rintro hunseen ⟨i, d, env⟩ ⟨rfl, rfl, hd⟩
      exact (out_eq_iff_lines lg w cls req hlogs hd _).mpr (lines_of_unseen lg _ hd (hunseen hlogs))
  · refine iff_of_true ?_ fun h => absurd h hlogs
    rintro ⟨i, d, env⟩ ⟨rfl, rfl, hd⟩
    rw [serveObserved_out, serveObserved_out, answer_of_not_logsData w cls s.store hd hlogs]

/-- **Nothing behind the chunks is observed exactly when** every call that logs its data finds no data, a NUL in
the chunk, or a line without room for more than the chunk. -/
theorem chunks_observed_iff (s : Server ι) (es : List (ι × ObservedCall)) :
    (∀ es', List.Forall₂ SameEvent es es' →
        (serveAllObserved lg w cls req s es').out = (serveAllObserved lg w cls req s es).out) ↔
      Proc.Along (serveObserved lg w cls req) (fun s e => LogsData (req e.1) (s.conCls e.1) e.2.call →
        Unseen lg (e.2.env 1) (s.conCls e.1) e.2.call) s es := by
  have hruns := Proc.foldlM_out_eq_iff (serveObserved lg w cls req) SameEvent.refl
    (fun s e e' h => serveObserved_res lg w cls req h) s es
  unfold serveAllObserved
  rw [hruns]
  constructor
  · apply Proc.Along.imp
    intro s e
    exact (serveObserved_out_iff lg w cls req s e).mp
  · apply Proc.Along.imp
    intro s e
    exact (serveObserved_out_iff lg w cls req s e).mpr

end

def answerSite : LogSite := ⟨⟨bytes "rest2mqtt_unit.c", by decide⟩, 105, answerFunction⟩

def sampleLogger : Logger where
  target := .console
  loglevel := 3
  site _ _ := answerSite
  mosqStrerror _ := []
  curlStrerror _ := []

def sampleChunk : Call := plainCall (bytes "abc") 2

/-- The first two calls of a request with the body `abc`. -/
def twoCalls (beyond : List Byte) : List (Unit × ObservedCall) :=
  [((), ⟨plainCall [] 1, fun _ => sampleLogEnv⟩), ((), ⟨sampleChunk.withBeyond beyond, fun _ => sampleLogEnv⟩)]

theorem lines_sampleChunk_ne (p : Addr) :
    sampleLogger.lines sampleLogEnv .info (dataFormat (some p)) (dataArgs (sampleChunk.withBeyond [0]) (some p)) ≠
      sampleLogger.lines sampleLogEnv .info (dataFormat (some p))
        (dataArgs (sampleChunk.withBeyond [65, 0]) (some p)) := by
  have hroom : sampleLogger.shown sampleLogEnv .info (dataFormat (some p)) = 176 := by
    have hhead : (lineHead sampleLogEnv (msgHeadConsole .info) answerSite).length = 78 := by
      rw [length_lineHead]
      decide
    have hshown : sampleLogger.shown sampleLogEnv .info (dataFormat (some p)) =
        room (lineHead sampleLogEnv (msgHeadConsole .info) answerSite) := if_pos (by decide)
    rw [hshown, room, hhead]
    rfl
  have hbefore : (beforeData sampleLogEnv.libc.width sampleChunk (some p)).length = 38 := rfl
  apply lines_withBeyond_ne
  · exact Option.some_ne_none _
  · decide
  · rw [hroom, hbefore]
    decide

theorem not_sameOutputs_twoCalls : List.Forall₂ SameEvent (twoCalls [0]) (twoCalls [65, 0]) ∧
    (serveAllObserved sampleLogger .long64 sampleHandle (fun _ => sampleRequest qosOne) (freshServer ⟨∅, ∅⟩)
        (twoCalls [0])).out ≠
      (serveAllObserved sampleLogger .long64 sampleHandle (fun _ => sampleRequest qosOne) (freshServer ⟨∅, ∅⟩)
        (twoCalls [65, 0])).out := by
  have hsame : SameChunk (sampleChunk.withBeyond [65, 0]) (sampleChunk.withBeyond [0]) := ⟨rfl, rfl⟩
  refine ⟨.cons (.refl _) (.cons ⟨rfl, rfl, rfl, rfl⟩ .nil), fun h => ?_⟩
  obtain ⟨s, p, hs, hp⟩ : ∃ s p, (serveObserved sampleLogger .long64 sampleHandle (fun _ => sampleRequest qosOne)
      (freshServer ⟨∅, ∅⟩) ((), ⟨plainCall [] 1, fun _ => sampleLogEnv⟩)).res = .ok s ∧ s.conCls () = some p :=
    ⟨_, _, rfl, rfl⟩
  unfold serveAllObserved twoCalls at h
  rw [List.foldlM_cons, List.foldlM_cons, Proc.bind_of_ok hs, Proc.bind_of_ok hs] at h
  have hout := List.append_cancel_left h
  rw [List.foldlM_cons, List.foldlM_cons] at hout
  simp only [List.foldlM_nil, bind_pure] at hout
  have hlogs : LogsData (sampleRequest qosOne) (s.conCls ()) (sampleChunk.withBeyond [65, 0]) := ⟨rfl, Or.inr (by decide)⟩
  rw [out_eq_iff_lines sampleLogger .long64 sampleHandle _ hlogs hsame, hp] at hout
  exact lines_sampleChunk_ne p hout

end Mqrestt
