import Mqrestt.Effect
import Mqrestt.Lib.Format

/-!
# `logging.c`

The macros end in `log_print`, which is one of three functions: `log_print_file` and
`log_print_console` put a line together in a buffer, `log_print_syslog` hands the format on.
What the C library, the clock and the system answer is a parameter of each call, and so is what
the stack holds where the buffer is.
-/

namespace Mqrestt
open CSem

def LogMsgType.level : LogMsgType → Nat
  | .fatal => 0
  | .error => 1
  | .warning => 2
  | .info => 3
  | .debug => 4

def logLookupLoglevel (name : CStr) : Run Nat :=
  if name.bytes = bytes "fatal" then return 0
  else if name.bytes = bytes "error" then return 1
  else if name.bytes = bytes "warning" then return 2
  else if name.bytes = bytes "info" then return 3
  else if name.bytes = bytes "debug" then return 4
  else do
    Proc.emit (.stderr "Loglevel not found %s\n:" [.str (some name.bytes)])
    return 0

/-! ## What a call is given -/

/-- `localtime` and the microseconds of `gettimeofday`. -/
structure TimeOfDay where
  hour : Nat
  minute : Nat
  second : Nat
  usec : Nat
  hour_lt : hour < 24
  minute_lt : minute < 60
  second_le : second ≤ 60
  usec_lt : usec < 1000000

/-- `__FILE__`, `__LINE__` and `__PRETTY_FUNCTION__` -/
structure LogSite where
  file : CStr
  line : Int
  function : CStr

structure LogCall where
  type : LogMsgType
  site : LogSite
  format : List Byte
  args : List VaArg

structure LogEnv where
  libc : Libc
  time : TimeOfDay
  stack : Mem
  -- there is a log file, and `ftell` knows where it is
  writable : Bool
  strerror : List Byte
  -- what `syslog` takes for its arguments: the `va_list`, and whatever follows it
  junk : List VaArg

inductive SyslogPriority where
  | emerg
  | crit
  | warning
  | info
  | debug
  deriving DecidableEq, Repr

/-- The stores into the buffer, the size given to `vsnprintf`, and what is written outside. The newline
after a line is left out. -/
inductive LogEffect where
  | write (index : Int)
  | vsnprintf (offset : Int) (size : Nat)
  | stdout (line : List Byte)
  | logfile (line : List Byte)
  | syslog (priority : SyslogPriority) (text : List Byte)
  | stderr (format : String) (args : List VaArg)
  deriving DecidableEq, Repr

abbrev LogRun := Proc LogEffect Halt

/-! ## The head of a line -/

def twoDigits (n : Nat) : List Byte := [(48 + n / 10).toUInt8, (48 + n % 10).toUInt8]

-- `%H:%M:%S`
def strftime (t : TimeOfDay) : List Byte := twoDigits t.hour ++ 58 :: twoDigits t.minute ++ 58 :: twoDigits t.second

/-- There are never 1000 milliseconds, so the second is not counted up. -/
def printTime (libc : Libc) (t : TimeOfDay) : List Byte :=
  sprintf libc (bytes "%s.%03d") [.str (some (strftime t)), .num (t.usec / 1000 : Nat)]

def msgHead : LogMsgType → List Byte
  | .fatal => bytes "FTL"
  | .error => bytes "ERR"
  | .warning => bytes "WRN"
  | .info => bytes "NFO"
  | .debug => bytes "DBG"

def termColor : LogMsgType → List Byte
  | .fatal => bytes "\x1b[1;31m"
  | .error => bytes "\x1b[1;31m"
  | .warning => bytes "\x1b[36m"
  | .info => bytes "\x1b[1;32m"
  | .debug => bytes "\x1b[1m"

def termNormal : List Byte := bytes "\x1b[0;39m"

def msgHeadConsole (type : LogMsgType) : List Byte := termColor type ++ msgHead type ++ termNormal

def lineHead (env : LogEnv) (head : List Byte) (site : LogSite) : List Byte :=
  sprintf env.libc (bytes "[%s][%s] (%s:%d,%s) ")
    [.str (some head), .str (some (printTime env.libc env.time)), .str (some site.file.bytes), .num site.line,
      .str (some site.function.bytes)]

/-! ## The buffer -/

def logMsgMaxLength : Nat := 256

structure LogLine where
  head : Stores
  -- what `snprintf` returned
  offset : Int
  -- what the rest of the buffer comes to as a `size_t`
  size : Nat
  message : Stores

/-- `buffer + i` and `LOG_MSG_MAX_LENGTH - i - 1`, whatever `i` is. -/
def logLine (w : LongWidth) (head message : List Byte) : LogLine :=
  let i := snprintfResult head
  let size := (((logMsgMaxLength : Int) - i - 1) % 2 ^ w.bits).toNat
  { head := snprintf 0 logMsgMaxLength head
    offset := i
    size := size
    message := snprintf i size message }

def LogLine.stores (l : LogLine) : Stores := l.head ++ l.message

def LogLine.buffer (l : LogLine) (stack : Mem) : Mem := applyStores stack l.stores

/-- The string at the start of the buffer. -/
def LogLine.text (l : LogLine) (stack : Mem) : List Byte := scan (l.buffer stack) logMsgMaxLength 0

def LogLine.emit (l : LogLine) : LogRun Unit := do
  Proc.emits (l.head.map fun s => .write s.1)
  Proc.emit (.vsnprintf l.offset l.size)
  Proc.emits (l.message.map fun s => .write s.1)

def messageText (env : LogEnv) (c : LogCall) : List Byte := sprintf env.libc c.format c.args

def fileLine (env : LogEnv) (c : LogCall) : LogLine :=
  logLine env.libc.width (lineHead env (msgHead c.type) c.site) (messageText env c)

def consoleLine (env : LogEnv) (c : LogCall) : LogLine :=
  logLine env.libc.width (lineHead env (msgHeadConsole c.type) c.site) (messageText env c)

/-! ## The back-ends -/

def exitIfFatal (type : LogMsgType) : LogRun Unit := if type = .fatal then Proc.halt (.exit 1) else pure ()

def logPrintFile (loglevel : Nat) (env : LogEnv) (c : LogCall) : LogRun Unit := do
  if c.type.level ≤ loglevel then
    let line := fileLine env c
    line.emit
    if env.writable then Proc.emit (.logfile (line.text env.stack))
    else Proc.emit (.stderr "Write to logfile failed: %s\n" [.str (some env.strerror)])
    exitIfFatal c.type

def logPrintConsole (loglevel : Nat) (env : LogEnv) (c : LogCall) : LogRun Unit := do
  if c.type.level ≤ loglevel then
    let line := consoleLine env c
    line.emit
    Proc.emit (.stdout (line.text env.stack))
  exitIfFatal c.type

def syslogPriority : LogMsgType → SyslogPriority
  | .fatal => .emerg
  | .error => .crit
  | .warning => .warning
  | .info => .info
  | .debug => .debug

/-- `syslog(priority, formatstring, args)` takes the `va_list` itself for the first argument. -/
def logPrintSyslog (loglevel : Nat) (env : LogEnv) (c : LogCall) : LogRun Unit := do
  if c.type.level ≤ loglevel then
    Proc.emit (.syslog (syslogPriority c.type) (sprintf env.libc c.format env.junk))
  exitIfFatal c.type

inductive LogTarget where
  | console
  | file
  | syslog
  deriving DecidableEq, Repr

/-- The function that `log_init` has chosen. -/
def logPrint (target : LogTarget) (loglevel : Nat) (env : LogEnv) (c : LogCall) : LogRun Unit :=
  match target with
  | .console => logPrintConsole loglevel env c
  | .file => logPrintFile loglevel env c
  | .syslog => logPrintSyslog loglevel env c

end Mqrestt
