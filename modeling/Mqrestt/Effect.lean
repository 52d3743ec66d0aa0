import Mqrestt.Lib.Proc
import Mqrestt.Lib.Strtol

/-!
# What the program does to the outside

The calls into libmosquitto, libmicrohttpd, libcurl and the system, the log lines,
and the accesses to the buffers that the code indexes itself. A call that can fail
carries what the library answered.
-/

namespace Mqrestt
open CSem

inductive MosqErr where
  | success
  | nomem
  | inval
  | noConn
  | connLost
  | other (code : Int)
  deriving DecidableEq, Repr

def MosqErr.code : MosqErr → Int
  | .success => 0
  | .nomem => 1
  | .inval => 3
  | .noConn => 4
  | .connLost => 7
  | .other code => code

inductive CurlCode where
  | ok
  | failed (code : Nat)
  deriving DecidableEq, Repr

inductive LogMsgType where
  | fatal
  | error
  | warning
  | info
  | debug
  deriving DecidableEq, Repr

/-- An argument of a log line. For `%s` it is the string at the pointer, `none` for `NULL`. -/
inductive LogArg where
  | str (s : Option (List Byte))
  | num (n : Int)
  | mosqStrerror (rc : MosqErr)
  | curlStrerror (res : CurlCode)
  | errnoText
  deriving DecidableEq, Repr

structure Publish where
  topic : List Byte
  payload : List Byte
  qos : Int
  rc : MosqErr
  deriving DecidableEq, Repr

structure Response where
  status : Nat
  contentType : String
  body : List Byte
  deriving DecidableEq, Repr

def mhdHttpOk : Nat := 200

structure HttpRequest where
  method : String
  url : List Byte
  body : List Byte
  deriving DecidableEq, Repr

structure Pollfd where
  fd : Int
  pollin : Bool
  pollout : Bool
  pollpri : Bool
  deriving DecidableEq, Repr

abbrev Tid := Nat

inductive SysCall where
  | pthreadCreate (thread : Tid)
  | pthreadJoin (thread : Tid)
  -- with `SIGUSR1`
  | pthreadKill (thread : Tid)
  | close (fd : Int)
  | unlink (path : String)
  deriving DecidableEq, Repr

inductive Obj where
  | incomingData
  | fullUrl
  | pfd
  | threads
  deriving DecidableEq, Repr

inductive Effect where
  | log (type : LogMsgType) (format : String) (args : List LogArg)
  | stderr (format : String) (args : List LogArg)
  | read (o : Obj) (size : Nat) (index : Int)
  | write (o : Obj) (size : Nat) (index : Int)
  | publish (p : Publish)
  | queueResponse (r : Response)
  | perform (req : HttpRequest) (res : CurlCode)
  | connect (host : List Byte) (port keepalive : Int) (rc : MosqErr)
  | subscribe (filter : List Byte) (qos : Int)
  -- `mosquitto_socket`, asked for by `mqtt_client_get_pollfds` while the handle's flag is this
  | socket (connected : Bool)
  | loopWrite (rc : MosqErr)
  | loopRead (rc : MosqErr)
  | loopMisc (rc : MosqErr)
  | sleep (seconds : Nat)
  | startDaemon (port : Nat)
  | poll (fds : List Pollfd) (timeout : Int)
  | stopDaemon
  | destroy
  -- the client id
  | mosquittoNew (id : List Byte)
  | sys (c : SysCall)
  deriving DecidableEq, Repr

inductive StringFun where
  | strtol
  | strlen
  deriving DecidableEq, Repr

inductive Halt where
  | exit (code : Nat)
  | assertion
  | nullString (f : StringFun)
  | nullPointer
  | freedPointer
  -- `pthread_kill` with an id that is no thread's
  | goneThread
  deriving DecidableEq, Repr

abbrev Run := Proc Effect Halt

/-! ## Accesses to a buffer -/

def writes (o : Obj) (size : Nat) (ss : Stores) : List Effect := ss.map fun s => .write o size s.1

def reads (o : Obj) (size : Nat) (is : List Int) : List Effect := is.map (.read o size)

/-! ## The log macros -/

def debug (format : String) (args : List LogArg) : Run Unit := Proc.emit (.log .debug format args)

def info (format : String) (args : List LogArg) : Run Unit := Proc.emit (.log .info format args)

def warning (format : String) (args : List LogArg) : Run Unit := Proc.emit (.log .warning format args)

def error (format : String) (args : List LogArg) : Run Unit := Proc.emit (.log .error format args)

/-- `FATAL` also quits the application: `log_fatal` is the lowest level, so no setting of
`loglevel` drops it. -/
def fatal {α : Type} (format : String) (args : List LogArg) : Run α :=
  ⟨[.log .fatal format args], .error (.exit 1)⟩

end Mqrestt
