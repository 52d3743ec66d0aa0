import Mqrestt.Lib.Descriptors
import Mqrestt.Lib.Lockf
import Mqrestt.Lib.Format
import Mqrestt.Main

/-!
# `daemonize`, and the lock file

A daemon is the grandchild of the process that was started. It locks a file and writes its
pid into it, and the handler of `SIGINT` unlocks, closes and removes the file. Several
instances of the program run at once, with or without `-d`, and share the file; a step of
an instance is a system call and the code up to the next one.
-/

namespace Mqrestt
open CSem

/-! ## `daemonize` -/

inductive LockfCmd where
  | tlock
  | ulock
  deriving DecidableEq, Repr

/-- The system calls of `daemonize` and of the handler, with what they returned, and the texts for `stderr`. -/
inductive DaemonCall where
  | fork (pid : Int)
  | setsid (ret : Int)
  | ignoreSigchld
  | umask (mask : Nat)
  | chdir (path : String) (ret : Int)
  | close (fd : Nat)
  | fopen (path mode : String) (fd : Option Nat)
  | openFile (path : String) (fd : Option Nat)
  | lockf (fd : Nat) (cmd : LockfCmd) (ret : Int)
  | write (fd : Nat) (text : List Byte) (ret : Int)
  | unlink (path : String)
  | stderr (text : String)
  deriving DecidableEq, Repr

abbrev DaemonRun := Proc DaemonCall Halt

inductive OpenFile where
  | inherited
  | devNull (mode : String)
  | pidFile
  deriving DecidableEq, Repr

structure DaemonEnv where
  fork : Int
  setsid : Int
  forkAgain : Int
  chdir : Int
  -- `sysconf(_SC_OPEN_MAX)`
  openMax : Int
  -- how many descriptors the process may have
  limit : Nat
  -- whether `/dev/null` can be opened
  devNull : Bool
  -- whether the lock file can be opened
  pidFile : Bool
  lockf : Int
  pid : Nat
  write : Int

def forkOff (pid : Int) : DaemonRun Unit := do
  Proc.emit (.fork pid)
  if pid < 0 then Proc.halt (.exit 1)
  else if 0 < pid then Proc.halt (.exit 0)
  else return ()

/-- `for (fd = sysconf(_SC_OPEN_MAX); fd > 0; fd--)` -/
def closeLoop (fds : Fds OpenFile) : Nat → DaemonRun (Fds OpenFile)
  | 0 => return fds
  | fd + 1 => do
    Proc.emit (.close (fd + 1))
    closeLoop (fds.close (fd + 1)) fd

/-- The result of `fopen` is not looked at. -/
def fopenNull (env : DaemonEnv) (mode : String) (fds : Fds OpenFile) : DaemonRun (Fds OpenFile) := do
  let (fd, fds) := if env.devNull then fds.openFile env.limit (.devNull mode) else (none, fds)
  Proc.emit (.fopen "/dev/null" mode fd)
  return fds

def daemonizeOpen (fd : Option Nat) : DaemonRun Nat := do
  Proc.emit (.openFile pidFile fd)
  match fd with
  | none => Proc.halt (.exit 1)
  | some fd => return fd

def daemonizeLock (fd : Nat) (ret : Int) : DaemonRun Unit := do
  Proc.emit (.lockf fd .tlock ret)
  if ret < 0 then Proc.halt (.exit 1)

-- `"%d\n"`
def pidLine (pid : Nat) : List Byte := decimal pid ++ bytes "\n"

/-- `write` has failed if it returns 0, and not if it returns -1. -/
def daemonizeWrite (fd pid : Nat) (ret : Int) : DaemonRun Unit := do
  Proc.emit (.write fd (pidLine pid) ret)
  if ret = 0 then
    Proc.emit (.stderr "Failed to writen pid into lockfile, exiting...")
    Proc.halt (.exit 255)

/-- The descriptors afterwards, and `pid_fd`. -/
def daemonize (env : DaemonEnv) (fds : Fds OpenFile) : DaemonRun (Fds OpenFile × Nat) := do
  forkOff env.fork
  Proc.emit (.setsid env.setsid)
  if env.setsid < 0 then Proc.halt (.exit 1)
  else do
    Proc.emit .ignoreSigchld
    forkOff env.forkAgain
    Proc.emit (.umask 0)
    Proc.emit (.chdir "/" env.chdir)
    if env.chdir ≠ 0 then
      Proc.emit (.stderr "Failed to cd to /, exiting")
      Proc.halt (.exit 255)
    else do
      let fds ← closeLoop fds env.openMax.toNat
      let fds ← fopenNull env "r" fds
      let fds ← fopenNull env "w+" fds
      let fds ← fopenNull env "w+" fds
      let (fd, fds) := if env.pidFile then fds.openFile env.limit .pidFile else (none, fds)
      let pidFd ← daemonizeOpen fd
      daemonizeLock pidFd env.lockf
      daemonizeWrite pidFd env.pid env.write
      return (fds, pidFd)

/-! ## The instances and the lock file -/

abbrev Pid := Nat

abbrev Inode := Nat

inductive DaemonPc where
  | opening
  | locking
  | writing
  -- `daemonize` has returned, or was not called
  | running
  deriving DecidableEq, Repr

/-- What a run of the handler does next with the lock file. -/
inductive HandlerPc where
  | unlocking
  | closing
  | unlinking
  deriving DecidableEq, Repr

structure Instance where
  pc : DaemonPc
  -- `none` is -1; the handler does not set it back
  pidFd : Option Nat
  -- the lock file behind `pid_fd` and its offset, `none` when it is not open
  file : Option (Inode × Nat)
  -- one for each thread that runs the handler
  handlers : List HandlerPc
  deriving DecidableEq

/-- With `-d` or without. -/
def Instance.start (daemonized : Bool) : Instance where
  pc := if daemonized then .opening else .running
  pidFd := none
  file := none
  handlers := []

structure System where
  -- the file that has the name
  entry : Option Inode
  -- files are numbered as they are made
  next : Inode
  content : Inode → List Byte
  locks : Locks Pid Inode
  instances : Pid → Option Instance

abbrev SystemRun := Proc (Pid × DaemonCall) Halt

namespace System

def set (s : System) (p : Pid) (i : Instance) : System := { s with instances := Function.update s.instances p (some i) }

/-- The kernel closes the files and gives back the locks. The name stays. -/
def exit (s : System) (p : Pid) : System :=
  { s with instances := Function.update s.instances p none, locks := s.locks.releaseAll p }

/-- The code of an instance after a system call: it goes on, or it ends the instance. -/
def after {α : Type} (s : System) (p : Pid) (r : DaemonRun α) (k : α → System) : SystemRun System :=
  ⟨r.out.map (p, ·), match r.res with
    | .ok a => .ok (k a)
    | .error _ => .ok (s.exit p)⟩

/-- `open` with `O_RDWR | O_CREAT`. -/
def create (s : System) : Inode × System :=
  match s.entry with
  | some f => (f, s)
  | none => (s.next, { s with
      entry := some s.next
      next := s.next + 1
      content := Function.update s.content s.next [] })

structure MainEnv where
  -- the descriptor that `open` returns, `none` if it fails
  fd : Option Nat
  -- `lockf` fails for another reason than a lock
  lockfFails : Bool
  -- how much `write` writes, `none` if it fails
  write : Option Nat

def openStep (s : System) (p : Pid) (i : Instance) (env : MainEnv) : SystemRun System :=
  s.after p (daemonizeOpen env.fd) fun fd =>
    let (f, s) := s.create
    s.set p { i with pc := .locking, pidFd := some fd, file := some (f, 0) }

/-- The handler may have closed the file. -/
def lockStep (s : System) (p : Pid) (i : Instance) (fd : Nat) (env : MainEnv) : SystemRun System :=
  let locks := i.file.bind fun (f, offset) => if env.lockfFails then none else s.locks.tlock p f offset
  let ret := if locks.isSome then 0 else -1
  s.after p (daemonizeLock fd ret) fun _ => { s with locks := locks.getD s.locks }.set p { i with pc := .writing }

/-- `O_TRUNC` is not set, so what is longer stays. -/
def writeStep (s : System) (p : Pid) (i : Instance) (fd : Nat) (env : MainEnv) : SystemRun System :=
  match i.file, env.write with
  | some (f, offset), some n =>
    let text := (pidLine p).take n
    let old := s.content f
    s.after p (daemonizeWrite fd p text.length) fun _ =>
      { s with content := Function.update s.content f (old.take offset ++ text ++ old.drop (offset + text.length)) }.set p
        { i with pc := .running, file := some (f, offset + text.length) }
  | _, _ => s.after p (daemonizeWrite fd p (-1)) fun _ => s.set p { i with pc := .running }

def mainStep (s : System) (p : Pid) (env : MainEnv) : SystemRun System :=
  match s.instances p with
  | none => return s
  | some i =>
    -- in `daemonize` there is one thread, and it runs the handler
    if i.handlers ≠ [] then return s
    else
      match i.pc, i.pidFd with
      | .opening, _ => s.openStep p i env
      | .locking, some fd => s.lockStep p i fd env
      | .writing, some fd => s.writeStep p i fd env
      | _, _ => return s

/-- `SIGINT` reaches a thread. In `daemonize` there is one thread, and the signal is blocked in its handler. -/
def sigint (s : System) (p : Pid) : SystemRun System :=
  match s.instances p with
  | none => return s
  | some i =>
    if i.pc ≠ .running ∧ i.handlers ≠ [] then return s
    else return s.set p { i with handlers := i.handlers ++ [if i.pidFd.isSome then .unlocking else .unlinking] }

/-- When the file is closed, the number can be that of another one. -/
def handlerStep (s : System) (p : Pid) (k : Nat) (reused : Bool) : SystemRun System :=
  match s.instances p with
  | none => return s
  | some i =>
    match i.handlers[k]?, i.pidFd with
    | some .unlocking, some fd => do
      let ret := if i.file.isSome || reused then 0 else -1
      Proc.emit (p, .lockf fd .ulock ret)
      if ret = 0 then
        Proc.emit (p, .stderr "Failed to unlock lockfile\n")
      return { s with locks := i.file.elim s.locks fun (f, offset) => s.locks.ulock p f offset }.set p
        { i with handlers := i.handlers.set k .closing }
    | some .closing, some fd => do
      Proc.emit (p, .close fd)
      return { s with locks := i.file.elim s.locks fun (f, _) => s.locks.release p f }.set p
        { i with handlers := i.handlers.set k .unlinking, file := none }
    | some .unlinking, _ => do
      Proc.emit (p, .unlink pidFile)
      return { s with entry := none }.set p { i with handlers := i.handlers.eraseIdx k }
    | _, _ => return s

inductive Act where
  | start (p : Pid) (daemonized : Bool)
  | main (p : Pid) (env : MainEnv)
  | sigint (p : Pid)
  | handler (p : Pid) (k : Nat) (reused : Bool)
  -- at any point, by any signal or call of `exit`
  | exit (p : Pid)

def step (s : System) : Act → SystemRun System
  | .start p daemonized => return if (s.instances p).isSome then s else s.set p (.start daemonized)
  | .main p env => s.mainStep p env
  | .sigint p => s.sigint p
  | .handler p k reused => s.handlerStep p k reused
  | .exit p => return s.exit p

/-- No instance runs; a file can be there from before. -/
def init (stale : Option (List Byte)) : System where
  entry := stale.map fun _ => 0
  next := 1
  content _ := stale.getD []
  locks := []
  instances _ := none

end System

end Mqrestt
