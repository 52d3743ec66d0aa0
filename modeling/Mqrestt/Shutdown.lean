import Mqrestt.Lib.Poller
import Mqrestt.Main

/-!
# `main`, the unit threads and the handler of `SIGINT`, interleaved

Each party goes on by its own steps, in any order. `SIGINT` can reach any of them at any
point, and then the party first runs the handler. A signal has an effect only on a thread
that is blocked in `poll`.
-/

namespace Mqrestt
open CSem

/-! ## The unit threads -/

def mqtt2restPoller (w : LongWidth) (unitconfig : Mqtt2RestUnitConfiguration) (config : Configuration) :
    Poller Effect Halt MqttClientHandle SetupEnv SocketEnv (Bool × Bool) LoopEnv where
  enter setup := do
    info "Starting thread for unit: %s" [.str (some unitconfig.unitName.bytes)]
    let h ← mqttClientInit (mqtt2restClient unitconfig config) setup.init
    let (_, h) ← mqttClientConnect h setup.connect
    return h
  await h socket := do
    if !(← checkConnection h) then return false
    let pfd ← mqttClientGetPollfds h socket
    Proc.emit (.poll [pfd] (pollTimeout config))
    return true
  failed := pollFailed
  work h revents env := mqttClientLoop w h revents.1 revents.2 env
  leave _ := info "Unit thread %s exiting..." [.str (some unitconfig.unitName.bytes)]

section
variable {ι : Type} [DecidableEq ι]

def rest2mqttPoller (w : LongWidth) (req : ι → Request) (st : Store) (unitconfig : Rest2MqttUnitConfiguration)
    (config : Configuration) : Poller (Option ι × Effect) Halt (UnitState ι) SetupEnv (FdsetEnv × SocketEnv)
      (Bool × Bool) (List (ι × Call) × LoopEnv) where
  enter setup := do
    own (info "Starting REST->MQTT unit: %s" [.str (some unitconfig.unitName.bytes)])
    let h ← own (mqttClientInit (rest2mqttClient unitconfig config) setup.init)
    let (_, h) ← own (mqttClientConnect h setup.connect)
    own (Proc.emit (.startDaemon (unitconfig.listenPort % 2 ^ 16).toNat))
    return (h, freshServer st)
  await s env := do
    if !(← own (checkConnection s.1)) then return false
    let pfds ← own (getMhdPollfds env.1 pfdSize)
    let pfd ← own (mqttClientGetPollfds s.1 env.2)
    own (Proc.emit (.write .pfd pfdSize pfds.length))
    own (Proc.emit (.poll (pfds ++ [pfd]) (pollTimeout config)))
    return true
  failed eintr := own (pollFailed eintr)
  work s revents env := do
    let server ← handler (serveAll w s.1 req s.2 env.1)
    let h ← own (mqttClientLoop w s.1 revents.1 revents.2 env.2)
    return (h, server)
  leave s := do
    own (Proc.emit .stopDaemon)
    own (mqttClientDestroy s.1)
    own (info "Unit thread %s exiting..." [.str (some unitconfig.unitName.bytes)])

def PollResult.outcome : PollResult → Except Bool (Bool × Bool)
  | .failed eintr => .error eintr
  | .ready pollin pollout => .ok (pollin, pollout)

structure UnitEnv (ι : Type) extends Rest2MqttEnv ι where
  setup : SetupEnv

def UnitEnv.mqtt2rest (env : UnitEnv ι) : Poller.Input SetupEnv SocketEnv (Bool × Bool) LoopEnv :=
  ⟨env.setup, env.socket, env.poll.outcome, env.loop⟩

def UnitEnv.rest2mqtt (env : UnitEnv ι) :
    Poller.Input SetupEnv (FdsetEnv × SocketEnv) (Bool × Bool) (List (ι × Call) × LoopEnv) :=
  ⟨env.setup, (env.fdset, env.socket), env.poll.outcome, (env.calls, env.loop)⟩

/-- What a thread has of its own between two steps. The heap is that of the process. -/
abbrev OwnState (ι : Type) := MqttClientHandle × (ι → Option Addr)

def onHeap (st : Store) (s : OwnState ι) : UnitState ι := (s.1, ⟨st, s.2⟩)

def ownState (s : UnitState ι) : OwnState ι := (s.1, s.2.conCls)

inductive UnitThread (ι : Type) where
  | mqtt2rest (unitconfig : Mqtt2RestUnitConfiguration) (phase : Poller.Phase MqttClientHandle (Bool × Bool))
  | rest2mqtt (unitconfig : Rest2MqttUnitConfiguration) (phase : Poller.Phase (OwnState ι) (Bool × Bool))

def Job.thread : Job → UnitThread ι
  | .mqtt2rest unitconfig => .mqtt2rest unitconfig .starting
  | .rest2mqtt unitconfig => .rest2mqtt unitconfig .starting

structure World (ι : Type) where
  w : LongWidth
  req : ι → Request
  -- the heap at the start
  st : Store

/-- A step of a thread on the heap of the process, and the heap that it leaves. -/
def UnitThread.step (world : World ι) (config : Configuration) (env : UnitEnv ι) (st : Store) :
    UnitThread ι → Run (UnitThread ι × Store)
  | .mqtt2rest u phase => do
    let phase ← (mqtt2restPoller world.w u config).step phase env.mqtt2rest
    return (.mqtt2rest u phase, st)
  | .rest2mqtt u phase => do
    let phase ← ((rest2mqttPoller world.w world.req st u config).step (phase.map (onHeap st))
      env.rest2mqtt).mapOut Prod.snd
    return (.rest2mqtt u (phase.map ownState), (phase.state?.map fun s => s.2.store).getD st)

/-- `handle_signal` for `SIGUSR1` does nothing, so a signal is only the end of a `poll`. -/
def UnitThread.interrupt : UnitThread ι → UnitThread ι
  | .mqtt2rest u phase => .mqtt2rest u phase.interrupt
  | .rest2mqtt u phase => .rest2mqtt u phase.interrupt

def UnitThread.done : UnitThread ι → Bool
  | .mqtt2rest _ phase => phase.done
  | .rest2mqtt _ phase => phase.done

def UnitThread.heeds : UnitThread ι → Bool
  | .mqtt2rest _ phase => phase.heeds
  | .rest2mqtt _ phase => phase.heeds

def UnitThread.exited : UnitThread ι → Bool
  | .mqtt2rest _ .exited | .rest2mqtt _ .exited => true
  | _ => false

/-! ## The process -/

inductive Party where
  | main
  | unit (k : Nat)
  deriving DecidableEq

structure Process (ι : Type) where
  main : MainState
  -- in the order of `main.created`
  threads : List (UnitThread ι)
  store : Store
  -- the index of the loop in the handler that a party runs
  handling : Party → Option Nat
  -- a handler of `SIGINT` has returned
  handled : Bool

def Process.start (world : World ι) (beyond : Nat → Tid) : Process ι where
  main := mainStart beyond
  threads := []
  store := world.st
  handling _ := none
  handled := false

inductive Act (ι : Type) where
  | main (res : CreateResult)
  | unit (k : Nat) (env : UnitEnv ι)
  | sigint (p : Party) (env : SignalEnv)
  -- whether `pthread_kill` comes back if it is given an id that is no thread's
  | handler (p : Party) (survives : Bool)

/-- The place of a thread that was started, one past the last for any other id. -/
def Process.indexOf (s : Process ι) (t : Tid) : Nat := (s.main.created.map Prod.fst).idxOf t

def Process.joinBlocks (s : Process ι) : Bool :=
  match s.main.pc with
  | .joining i =>
    decide (i < s.main.threadcounter) && !(s.threads[s.indexOf (s.main.threads i)]?.any (·.exited))
  | _ => false

def Process.mainStep (units : Units) (config : Configuration) (s : Process ι) (res : CreateResult) :
    Run (Process ι) :=
  if (s.handling .main).isSome || s.joinBlocks then return s
  else do
    let main ← Mqrestt.mainStep units config s.main res
    let started := main.created.drop s.main.created.length
    return { s with main, threads := s.threads ++ started.map fun t => t.2.thread }

def Process.unitStep (world : World ι) (config : Configuration) (s : Process ι) (k : Nat) (env : UnitEnv ι) :
    Run (Process ι) :=
  if (s.handling (.unit k)).isSome then return s
  else
    match s.threads[k]? with
    | none => return s
    | some thread => do
      let (thread, store) ← thread.step world config env s.store
      return { s with threads := s.threads.set k thread, store }

def Process.alive (s : Process ι) : Party → Bool
  | .main => true
  | .unit k => s.threads[k]?.any fun thread => !thread.exited

/-- `SIGINT` reaches a party, which runs the handler up to its loop. It stays blocked there until the end. -/
def Process.sigint (s : Process ι) (p : Party) (env : SignalEnv) : Run (Process ι) :=
  if (s.handling p).isSome || !s.alive p then return s
  else do
    let _ ← handleSignal .sigint env s.main.threads 0
    let s := { s with handling := Function.update s.handling p (some 0) }
    match p with
    | .main => return s
    | .unit k => return { s with threads := s.threads.modify k UnitThread.interrupt }

/-- How many threads `main` has joined. It joins them in the order in which it started them. -/
def MainState.joined (s : MainState) : Nat :=
  match s.pc with
  | .mqtt2rest _ | .rest2mqtt _ => 0
  | .joining i => i
  | .finished => s.threadcounter

/-- An id that is no thread's: that of a thread that was joined, or what lies behind the table. -/
def Process.gone (s : Process ι) (t : Tid) : Bool :=
  s.indexOf t < s.main.joined || s.main.created.length ≤ s.indexOf t

def Process.handlerStep (s : Process ι) (p : Party) (survives : Bool) : Run (Process ι) :=
  match s.handling p with
  | none => return s
  | some i => do
    match ← killStep s.main.threads i with
    | some j =>
      if s.gone (s.main.threads i) && !survives then Proc.halt .goneThread
      else return { s with
        handling := Function.update s.handling p (some j)
        threads := s.threads.modify (s.indexOf (s.main.threads i)) UnitThread.interrupt }
    | none => return { s with
        handling := Function.update s.handling p none
        handled := true }

/-- A party that cannot go on leaves the process as it is. -/
def Process.step (world : World ι) (units : Units) (config : Configuration) (s : Process ι) : Act ι → Run (Process ι)
  | .main res => s.mainStep units config res
  | .unit k env => s.unitStep world config k env
  | .sigint p env => s.sigint p env
  | .handler p survives => s.handlerStep p survives

end

end Mqrestt
