import Mqrestt.JoinSound
import Mqrestt.Lib.Product

/-!
# The threads of a process do not meet

The effects of a process say which thread they belong to. Whatever the others do in
between, and whatever signals come, what a thread does is how a run of its unit begins,
and the unit is one that is enabled in the file.
-/

namespace Mqrestt
open CSem

variable {ι : Type}

def UnitThread.job : UnitThread ι → Job
  | .mqtt2rest u _ => .mqtt2rest u
  | .rest2mqtt u _ => .rest2mqtt u

@[simp] theorem job_interrupt (thread : UnitThread ι) : thread.interrupt.job = thread.job := by
  cases thread with
  | mqtt2rest u phase => rfl
  | rest2mqtt u phase => rfl

@[simp] theorem job_thread (job : Job) : (job.thread : UnitThread ι).job = job := by
  cases job with
  | mqtt2rest u => rfl
  | rest2mqtt u => rfl

section
variable [DecidableEq ι]

theorem job_step {world : World ι} {config : Configuration} {env : UnitEnv ι} {st st' : Store}
    {thread thread' : UnitThread ι} (hs : (thread.step world config env st).res = .ok (thread', st')) :
    thread'.job = thread.job := by
  cases thread with
  | mqtt2rest u phase =>
    obtain ⟨phase', -, hres, -⟩ := Proc.bind_eq_ok hs
    cases hres
    rfl
  | rest2mqtt u phase =>
    obtain ⟨phase', -, hres, -⟩ := Proc.bind_eq_ok hs
    cases hres
    rfl

/-! ## One thread -/

section
variable (world : World ι) (config : Configuration) (calls : List ((Nat × ι) × Call)) (conCls : Nat × ι → Option Addr)
  (k : Nat)

/-- A thread on the heap of the process, and one that has a heap of its own. -/
def Beside (s : OwnState ι) (alone : UnitState ι) : Prop :=
  s.1 = alone.1 ∧ Twin world.w world.req calls conCls k s.2 alone.2

/-- Thread `k` has come here, with these effects, as it does by its own steps and by interrupts when no other thread
uses its heap. -/
def Behaves (out : List Effect) : UnitThread ι → Prop
  | .mqtt2rest u phase => ∃ evs : List (Poller.Event SetupEnv SocketEnv (Bool × Bool) LoopEnv),
      evs.foldlM (mqtt2restPoller world.w u config).event .starting = ⟨out, .ok phase⟩
  | .rest2mqtt u phase =>
    ∃ (evs : List (Poller.Event SetupEnv (FdsetEnv × SocketEnv) (Bool × Bool) (List (ι × Call) × LoopEnv)))
      (tagged : List (Option ι × Effect)) (alone : Poller.Phase (UnitState ι) (Bool × Bool)),
      tagged.map Prod.snd = out ∧
      evs.foldlM (rest2mqttPoller world.w world.req world.st u config).event .starting = ⟨tagged, .ok alone⟩ ∧
      phase.Rel (Beside world calls conCls k) alone ∧ (phase = .starting → ∀ i, callsOf (k, i) calls = [])

/-- A run of the unit begins with these effects. -/
def Job.Begins (out : List Effect) : Job → Prop
  | .mqtt2rest u => ∃ setup envs, out <+: (mqtt2restUnitRun world.w (some u) setup envs).out
  | .rest2mqtt u => ∃ setup envs,
      out <+: ((rest2mqttUnitRun world.w world.req world.st (some u) setup envs).mapOut Prod.snd).out

/-- A run of the unit has these effects and ends for this reason. -/
def Job.Ends (out : List Effect) (h : Halt) : Job → Prop
  | .mqtt2rest u => ∃ setup envs, mqtt2restUnitRun world.w (some u) setup envs = ⟨out, .error h⟩
  | .rest2mqtt u => ∃ setup envs,
      (rest2mqttUnitRun world.w world.req world.st (some u) setup envs).mapOut Prod.snd = ⟨out, .error h⟩

end

section
variable {world : World ι} {config : Configuration} {calls : List ((Nat × ι) × Call)} {conCls : Nat × ι → Option Addr}
  {k : Nat} {out : List Effect} {thread : UnitThread ι}

theorem behaves_start (job : Job) (hnone : ∀ i, callsOf (k, i) calls = []) :
    Behaves world config calls conCls k [] job.thread := by
  cases job with
  | mqtt2rest u => exact ⟨[], rfl⟩
  | rest2mqtt u => exact ⟨[], [], .starting, rfl, rfl, .starting, fun _ => hnone⟩

theorem Behaves.interrupt (h : Behaves world config calls conCls k out thread) :
    Behaves world config calls conCls k out thread.interrupt := by
  cases thread with
  | mqtt2rest u phase =>
    obtain ⟨evs, hevs⟩ := h
    refine ⟨evs ++ [.interrupt], ?_⟩
    rw [Proc.foldlM_snoc, hevs, Proc.mk_ok_bind]
    simp [Poller.event]
  | rest2mqtt u phase =>
    obtain ⟨evs, tagged, alone, htagged, hevs, hrel, hfresh⟩ := h
    refine ⟨evs ++ [.interrupt], tagged, alone.interrupt, htagged, ?_, hrel.interrupt, fun hstart => hfresh ?_⟩
    · rw [Proc.foldlM_snoc, hevs, Proc.mk_ok_bind]
      simp [Poller.event]
    · cases phase with
      | starting => rfl
      | looping s | waiting s b | working s d | leaving s | exited => cases hstart

/-- What other threads do to the heap makes no difference. -/
theorem Behaves.frame {calls' : List ((Nat × ι) × Call)} {conCls' : Nat × ι → Option Addr}
    (hcalls : ∀ i, callsOf (k, i) calls' = callsOf (k, i) calls) (hconCls : ∀ i, conCls' (k, i) = conCls (k, i))
    (h : Behaves world config calls conCls k out thread) : Behaves world config calls' conCls' k out thread := by
  cases thread with
  | mqtt2rest u phase => exact h
  | rest2mqtt u phase =>
    obtain ⟨evs, tagged, alone, htagged, hevs, hrel, hfresh⟩ := h
    refine ⟨evs, tagged, alone, htagged, hevs, hrel.mono fun s s' hs => ?_, fun hstart i => ?_⟩
    · obtain ⟨hhandle, hown, done, o, hT, hsame⟩ := hs
      exact ⟨hhandle, fun i => (hown i).trans (hconCls i).symm, done, o, hT, fun i => (hsame i).trans (hcalls i).symm⟩
    · rw [hcalls]
      exact hfresh hstart i

omit [DecidableEq ι] in
/-- A thread takes calls only out of `MHD_run`. -/
theorem takes_of_not_working {u : Rest2MqttUnitConfiguration} {phase : Poller.Phase (OwnState ι) (Bool × Bool)}
    {env : UnitEnv ι} (hwork : ∀ s d, phase ≠ .working s d) :
    calls ++ ofThread k ((UnitThread.rest2mqtt u phase).takes env) = calls := by
  cases phase with
  | working s d => exact absurd rfl (hwork s d)
  | starting | looping s | waiting s b | leaving s | exited => exact List.append_nil _

/-- A step of a REST to MQTT thread, beside the same step on a heap of its own. -/
theorem rest2mqtt_step (config : Configuration) {st : Store} {u : Rest2MqttUnitConfiguration}
    {phase : Poller.Phase (OwnState ι) (Bool × Bool)}
    {alone : Poller.Phase (UnitState ι) (Bool × Bool)} {env : UnitEnv ι}
    (hheap : OnHeap world.w world.req calls st conCls) (h : phase.Rel (Beside world calls conCls k) alone)
    (hfresh : phase = .starting → ∀ i, callsOf (k, i) calls = [])
    (hp : ∀ i, (world.req i).method = postMethod →
      Protocol (callsOf (k, i) (calls ++ ofThread k ((UnitThread.rest2mqtt u phase).takes env)))) :
    Proc.Sim (Poller.Phase.Rel fun s s' => s.1 = s'.1 ∧ Reaches world.w world.req k
        (calls ++ ofThread k ((UnitThread.rest2mqtt u phase).takes env)) conCls s.2 s'.2)
      ((rest2mqttPoller world.w world.req st u config).step (phase.map (onHeap st)) env.rest2mqtt)
      ((rest2mqttPoller world.w world.req world.st u config).step alone env.rest2mqtt) := by
  let R : UnitState ι → UnitState ι → Prop := fun s s' =>
    s.1 = s'.1 ∧ Reaches world.w world.req k calls conCls s.2 s'.2
  have hrel : (phase.map (onHeap st)).Rel R alone := h.map_left fun s s' hs =>
    ⟨hs.1, conCls, hheap, hs.2, fun _ _ _ => rfl⟩
  refine Poller.sim_step ?_ ?_ (fun _ => rfl) ?_ ?_ ?_ hrel
  · intro hstart
    cases phase with
    | looping s | waiting s b | working s d | leaving s | exited => cases hstart
    | starting =>
      refine (Proc.Sim.refl _).bind fun _ _ _ => (Proc.Sim.refl _).bind fun h₁ h₂ hh => ?_
      subst hh
      refine (Proc.Sim.refl _).bind fun c₁ c₂ hc => ?_
      subst hc
      refine (Proc.Sim.refl _).bind fun _ _ _ => .ok ⟨rfl, ?_⟩
      rw [takes_of_not_working fun _ _ he => by cases he]
      refine ⟨conCls, hheap, ⟨fun i => (hheap.untouched _ (hfresh rfl i)).symm, [], [], Tracks.init _, fun i => ?_⟩,
        fun _ _ _ => rfl⟩
      exact (hfresh rfl i).symm
  · rintro ⟨handle, s⟩ ⟨handle', s'⟩ ⟨hhandle, -⟩
    obtain rfl : handle = handle' := hhandle
    rfl
  · rintro ⟨handle, s⟩ ⟨handle', s'⟩ d hphase ⟨hhandle, hreach⟩
    obtain rfl : handle = handle' := hhandle
    cases phase with
    | starting | looping s | waiting s b | leaving s | exited => cases hphase
    | working own d =>
      refine ((hreach.serveAll handle hp).mapOut _).bind fun t t' ht => ?_
      refine (Proc.Sim.refl _).bind fun h₁ h₂ hh => ?_
      subst hh
      exact .ok ⟨rfl, ht⟩
  · rintro ⟨handle, s⟩ ⟨handle', s'⟩ ⟨hhandle, -⟩
    obtain rfl : handle = handle' := hhandle
    rfl
  · intro hwork s s' hs
    rw [takes_of_not_working fun own d hphase => hwork _ d (by rw [hphase]; rfl)]
    exact hs

theorem Behaves.step {env : UnitEnv ι} {st st' : Store} {es : List Effect} {thread' : UnitThread ι}
    (hheap : OnHeap world.w world.req calls st conCls) (h : Behaves world config calls conCls k out thread)
    (hp : ∀ i, (world.req i).method = postMethod → Protocol (callsOf (k, i) (calls ++ ofThread k (thread.takes env))))
    (hs : thread.step world config env st = ⟨es, .ok (thread', st')⟩) :
    ∃ conCls', OnHeap world.w world.req (calls ++ ofThread k (thread.takes env)) st' conCls' ∧
      (∀ j i, j ≠ k → conCls' (j, i) = conCls (j, i)) ∧
      Behaves world config (calls ++ ofThread k (thread.takes env)) conCls' k (out ++ es) thread' := by
  cases thread with
  | mqtt2rest u phase =>
    obtain ⟨evs, hevs⟩ := h
    obtain ⟨phase', hphase', hres⟩ := Proc.bind_pure_eq_ok (congrArg Proc.res hs)
    cases hres
    have htakes : calls ++ ofThread k ((UnitThread.mqtt2rest u phase).takes env) = calls := List.append_nil _
    refine ⟨conCls, ?_, fun _ _ _ => rfl, evs ++ [.step env.mqtt2rest], ?_⟩
    · rw [htakes]
      exact hheap
    · have hes := congrArg Proc.out hs
      rw [UnitThread.step] at hes
      rw [Proc.foldlM_snoc, hevs, Proc.mk_ok_bind, Poller.event, hphase', hes]
  | rest2mqtt u phase =>
    obtain ⟨evs, tagged, alone, rfl, hevs, hrel, hfresh⟩ := h
    obtain ⟨phase', hphase', hres⟩ := Proc.bind_pure_eq_ok (congrArg Proc.res hs)
    cases hres
    have hes := congrArg Proc.out hs
    rw [UnitThread.step] at hes
    rw [hes] at hphase'
    obtain ⟨es', hstep, rfl⟩ := Proc.mapOut_eq_mk hphase'
    have hsim := rest2mqtt_step config hheap hrel hfresh hp
    rw [hstep] at hsim
    obtain ⟨alone', halone, hrel'⟩ := hsim.of_ok
    have hrun : (evs ++ [Poller.Event.step env.rest2mqtt]).foldlM
        (rest2mqttPoller world.w world.req world.st u config).event .starting = ⟨tagged ++ es', .ok alone'⟩ := by
      rw [Proc.foldlM_snoc, hevs, Proc.mk_ok_bind, Poller.event, halone]
    suffices hsame : ∃ conCls', OnHeap world.w world.req (calls ++ ofThread k ((UnitThread.rest2mqtt u phase).takes env))
        ((phase'.state?.map fun s => s.2.store).getD st) conCls' ∧ (∀ j i, j ≠ k → conCls' (j, i) = conCls (j, i)) ∧
        (phase'.map ownState).Rel (Beside world (calls ++ ofThread k ((UnitThread.rest2mqtt u phase).takes env))
          conCls' k) alone' ∧ phase'.map ownState ≠ .starting by
      obtain ⟨conCls', hheap', hothers, hrel'', hstarted⟩ := hsame
      exact ⟨conCls', hheap', hothers, _, _, _, List.map_append, hrun, hrel'', fun hstart => absurd hstart hstarted⟩
    cases hstate : phase'.state? with
    | none =>
      obtain ⟨rfl, hwork⟩ := Poller.exited_of_step (congrArg Proc.res hstep) hstate
      rw [takes_of_not_working fun own d hphase => hwork _ d (by rw [hphase]; rfl)]
      cases hrel' with
      | exited => exact ⟨conCls, hheap, fun _ _ _ => rfl, .exited, fun he => by cases he⟩
    | some s =>
      obtain ⟨s', ⟨hhandle, conCls', hheap', htwin, hothers⟩, hS⟩ := hrel'.state hstate
      have hrel'' := hS (fun s s' => Beside world (calls ++ ofThread k ((UnitThread.rest2mqtt u phase).takes env))
        conCls' k (ownState s) s') ⟨hhandle, htwin⟩
      refine ⟨conCls', ?_, hothers, hrel''.map_left (f := ownState) fun _ _ h => h, fun hstart => ?_⟩
      · exact hheap'
      cases phase' with
      | starting => cases hstate
      | looping s | waiting s b | working s d | leaving s | exited => cases hstart

theorem Behaves.begins {units : Units} (h : Behaves world config calls conCls k out thread)
    (hjob : thread.job ∈ enabledJobs units config) : thread.job.Begins world out := by
  cases thread with
  | mqtt2rest u phase =>
    obtain ⟨evs, hevs⟩ := h
    exact mqtt2restUnitRun_begins world.w (common_of_enabled.1 u hjob) hevs (setupWith .success) (loopEnvWith .success)
  | rest2mqtt u phase =>
    obtain ⟨evs, tagged, alone, rfl, hevs, -⟩ := h
    obtain ⟨setup, envs, hpre⟩ := rest2mqttUnitRun_begins world.w world.req world.st (common_of_enabled.2 u hjob) hevs
      (setupWith .success) (loopEnvWith .success)
    exact ⟨setup, envs, hpre.map Prod.snd⟩

theorem mqtt2restUnitRun_of_program (w : LongWidth) {u : Mqtt2RestUnitConfiguration}
    (hc : u.commonConfiguration = some config) (setup : SetupEnv)
    (is : List (SocketEnv × Except Bool (Bool × Bool) × LoopEnv)) :
    ∃ envs, mqtt2restUnitRun w (some u) setup envs = (mqtt2restPoller w u config).program setup is := by
  refine ⟨is.map fun i => ⟨i.1, PollResult.ofOutcome i.2.1, i.2.2⟩, ?_⟩
  rw [mqtt2restUnitRun_eq w hc, List.map_map]
  simp [Function.comp_def, PollResult.outcome_ofOutcome]

theorem rest2mqttUnitRun_of_program (w : LongWidth) (req : ι → Request) (st : Store) {u : Rest2MqttUnitConfiguration}
    (hc : u.commonConfiguration = some config) (setup : SetupEnv)
    (is : List ((FdsetEnv × SocketEnv) × Except Bool (Bool × Bool) × List (ι × Call) × LoopEnv)) :
    ∃ envs, rest2mqttUnitRun w req st (some u) setup envs = (rest2mqttPoller w req st u config).program setup is := by
  refine ⟨is.map fun i => ⟨i.1.1, i.1.2, PollResult.ofOutcome i.2.1, i.2.2.1, i.2.2.2⟩, ?_⟩
  rw [rest2mqttUnitRun_eq w req st hc, List.map_map]
  simp [Function.comp_def, PollResult.outcome_ofOutcome]

theorem Behaves.ends {units : Units} {env : UnitEnv ι} {st : Store} {es : List Effect} {e : Halt}
    (hheap : OnHeap world.w world.req calls st conCls) (h : Behaves world config calls conCls k out thread)
    (hp : ∀ i, (world.req i).method = postMethod → Protocol (callsOf (k, i) (calls ++ ofThread k (thread.takes env))))
    (hjob : thread.job ∈ enabledJobs units config) (hs : thread.step world config env st = ⟨es, .error e⟩) :
    thread.job.Ends world (out ++ es) e := by
  cases thread with
  | mqtt2rest u phase =>
    obtain ⟨evs, hevs⟩ := h
    have hstep : (mqtt2restPoller world.w u config).step phase env.mqtt2rest = ⟨es, .error e⟩ :=
      Proc.bind_eq_error (fun _ => ⟨_, rfl⟩) hs
    obtain ⟨setup, is, hprogram⟩ := (Poller.trace_of_events hevs).halts hstep
    obtain ⟨envs, henvs⟩ := mqtt2restUnitRun_of_program world.w (common_of_enabled.1 u hjob) setup is
    exact ⟨setup, envs, henvs.trans hprogram⟩
  | rest2mqtt u phase =>
    obtain ⟨evs, tagged, alone, rfl, hevs, hrel, hfresh⟩ := h
    obtain ⟨es', hstep, hes⟩ := Proc.mapOut_eq_mk (Proc.bind_eq_error (fun _ => ⟨_, rfl⟩) hs)
    have hsim := rest2mqtt_step config hheap hrel hfresh hp
    rw [hstep] at hsim
    obtain ⟨setup, is, hprogram⟩ := (Poller.trace_of_events hevs).halts hsim.of_error
    obtain ⟨envs, henvs⟩ := rest2mqttUnitRun_of_program world.w world.req world.st (common_of_enabled.2 u hjob) setup is
    refine ⟨setup, envs, ?_⟩
    rw [henvs, hprogram, Proc.mapOut, List.map_append, hes]

end

/-! ## All threads -/

section
variable (world : World ι) (units : Units) (config : Configuration)

/-- A step whose effects say to which thread they belong. -/
def Process.stepBy (s : Process ι) (a : Act ι) : Proc (Option Nat × Effect) Halt (Process ι) :=
  (s.step world units config a).mapOut (Prod.mk a.thread?)

/-- In the run, each request of each thread is called as libmicrohttpd documents. -/
def CalledAsDocumented (beyond : Nat → Tid) (acts : List (Act ι)) : Prop :=
  ∀ k i, (world.req i).method = postMethod → Protocol (callsOf (k, i)
    (Proc.gathered (Process.stepBy world units config) Process.calls (Process.start world beyond) acts))

structure Isolated (calls : List ((Nat × ι) × Call)) (out : List (Option Nat × Effect)) (s : Process ι) : Prop where
  joins : JoinInv units config s
  jobs : s.threads.map UnitThread.job = s.main.created.map Prod.snd
  behaves : ∃ conCls, OnHeap world.w world.req calls s.store conCls ∧
    ∀ (k : Nat) (thread : UnitThread ι), s.threads[k]? = some thread →
      Behaves world config calls conCls k (Proc.belonging (some k) out) thread
  absent : ∀ k, s.threads.length ≤ k → Proc.belonging (some k) out = [] ∧ ∀ i, callsOf (k, i) calls = []

end

section
variable {world : World ι} {units : Units} {config : Configuration} {calls : List ((Nat × ι) × Call)}
  {out : List (Option Nat × Effect)} {s s' : Process ι}

theorem isolated_start (beyond : Nat → Tid) : Isolated world units config [] [] (Process.start world beyond) where
  joins := joinInv_start world beyond
  jobs := rfl
  behaves := ⟨fun _ => none, ⟨⟨[], Tracks.init _⟩, fun _ _ => rfl⟩, fun _ _ hk => by cases hk⟩
  absent _ _ := ⟨rfl, fun _ => rfl⟩

omit [DecidableEq ι] in
theorem belonging_of_changes {a : Act ι} {es : List Effect} (h : a.thread? = none ∨ es = []) (k : Nat) :
    Proc.belonging (some k) (out ++ es.map (Prod.mk a.thread?)) = Proc.belonging (some k) out := by
  rw [Proc.belonging_append]
  rcases h with hnone | rfl
  · rw [hnone, Proc.belonging_map_ne (Option.some_ne_none k), List.append_nil]
  · exact List.append_nil _

theorem Isolated.started {a : Act ι} {es : List Effect} {new : List (Tid × Job)}
    (h : Isolated world units config calls out s) (hjoins : JoinInv units config s')
    (hout : a.thread? = none ∨ es = []) (hstore : s'.store = s.store)
    (hcreated : s'.main.created = s.main.created ++ new)
    (hthreads : s'.threads = s.threads ++ new.map fun t => t.2.thread) :
    Isolated world units config calls (out ++ es.map (Prod.mk a.thread?)) s' where
  joins := hjoins
  jobs := by
    rw [hthreads, hcreated, List.map_append, List.map_append, h.jobs, List.map_map]
    congr 1
    exact List.map_congr_left fun t _ => job_thread t.2
  behaves := by
    obtain ⟨conCls, hheap, hall⟩ := h.behaves
    refine ⟨conCls, hstore ▸ hheap, fun k thread hk => ?_⟩
    rw [belonging_of_changes hout]
    rw [hthreads] at hk
    by_cases hlt : k < s.threads.length
    · rw [List.getElem?_append_left hlt] at hk
      exact hall k thread hk
    · rw [List.getElem?_append_right (Nat.le_of_not_lt hlt)] at hk
      obtain ⟨hnone, hcalls⟩ := h.absent k (Nat.le_of_not_lt hlt)
      rw [hnone]
      obtain ⟨t, -, rfl⟩ := List.mem_map.mp (List.mem_of_getElem? hk)
      exact behaves_start t.2 hcalls
  absent k hk := by
    rw [belonging_of_changes hout]
    rw [hthreads, List.length_append] at hk
    exact h.absent k (Nat.le_of_add_right_le hk)

theorem Isolated.interrupted {a : Act ι} {es : List Effect} {j : Nat} (h : Isolated world units config calls out s)
    (hjoins : JoinInv units config s') (hout : a.thread? = none) (hstore : s'.store = s.store)
    (hcreated : s'.main.created = s.main.created) (hthreads : s'.threads = s.threads.modify j UnitThread.interrupt) :
    Isolated world units config calls (out ++ es.map (Prod.mk a.thread?)) s' where
  joins := hjoins
  jobs := by
    rw [hthreads, hcreated, ← h.jobs]
    refine List.ext_getElem? fun k => ?_
    simp only [List.getElem?_map, List.getElem?_modify]
    cases s.threads[k]? with
    | none => rfl
    | some thread => split <;> simp
  behaves := by
    obtain ⟨conCls, hheap, hall⟩ := h.behaves
    refine ⟨conCls, hstore ▸ hheap, fun k thread hk => ?_⟩
    rw [belonging_of_changes (.inl hout)]
    rw [hthreads, List.getElem?_modify] at hk
    obtain ⟨old, hold, rfl⟩ := Option.map_eq_some_iff.mp hk
    split
    · exact (hall k old hold).interrupt
    · exact hall k old hold
  absent k hk := by
    rw [belonging_of_changes (.inl hout)]
    rw [hthreads, List.length_modify] at hk
    exact h.absent k hk

theorem Isolated.stepped {j : Nat} {env : UnitEnv ι} {es : List Effect} {thread thread' : UnitThread ι}
    (h : Isolated world units config calls out s) (hjoins : JoinInv units config s') (hj : s.threads[j]? = some thread)
    (hp : ∀ i, (world.req i).method = postMethod → Protocol (callsOf (j, i) (calls ++ ofThread j (thread.takes env))))
    (hstep : thread.step world config env s.store = ⟨es, .ok (thread', s'.store)⟩)
    (hcreated : s'.main.created = s.main.created) (hthreads : s'.threads = s.threads.set j thread') :
    Isolated world units config (calls ++ ofThread j (thread.takes env)) (out ++ es.map (Prod.mk (some j))) s' := by
  have hlt := (List.getElem?_eq_some_iff.mp hj).1
  have hjob : (s.threads.map UnitThread.job)[j]? = some thread'.job := by
    rw [List.getElem?_map, hj, job_step (congrArg Proc.res hstep)]
    rfl
  have hother : ∀ k i, k ≠ j → callsOf (k, i) (calls ++ ofThread j (thread.takes env)) = callsOf (k, i) calls := by
    intro k i hkj
    rw [callsOf_append, callsOf_ofThread_ne hkj, List.append_nil]
  obtain ⟨conCls, hheap, hall⟩ := h.behaves
  obtain ⟨conCls', hheap', hconCls, hbehaves⟩ := (hall j thread hj).step hheap hp hstep
  refine ⟨hjoins, ?_, ⟨conCls', hheap', fun k t hk => ?_⟩, fun k hk => ?_⟩
  · obtain ⟨_, hget⟩ := List.getElem?_eq_some_iff.mp hjob
    rw [hthreads, hcreated, List.map_set, ← hget, List.set_getElem_self, h.jobs]
  · rw [Proc.belonging_append]
    rw [hthreads] at hk
    by_cases hjk : j = k
    · subst hjk
      rw [List.getElem?_set_self hlt] at hk
      cases hk
      rw [Proc.belonging_map_self]
      exact hbehaves
    · rw [List.getElem?_set_ne hjk] at hk
      rw [Proc.belonging_map_ne fun heq => hjk (Option.some.inj heq).symm, List.append_nil]
      exact (hall k t hk).frame (fun i => hother k i (Ne.symm hjk)) fun i => hconCls k i (Ne.symm hjk)
  · rw [hthreads, List.length_set] at hk
    have hkj : k ≠ j := by omega
    obtain ⟨hnone, hcalls⟩ := h.absent k hk
    rw [Proc.belonging_append, hnone, Proc.belonging_map_ne fun heq => hkj (Option.some.inj heq), List.append_nil]
    exact ⟨rfl, fun i => (hother k i hkj).trans (hcalls i)⟩

theorem Isolated.step {a : Act ι} (h : Isolated world units config calls out s)
    (hp : ∀ k i, (world.req i).method = postMethod → Protocol (callsOf (k, i) (calls ++ s.calls a)))
    (hs : (s.stepBy world units config a).res = .ok s') :
    Isolated world units config (calls ++ s.calls a) (out ++ (s.stepBy world units config a).out) s' := by
  rw [Process.stepBy, Proc.mapOut_res] at hs
  rw [Process.stepBy, Proc.mapOut_out]
  have hjoins := h.joins.step hs
  cases step_changes hs with
  | started new hout hquiet hstore hcreated hthreads =>
    rw [hquiet, List.append_nil]
    exact h.started hjoins hout hstore hcreated hthreads
  | interrupted k hout hquiet hstore hcreated hthreads =>
    rw [hquiet, List.append_nil]
    exact h.interrupted hjoins hout hstore hcreated hthreads
  | stepped k env thread thread' ha hcalls hk hstep hcreated hthreads =>
    subst ha
    rw [hcalls] at hp ⊢
    exact h.stepped hjoins hk (hp k) hstep hcreated hthreads

theorem Isolated.jobs_sublist (h : Isolated world units config calls out s) :
    (s.threads.map UnitThread.job).Sublist (enabledJobs units config) := by
  obtain ⟨_, htable⟩ := h.joins.table
  rw [h.jobs, htable.jobs]
  exact jobsBefore_sublist _

theorem Isolated.begins (h : Isolated world units config calls out s) {k : Nat} {thread : UnitThread ι}
    (hk : s.threads[k]? = some thread) : thread.job.Begins world (Proc.belonging (some k) out) := by
  have hjob : thread.job ∈ s.threads.map UnitThread.job := List.mem_map.mpr ⟨thread, List.mem_of_getElem? hk, rfl⟩
  obtain ⟨conCls, -, hall⟩ := h.behaves
  exact (hall k thread hk).begins (h.jobs_sublist.subset hjob)

theorem Isolated.ends {k : Nat} {env : UnitEnv ι} {thread : UnitThread ι} {es : List Effect} {e : Halt}
    (h : Isolated world units config calls out s) (hk : s.threads[k]? = some thread)
    (hp : ∀ i, (world.req i).method = postMethod → Protocol (callsOf (k, i) (calls ++ ofThread k (thread.takes env))))
    (hs : thread.step world config env s.store = ⟨es, .error e⟩) :
    thread.job.Ends world (Proc.belonging (some k) (out ++ es.map (Prod.mk (some k)))) e := by
  have hjob : thread.job ∈ s.threads.map UnitThread.job := List.mem_map.mpr ⟨thread, List.mem_of_getElem? hk, rfl⟩
  obtain ⟨conCls, hheap, hall⟩ := h.behaves
  rw [Proc.belonging_append, Proc.belonging_map_self]
  exact (hall k thread hk).ends hheap hp (h.jobs_sublist.subset hjob) hs

/-- Every run is isolated as far as it gets, and its last step may still be one that ends the process. -/
theorem isolated_of_run {beyond : Nat → Tid} {acts : List (Act ι)}
    (hp : CalledAsDocumented world units config beyond acts) :
    ∃ calls out s, Isolated world units config calls out s ∧
      (acts.foldlM (Process.stepBy world units config) (Process.start world beyond) = ⟨out, .ok s⟩ ∨
        ∃ a e, a ∈ acts ∧ (s.stepBy world units config a).res = .error e ∧
          (∀ k i, (world.req i).method = postMethod → Protocol (callsOf (k, i) (calls ++ s.calls a))) ∧
          acts.foldlM (Process.stepBy world units config) (Process.start world beyond) =
            ⟨out ++ (s.stepBy world units config a).out, .error e⟩) := by
  have hstays : ∀ {done : List (Act ι)} {s : Process ι} {a rest},
      (done.foldlM (Process.stepBy world units config) (Process.start world beyond)).res = .ok s →
      acts = done ++ a :: rest → ∀ k i, (world.req i).method = postMethod → Protocol (callsOf (k, i)
        (Proc.gathered (Process.stepBy world units config) Process.calls (Process.start world beyond) done ++
          s.calls a)) := by
    intro done s a rest hdone hacts k i hi
    have hmade := hp k i hi
    rw [hacts] at hmade
    exact hmade.mono (callsOf_mono _ (Proc.gathered_prefix _ hdone a rest))
  obtain ⟨out, s, ⟨hrun, hinv⟩, hend⟩ := @Proc.run_inv _ _ _ _ (Process.stepBy world units config)
    (fun done out s => (done.foldlM (Process.stepBy world units config) (Process.start world beyond)).res = .ok s ∧
      Isolated world units config
        (Proc.gathered (Process.stepBy world units config) Process.calls (Process.start world beyond) done) out s)
    (Process.start world beyond) acts ⟨rfl, isolated_start beyond⟩ fun done out s a s' hpre h hs => by
      obtain ⟨rest, hrest⟩ := hpre
      rw [List.append_assoc] at hrest
      obtain ⟨hdone, hinv⟩ := h
      refine ⟨?_, ?_⟩
      · rw [Proc.foldlM_snoc, Proc.bind_of_ok hdone]
        exact hs
      · rw [Proc.gathered_snoc _ hdone]
        exact hinv.step (hstays hdone hrest.symm) hs
  refine ⟨_, out, s, hinv, ?_⟩
  cases hend with
  | all _ hp => exact Or.inl hp
  | halted a rest e hacts hres hp =>
    exact Or.inr ⟨a, e, by rw [hacts]; simp, hres, hstays hrun hacts, hp⟩

end

/-- **Threads do not meet on the heap that they share**: as long as each request is called as libmicrohttpd documents
and the terminator of each body has room in its buffer, the units that run are enabled ones, in order, and what each of
them does is how a run of it with a heap of its own begins, in any interleaving with `main`, the handlers and each
other. -/
theorem threads_run_units {world : World ι} {units : Units} {config : Configuration} {beyond : Nat → Tid}
    {acts : List (Act ι)} {out : List (Option Nat × Effect)} {s : Process ι}
    (hp : CalledAsDocumented world units config beyond acts)
    (hrun : acts.foldlM (Process.stepBy world units config) (Process.start world beyond) = ⟨out, .ok s⟩) :
    (s.threads.map UnitThread.job).Sublist (enabledJobs units config) ∧
    (∀ (k : Nat) (thread : UnitThread ι), s.threads[k]? = some thread →
      thread.job.Begins world (Proc.belonging (some k) out)) ∧
    ∀ k, s.threads.length ≤ k → Proc.belonging (some k) out = [] := by
  obtain ⟨calls, out', s', hinv, hall | ⟨a, e, -, -, -, hend⟩⟩ := isolated_of_run hp
  · rw [hrun] at hall
    cases hall
    exact ⟨hinv.jobs_sublist, fun k thread hk => hinv.begins hk, fun k hk => (hinv.absent k hk).1⟩
  · rw [hrun] at hend
    cases hend

end

/-- Two units that serve requests. -/
def servers : Units where
  mqtt2rest := []
  rest2mqtt := [sampleRest2Mqtt rootA, { sampleRest2Mqtt rootB with listenPort := 9001 }]
  found := by decide
  bounded := by decide

def runBy (units : Units) (acts : List (Act Unit)) : Proc (Option Nat × Effect) Halt (Process Unit) :=
  acts.foldlM (Process.stepBy sampleWorld units sampleConfiguration) (Process.start sampleWorld fun _ => 0)

/-- A wait that returns, and these calls. -/
def serveActs (k : Nat) (calls : List (Unit × Call)) : List (Act Unit) :=
  List.replicate 3 (.unit k { rest2mqttEnvWith .success calls with setup := setupWith .success })

/-- Each thread has a request under way, and the allocator offers both of them the same addresses. -/
def sharingActs : List (Act Unit) :=
  mainActs 4 ++ unitActs 0 1 ++ unitActs 1 1 ++
    serveActs 0 ((requestCalls (bytes "abc") .success).take 1) ++
    serveActs 1 ((requestCalls (bytes "xyz") .success).take 1) ++
    serveActs 0 ((requestCalls (bytes "abc") .success).drop 1) ++
    serveActs 1 ((requestCalls (bytes "xyz") .success).drop 1)

/-- The calls of a run, by what they carry. -/
theorem calledAsDocumented_of_chunks {units : Units} {acts : List (Act Unit)} (chunks : List (Nat × List Byte))
    (hmade : (Proc.gathered (Process.stepBy sampleWorld units sampleConfiguration) Process.calls
      (Process.start sampleWorld fun _ => 0) acts).map (fun e => (e.1.1, e.2.chunk)) = chunks)
    (hp : ∀ k, Protocol (chunks.filterMap fun e => if e.1 = k then some e.2 else none)) :
    CalledAsDocumented sampleWorld units sampleConfiguration (fun _ => 0) acts := by
  intro k i _
  have hk := hp k
  rw [← hmade, List.filterMap_map] at hk
  rw [callsOf]
  convert hk using 3 with e
  simp [Prod.ext_iff]

theorem protocol_nil : Protocol [] := ⟨[], by simp, List.nil_prefix⟩

theorem threads_run_sharingActs : ∃ s, (runBy servers sharingActs).res = .ok s ∧
    publishes (Proc.belonging (some 0) (runBy servers sharingActs).out) = [⟨bytes "lamp/on", bytes "abc", 1, .success⟩] ∧
    publishes (Proc.belonging (some 1) (runBy servers sharingActs).out) = [⟨bytes "lamp/on", bytes "xyz", 1, .success⟩] ∧
    ∀ (k : Nat) (thread : UnitThread Unit), s.threads[k]? = some thread →
      thread.job.Begins sampleWorld (Proc.belonging (some k) (runBy servers sharingActs).out) := by
  have hdoc : CalledAsDocumented sampleWorld servers sampleConfiguration (fun _ => 0) sharingActs := by
    refine calledAsDocumented_of_chunks [(0, []), (1, []), (0, bytes "abc"), (0, []), (1, bytes "xyz"), (1, [])]
      (by decide +kernel) fun k => ?_
    match k with
    | 0 => exact ⟨[bytes "abc"], by decide, by decide⟩
    | 1 => exact ⟨[bytes "xyz"], by decide, by decide⟩
    | k + 2 => exact protocol_nil
  have hok : ((runBy servers sharingActs).res.map fun _ => ()) = .ok () := by decide +kernel
  obtain ⟨s, hrun, -⟩ := Proc.eq_ok_of_map hok
  exact ⟨s, congrArg Proc.res hrun, by decide +kernel, by decide +kernel, (threads_run_units hdoc hrun).2.1⟩

end Mqrestt
