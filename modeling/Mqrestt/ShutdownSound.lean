import Mqrestt.Shutdown
import Mqrestt.ThreadsSound

/-!
# The end of the units on `SIGINT`

The handler's signals are heeded by the threads that they find in `poll`, and a thread that
is started later gets none. So no thread begins another `poll` if each signal finds its
thread there, and the handler returns only when all threads are started.
-/

namespace Mqrestt
open CSem

/-! ## The threads run the units -/

theorem mqtt2restIteration_eq (w : LongWidth) (u : Mqtt2RestUnitConfiguration) (config : Configuration)
    (h : MqttClientHandle) (env : Mqtt2RestEnv) : mqtt2restIteration w (pollTimeout config) h env =
      (mqtt2restPoller w u config).iteration h (env.socket, env.poll.outcome, env.loop) := by
  unfold mqtt2restIteration Poller.iteration mqtt2restPoller
  obtain ⟨socket, poll, loop⟩ := env
  simp only [bind_assoc]
  congr 1
  funext goesOn
  cases goesOn with
  | false => rfl
  | true => cases poll <;> rfl

theorem mqtt2restUnitRun_eq (w : LongWidth) {u : Mqtt2RestUnitConfiguration} {config : Configuration}
    (hc : u.commonConfiguration = some config) (setup : SetupEnv) (envs : List Mqtt2RestEnv) :
    mqtt2restUnitRun w (some u) setup envs = (mqtt2restPoller w u config).program setup
      (envs.map fun env => (env.socket, env.poll.outcome, env.loop)) := by
  unfold mqtt2restUnitRun Poller.program
  simp only [hc, ← Proc.loop_map (mqtt2restIteration_eq w u config)]
  simp only [mqtt2restPoller, bind_assoc, pure_bind]
  refine bind_congr fun _ => bind_congr fun h => bind_congr fun x => bind_congr fun flow => ?_
  cases flow <;> rfl

variable {ι : Type}

/-- **A thread of the process does what the run of its unit does.** -/
theorem mqtt2restUnitRun_follows (w : LongWidth) {u : Mqtt2RestUnitConfiguration} {config : Configuration}
    (hc : u.commonConfiguration = some config) (setup : SetupEnv) (envs : List Mqtt2RestEnv) (env : Mqtt2RestEnv) :
    (mqtt2restPoller w u config).Follows .starting (Poller.atEnd <$> mqtt2restUnitRun w (some u) setup envs) := by
  rw [mqtt2restUnitRun_eq w hc]
  exact Poller.program_follows setup _ env.socket env.poll.outcome env.loop

def PollResult.ofOutcome : Except Bool (Bool × Bool) → PollResult
  | .error eintr => .failed eintr
  | .ok (pollin, pollout) => .ready pollin pollout

theorem PollResult.outcome_ofOutcome (r : Except Bool (Bool × Bool)) : (PollResult.ofOutcome r).outcome = r := by
  cases r <;> rfl

/-- **What a thread of the process has done is how a run of its unit begins**, whatever interrupts it got. -/
theorem mqtt2restUnitRun_begins (w : LongWidth) {u : Mqtt2RestUnitConfiguration} {config : Configuration}
    (hc : u.commonConfiguration = some config) {evs : List (Poller.Event SetupEnv SocketEnv (Bool × Bool) LoopEnv)}
    {out : List Effect} {ph : Poller.Phase MqttClientHandle (Bool × Bool)}
    (h : evs.foldlM (mqtt2restPoller w u config).event .starting = ⟨out, .ok ph⟩) (setup : SetupEnv) (loop : LoopEnv) :
    ∃ setup envs, out <+: (mqtt2restUnitRun w (some u) setup envs).out := by
  obtain ⟨setup, is, hp⟩ := (Poller.trace_of_events h).prefix_program setup loop
  refine ⟨setup, is.map fun i => ⟨i.1, PollResult.ofOutcome i.2.1, i.2.2⟩, ?_⟩
  rw [mqtt2restUnitRun_eq w hc, List.map_map]
  simpa [Function.comp_def, PollResult.outcome_ofOutcome] using hp

section
variable [DecidableEq ι]

theorem rest2mqttIteration_eq (w : LongWidth) (req : ι → Request) (st : Store) (u : Rest2MqttUnitConfiguration)
    (config : Configuration) (s : UnitState ι) (env : Rest2MqttEnv ι) :
    rest2mqttIteration w req (pollTimeout config) s env = (rest2mqttPoller w req st u config).iteration s
      ((env.fdset, env.socket), env.poll.outcome, (env.calls, env.loop)) := by
  unfold rest2mqttIteration Poller.iteration rest2mqttPoller
  obtain ⟨fdset, socket, poll, calls, loop⟩ := env
  simp only [bind_assoc]
  congr 1
  funext goesOn
  cases goesOn with
  | false => rfl
  | true =>
    simp only [Bool.not_true, Bool.false_eq_true, if_false, bind_assoc, pure_bind]
    cases poll <;> rfl

theorem rest2mqttUnitRun_eq (w : LongWidth) (req : ι → Request) (st : Store) {u : Rest2MqttUnitConfiguration}
    {config : Configuration} (hc : u.commonConfiguration = some config) (setup : SetupEnv)
    (envs : List (Rest2MqttEnv ι)) :
    rest2mqttUnitRun w req st (some u) setup envs = (rest2mqttPoller w req st u config).program setup
      (envs.map fun env => ((env.fdset, env.socket), env.poll.outcome, (env.calls, env.loop))) := by
  unfold rest2mqttUnitRun Poller.program
  simp only [hc, ← Proc.loop_map (rest2mqttIteration_eq w req st u config)]
  simp only [rest2mqttPoller, bind_assoc, pure_bind]
  refine bind_congr fun _ => bind_congr fun h => bind_congr fun x => bind_congr fun _ => bind_congr fun flow => ?_
  cases flow <;> rfl

theorem rest2mqttUnitRun_follows (w : LongWidth) (req : ι → Request) (st : Store) {u : Rest2MqttUnitConfiguration}
    {config : Configuration} (hc : u.commonConfiguration = some config) (setup : SetupEnv)
    (envs : List (Rest2MqttEnv ι)) (env : Rest2MqttEnv ι) : (rest2mqttPoller w req st u config).Follows .starting
      (Poller.atEnd <$> rest2mqttUnitRun w req st (some u) setup envs) := by
  rw [rest2mqttUnitRun_eq w req st hc]
  exact Poller.program_follows setup _ (env.fdset, env.socket) env.poll.outcome (env.calls, env.loop)

theorem rest2mqttUnitRun_begins (w : LongWidth) (req : ι → Request) (st : Store) {u : Rest2MqttUnitConfiguration}
    {config : Configuration} (hc : u.commonConfiguration = some config)
    {evs : List (Poller.Event SetupEnv (FdsetEnv × SocketEnv) (Bool × Bool) (List (ι × Call) × LoopEnv))}
    {out : List (Option ι × Effect)} {ph : Poller.Phase (UnitState ι) (Bool × Bool)}
    (h : evs.foldlM (rest2mqttPoller w req st u config).event .starting = ⟨out, .ok ph⟩) (setup : SetupEnv)
    (loop : LoopEnv) : ∃ setup envs, out <+: (rest2mqttUnitRun w req st (some u) setup envs).out := by
  obtain ⟨setup, is, hp⟩ := (Poller.trace_of_events h).prefix_program setup ([], loop)
  refine ⟨setup, is.map fun i => ⟨i.1.1, i.1.2, PollResult.ofOutcome i.2.1, i.2.2.1, i.2.2.2⟩, ?_⟩
  rw [rest2mqttUnitRun_eq w req st hc, List.map_map]
  simpa [Function.comp_def, PollResult.outcome_ofOutcome] using hp

/-! ## Threads that are done -/

def Effect.isPoll : Effect → Bool
  | .poll .. => true
  | _ => false

def NoPoll (out : List Effect) : Prop := ∀ e ∈ out, e.isPoll = false

theorem noPoll : Proc.Compositional NoPoll := Proc.compositional_forall _

theorem noPoll_nil : NoPoll [] := noPoll.nil

@[simp] theorem noPoll_cons (e : Effect) (out : List Effect) : NoPoll (e :: out) ↔ e.isPoll = false ∧ NoPoll out :=
  List.forall_mem_cons

theorem noPoll_pollFailed (eintr : Bool) : NoPoll (pollFailed eintr).out := by
  cases eintr with
  | false => exact (noPoll_cons _ _).mpr ⟨rfl, noPoll_nil⟩
  | true => exact noPoll_nil

theorem UnitThread.done_step {world : World ι} {config : Configuration} {env : UnitEnv ι} {st st' : Store}
    {thread thread' : UnitThread ι} (h : thread.done = true)
    (hs : (thread.step world config env st).res = .ok (thread', st')) : thread'.done = true := by
  cases thread with
  | mqtt2rest u phase =>
    obtain ⟨phase', hres, hp, -⟩ := Proc.bind_eq_ok hs
    cases hp
    exact Poller.done_step (p := mqtt2restPoller world.w u config) h hres
  | rest2mqtt u phase =>
    obtain ⟨phase', hres, hp, -⟩ := Proc.bind_eq_ok hs
    cases hp
    rw [Proc.mapOut_res] at hres
    have hdone : (phase.map (onHeap st)).done = true := by
      rw [Poller.Phase.done_map]
      exact h
    have hdone' := Poller.done_step (p := rest2mqttPoller world.w world.req st u config) hdone hres
    exact (Poller.Phase.done_map ownState phase').trans hdone'

theorem UnitThread.noPoll_step {thread : UnitThread ι} (h : thread.done = true) (world : World ι) (config : Configuration)
    (env : UnitEnv ι) (st : Store) : NoPoll (thread.step world config env st).out := by
  cases thread with
  | mqtt2rest u phase =>
    refine noPoll.bind ?_ fun _ _ => noPoll_nil
    refine Poller.out_of_done noPoll noPoll_pollFailed (fun h => ?_) h _
    exact (noPoll_cons _ _).mpr ⟨rfl, noPoll_nil⟩
  | rest2mqtt u phase =>
    refine noPoll.bind ?_ fun _ _ => noPoll_nil
    have hdone : (phase.map (onHeap st)).done = true := by
      rw [Poller.Phase.done_map]
      exact h
    have hpoll : ∀ e ∈ ((rest2mqttPoller world.w world.req st u config).step (phase.map (onHeap st))
        env.rest2mqtt).out, e.2.isPoll = false := by
      refine Poller.out_of_done (Proc.compositional_forall fun e : Option ι × Effect => e.2.isPoll = false) ?_ ?_ hdone _
      · intro eintr e he
        obtain ⟨e', he', rfl⟩ := List.mem_map.mp he
        exact noPoll_pollFailed eintr e' he'
      · intro s e he
        fin_cases he <;> rfl
    intro e he
    obtain ⟨e', he', rfl⟩ := List.mem_map.mp he
    exact hpoll e' he'

end

theorem UnitThread.done_interrupt {thread : UnitThread ι} (h : thread.heeds = true) : thread.interrupt.done = true := by
  cases thread with
  | mqtt2rest u phase => exact Poller.Phase.done_interrupt h
  | rest2mqtt u phase => exact Poller.Phase.done_interrupt h

theorem UnitThread.done_interrupt_of_done {thread : UnitThread ι} (h : thread.done = true) :
    thread.interrupt.done = true := by
  cases thread with
  | mqtt2rest u phase => exact Poller.Phase.done_interrupt_of_done h
  | rest2mqtt u phase => exact Poller.Phase.done_interrupt_of_done h

/-! ## The threads of a process -/

/-- The same threads, and those that were done still are. -/
def Keeps (ts ts' : List (UnitThread ι)) : Prop :=
  ts'.length = ts.length ∧ ∀ (k : Nat) (thread' : UnitThread ι), ts'[k]? = some thread' →
    ∃ thread : UnitThread ι, ts[k]? = some thread ∧ (thread.done = true → thread'.done = true)

theorem Keeps.refl (ts : List (UnitThread ι)) : Keeps ts ts := ⟨rfl, fun _ thread' h => ⟨thread', h, id⟩⟩

theorem keeps_set {ts : List (UnitThread ι)} {k : Nat} {thread thread' : UnitThread ι} (hk : ts[k]? = some thread)
    (hd : thread.done = true → thread'.done = true) : Keeps ts (ts.set k thread') := by
  refine ⟨List.length_set, fun j t h => ?_⟩
  by_cases hj : k = j
  · subst hj
    rw [List.getElem?_set_self (List.getElem?_eq_some_iff.mp hk).1] at h
    cases h
    exact ⟨thread, hk, hd⟩
  · rw [List.getElem?_set_ne hj] at h
    exact ⟨t, h, id⟩

theorem keeps_modify (ts : List (UnitThread ι)) (k : Nat) : Keeps ts (ts.modify k UnitThread.interrupt) := by
  refine ⟨List.length_modify .., fun j t h => ?_⟩
  rw [List.getElem?_modify] at h
  obtain ⟨thread, hthread, rfl⟩ := Option.map_eq_some_iff.mp h
  refine ⟨thread, hthread, fun hd => ?_⟩
  split
  · exact UnitThread.done_interrupt_of_done hd
  · exact hd

theorem Keeps.all_done {ts ts' : List (UnitThread ι)} (h : Keeps ts ts') (hd : ∀ thread ∈ ts, thread.done = true) :
    ∀ thread ∈ ts', thread.done = true := by
  intro thread' hmem
  obtain ⟨k, hk⟩ := List.mem_iff_getElem?.mp hmem
  obtain ⟨thread, hthread, hkeep⟩ := h.2 k thread' hk
  exact hkeep (hd thread (List.mem_of_getElem? hthread))

/-- The threads before `i` are done; `i` is not past the end, unless no thread can be added any more. -/
def ScannedTo (ts : List (UnitThread ι)) (i : Nat) : Prop :=
  (i ≤ ts.length ∨ ts.length = maxUnitNum) ∧ ∀ k < i, ∀ thread, ts[k]? = some thread → thread.done = true

theorem scannedTo_zero (ts : List (UnitThread ι)) : ScannedTo ts 0 :=
  ⟨.inl (Nat.zero_le _), fun _ hk => absurd hk (Nat.not_lt_zero _)⟩

theorem ScannedTo.keeps {ts ts' : List (UnitThread ι)} {i : Nat} (h : ScannedTo ts i) (hk : Keeps ts ts') :
    ScannedTo ts' i := by
  refine ⟨by rw [hk.1]; exact h.1, fun k hlt thread' hthread' => ?_⟩
  obtain ⟨thread, hthread, hkeep⟩ := hk.2 k thread' hthread'
  exact hkeep (h.2 k hlt thread hthread)

theorem ScannedTo.append {ts : List (UnitThread ι)} {i : Nat} (h : ScannedTo ts i) (hlt : ts.length < maxUnitNum)
    (thread : UnitThread ι) : ScannedTo (ts ++ [thread]) i := by
  have hi : i ≤ ts.length := by
    have := h.1
    omega
  refine ⟨.inl (by rw [List.length_append]; omega), fun k hk thread' hthread' => ?_⟩
  rw [List.getElem?_append_left (by omega)] at hthread'
  exact h.2 k hk thread' hthread'

theorem ScannedTo.all {ts : List (UnitThread ι)} {i : Nat} (h : ScannedTo ts i) (hi : ts.length ≤ i) :
    ∀ thread ∈ ts, thread.done = true := by
  intro thread hmem
  obtain ⟨k, hk⟩ := List.mem_iff_getElem?.mp hmem
  have hlt := (List.getElem?_eq_some_iff.mp hk).1
  exact h.2 k (by omega) thread hk

/-! ## What holds between the steps -/

section
variable (units : Units) (config : Configuration)

structure Tracked (s : Process ι) : Prop where
  table : ∃ out, TableInv units config out s.main
  parallel : s.threads.length = s.main.created.length

structure Stopped (s : Process ι) : Prop extends Tracked units config s where
  done : ∀ thread ∈ s.threads, thread.done = true
  started : jobsBefore units config s.main.pc = enabledJobs units config

structure ShutdownInv (s : Process ι) : Prop extends Tracked units config s where
  scanned : ∀ p i, s.handling p = some i → ScannedTo s.threads i
  stopped : s.handled = true → Stopped units config s

/-- Each signal finds its thread in `poll` or past the loop, and the handler returns when all are started. -/
def Process.heeded (s : Process ι) : Act ι → Bool
  | .handler p _ =>
    match s.handling p with
    | none => true
    | some i =>
      if s.main.threads i = 0 then decide (jobsBefore units config s.main.pc = enabledJobs units config)
      else s.threads[s.indexOf (s.main.threads i)]?.all UnitThread.heeds
  | _ => true

end

/-! ## Steps -/

/-- A step of a thread, a signal or the handler: `main` and what is done stay. -/
structure Carries (s s' : Process ι) : Prop where
  main : s'.main = s.main
  threads : Keeps s.threads s'.threads

theorem Carries.refl (s : Process ι) : Carries s s := ⟨rfl, Keeps.refl s.threads⟩

section
variable {units : Units} {config : Configuration} {s s' : Process ι}

theorem Tracked.carries (h : Tracked units config s) (hc : Carries s s') : Tracked units config s' where
  table := by rw [hc.main]; exact h.table
  parallel := by rw [hc.threads.1, hc.main, h.parallel]

theorem Stopped.carries (h : Stopped units config s) (hc : Carries s s') : Stopped units config s' where
  toTracked := h.toTracked.carries hc
  done := hc.threads.all_done h.done
  started := by rw [hc.main, h.started]

theorem mainStep_cases {res : CreateResult} (ht : Tracked units config s)
    (h : (s.mainStep units config res).res = .ok s') :
    Tracked units config s' ∧ s'.handling = s.handling ∧ s'.handled = s.handled ∧
      ((s'.threads = s.threads ∧ jobsBefore units config s'.main.pc = jobsBefore units config s.main.pc) ∨
        ∃ thread job, s'.threads = s.threads ++ [thread] ∧
          jobsBefore units config s'.main.pc = jobsBefore units config s.main.pc ++ [job]) := by
  unfold Process.mainStep at h
  split at h
  · cases h
    exact ⟨ht, rfl, rfl, .inl ⟨rfl, rfl⟩⟩
  obtain ⟨main, hmain, hres, -⟩ := Proc.bind_eq_ok h
  cases hres
  have hmoves := mainStep_moves hmain
  obtain ⟨out, htable⟩ := ht.table
  have hpar := ht.parallel
  rcases hmoves.created with ⟨hcreated, hjobs⟩ | ⟨t, job, hcreated, hjobs⟩
  · refine ⟨⟨⟨_, htable.moves hmoves⟩, ?_⟩, rfl, rfl, .inl ⟨?_, hjobs⟩⟩
    · simp [hcreated, hpar]
    · simp [hcreated]
  · refine ⟨⟨⟨_, htable.moves hmoves⟩, ?_⟩, rfl, rfl, .inr ⟨job.thread, job, ?_, hjobs⟩⟩
    · simp [hcreated, hpar]
    · simp [hcreated]

theorem unitStep_cases [DecidableEq ι] {world : World ι} {k : Nat} {env : UnitEnv ι}
    (h : (s.unitStep world config k env).res = .ok s') :
    Carries s s' ∧ s'.handling = s.handling ∧ s'.handled = s.handled := by
  unfold Process.unitStep at h
  split at h
  · cases h
    exact ⟨Carries.refl s, rfl, rfl⟩
  split at h
  next =>
    cases h
    exact ⟨Carries.refl s, rfl, rfl⟩
  next thread hk =>
    obtain ⟨⟨thread', st⟩, hthread', hres, -⟩ := Proc.bind_eq_ok h
    cases hres
    exact ⟨⟨rfl, keeps_set hk fun hd => UnitThread.done_step hd hthread'⟩, rfl, rfl⟩

theorem sigint_cases {p : Party} {env : SignalEnv} (h : (s.sigint p env).res = .ok s') :
    Carries s s' ∧ s'.handled = s.handled ∧ ∀ q, s'.handling q = s.handling q ∨ s'.handling q = some 0 := by
  unfold Process.sigint at h
  split at h
  · cases h
    exact ⟨Carries.refl s, rfl, fun q => .inl rfl⟩
  obtain ⟨_, _, hres, -⟩ := Proc.bind_eq_ok h
  have hhandling : ∀ q, Function.update s.handling p (some 0) q = s.handling q ∨
      Function.update s.handling p (some 0) q = some 0 := by
    intro q
    by_cases hq : q = p
    · exact .inr (by rw [hq, Function.update_self])
    · exact .inl (Function.update_of_ne hq _ _)
  cases p with
  | main =>
    cases hres
    exact ⟨⟨rfl, Keeps.refl s.threads⟩, rfl, hhandling⟩
  | unit k =>
    cases hres
    exact ⟨⟨rfl, keeps_modify s.threads k⟩, rfl, hhandling⟩

theorem handlerStep_cases {p : Party} {survives : Bool} (h : (s.handlerStep p survives).res = .ok s') :
    (s.handling p = none ∧ s' = s) ∨
    (∃ i, s.handling p = some i ∧ s.main.threads i = 0 ∧
      s' = { s with handling := Function.update s.handling p none, handled := true }) ∨
    ∃ i, s.handling p = some i ∧ s.main.threads i ≠ 0 ∧ s' = { s with
      handling := Function.update s.handling p (some (i + 1))
      threads := s.threads.modify (s.indexOf (s.main.threads i)) UnitThread.interrupt } := by
  unfold Process.handlerStep at h
  cases hp : s.handling p with
  | none =>
    rw [hp] at h
    cases h
    exact .inl ⟨rfl, rfl⟩
  | some i =>
    rw [hp] at h
    dsimp only at h
    by_cases hi : s.main.threads i = 0
    · rw [killStep_zero hi] at h
      cases h
      exact .inr (.inl ⟨i, rfl, hi, rfl⟩)
    · rw [killStep_nonzero hi, Proc.mk_ok_bind] at h
      dsimp only at h
      split at h
      · cases h
      · cases h
        exact .inr (.inr ⟨i, rfl, hi, rfl⟩)

theorem handlerStep_carries {p : Party} {survives : Bool} (h : (s.handlerStep p survives).res = .ok s') :
    Carries s s' := by
  rcases handlerStep_cases h with ⟨-, rfl⟩ | ⟨i, -, -, rfl⟩ | ⟨i, -, -, rfl⟩
  · exact Carries.refl _
  · exact ⟨rfl, Keeps.refl _⟩
  · exact ⟨rfl, keeps_modify _ _⟩

theorem Stopped.main {res : CreateResult} (h : Stopped units config s)
    (hs : (s.mainStep units config res).res = .ok s') : Stopped units config s' := by
  obtain ⟨htracked, -, -, ⟨hthreads, hjobs⟩ | ⟨thread, job, -, hjobs⟩⟩ := mainStep_cases h.toTracked hs
  · exact ⟨htracked, by rw [hthreads]; exact h.done, hjobs.trans h.started⟩
  · -- there is no unit left
    have hle := (@jobsBefore_sublist units config s'.main.pc).length_le
    rw [hjobs, h.started, List.length_append, List.length_singleton] at hle
    omega

theorem Stopped.step [DecidableEq ι] {world : World ι} {a : Act ι} (h : Stopped units config s)
    (hs : (s.step world units config a).res = .ok s') : Stopped units config s' := by
  cases a with
  | main res => exact h.main hs
  | unit k env => exact h.carries (unitStep_cases hs).1
  | sigint p env => exact h.carries (sigint_cases hs).1
  | handler p survives => exact h.carries (handlerStep_carries hs)

theorem Tracked.indexOf {i : Nat} (h : Tracked units config s) (hi : i < s.threads.length) :
    s.indexOf (s.main.threads i) = i := by
  obtain ⟨out, htable⟩ := h.table
  have hentry := htable.entry (h.parallel ▸ hi)
  obtain ⟨hlt, hget⟩ := List.getElem?_eq_some_iff.mp hentry
  unfold Process.indexOf
  rw [← hget]
  exact htable.nodup.idxOf_getElem i hlt

theorem Tracked.length_eq (h : Tracked units config s) : s.threads.length = s.main.threadcounter := by
  obtain ⟨out, htable⟩ := h.table
  rw [h.parallel, htable.counter]

theorem Tracked.length_le_of_zero {i : Nat} (h : Tracked units config s) (h0 : s.main.threads i = 0) :
    s.threads.length ≤ i := by
  obtain ⟨out, htable⟩ := h.table
  rw [h.parallel]
  by_contra hlt
  exact htable.entry_ne_zero (Nat.lt_of_not_le hlt) h0

theorem Tracked.full_of_nonzero {i : Nat} (h : Tracked units config s) (h0 : s.main.threads i ≠ 0)
    (hi : s.threads.length ≤ i) : maxUnitNum ≤ i := by
  obtain ⟨out, htable⟩ := h.table
  rw [h.parallel] at hi
  by_contra hlt
  exact h0 (htable.rest i hi (Nat.lt_of_not_le hlt))

theorem Tracked.length_le (h : Tracked units config s) : s.threads.length ≤ maxUnitNum := by
  obtain ⟨out, htable⟩ := h.table
  rw [h.parallel, htable.length_jobs]
  exact (jobsBefore_sublist _).length_le.trans length_enabledJobs_le

theorem ScannedTo.kill {i : Nat} (ht : Tracked units config s) (h : ScannedTo s.threads i) (h0 : s.main.threads i ≠ 0)
    (hheeds : s.threads[s.indexOf (s.main.threads i)]?.all UnitThread.heeds = true) :
    ScannedTo (s.threads.modify (s.indexOf (s.main.threads i)) UnitThread.interrupt) (i + 1) := by
  have hkeep := keeps_modify s.threads (s.indexOf (s.main.threads i))
  have hold := h.keeps hkeep
  have hlen := ht.length_le
  have hfull := ht.full_of_nonzero h0
  refine ⟨?_, fun k hk thread' hthread' => ?_⟩
  · rw [hkeep.1]
    have := h.1
    omega
  · rcases Nat.lt_succ_iff_lt_or_eq.mp hk with hlt | rfl
    · exact hold.2 k hlt thread' hthread'
    · have hin : k < s.threads.length := by
        rw [← hkeep.1]
        exact (List.getElem?_eq_some_iff.mp hthread').1
      rw [ht.indexOf hin] at hheeds hthread'
      rw [List.getElem?_modify_eq] at hthread'
      obtain ⟨thread, hthread, rfl⟩ := Option.map_eq_some_iff.mp hthread'
      rw [hthread] at hheeds
      exact UnitThread.done_interrupt hheeds

theorem shutdownInv_start (world : World ι) (beyond : Nat → Tid) :
    ShutdownInv units config (Process.start world beyond) where
  table := ⟨[], tableInv_start beyond⟩
  parallel := rfl
  scanned _ _ h := by cases h
  stopped h := by cases h

theorem ShutdownInv.main {res : CreateResult} (h : ShutdownInv units config s)
    (hs : (s.mainStep units config res).res = .ok s') : ShutdownInv units config s' := by
  obtain ⟨htracked, hhandling, hhandled, hcases⟩ := mainStep_cases h.toTracked hs
  refine ⟨htracked, fun p i hp => ?_, fun hh => ?_⟩
  · rw [hhandling] at hp
    have hscan := h.scanned p i hp
    rcases hcases with ⟨hthreads, -⟩ | ⟨thread, job, hthreads, -⟩
    · rw [hthreads]
      exact hscan
    · have hlen := htracked.length_le
      rw [hthreads] at hlen ⊢
      rw [List.length_append, List.length_singleton] at hlen
      exact hscan.append hlen thread
  · rw [hhandled] at hh
    exact (h.stopped hh).main hs

theorem ShutdownInv.carries (h : ShutdownInv units config s) (hc : Carries s s') (hhandled : s'.handled = s.handled)
    (hhandling : ∀ q, s'.handling q = s.handling q ∨ s'.handling q = some 0) : ShutdownInv units config s' := by
  refine ⟨h.toTracked.carries hc, fun p i hp => ?_, fun hh => ?_⟩
  · rcases hhandling p with hq | hq
    · rw [hq] at hp
      exact (h.scanned p i hp).keeps hc.threads
    · rw [hq] at hp
      cases hp
      exact scannedTo_zero _
  · rw [hhandled] at hh
    exact (h.stopped hh).carries hc

theorem ShutdownInv.handler {p : Party} {survives : Bool} (h : ShutdownInv units config s)
    (hheeded : s.heeded units config (.handler p survives) = true) (hs : (s.handlerStep p survives).res = .ok s') :
    ShutdownInv units config s' := by
  have hcarries := handlerStep_carries hs
  rcases handlerStep_cases hs with ⟨-, rfl⟩ | ⟨i, hp, h0, rfl⟩ | ⟨i, hp, h0, rfl⟩
  · exact h
  · simp only [Process.heeded, hp, h0, if_true, decide_eq_true_eq] at hheeded
    refine ⟨h.toTracked.carries hcarries, fun q j hq => ?_, fun _ => ?_⟩
    · dsimp only at hq
      by_cases hqp : q = p
      · rw [hqp, Function.update_self] at hq
        cases hq
      · rw [Function.update_of_ne hqp] at hq
        exact h.scanned q j hq
    · exact {
        toTracked := h.toTracked.carries hcarries
        done := (h.scanned p i hp).all (h.toTracked.length_le_of_zero h0)
        started := hheeded }
  · simp only [Process.heeded, hp, h0, if_false] at hheeded
    refine ⟨h.toTracked.carries hcarries, fun q j hq => ?_, fun hh => (h.stopped hh).carries hcarries⟩
    dsimp only at hq
    by_cases hqp : q = p
    · rw [hqp, Function.update_self] at hq
      cases hq
      exact (h.scanned p i hp).kill h.toTracked h0 hheeded
    · rw [Function.update_of_ne hqp] at hq
      exact (h.scanned q j hq).keeps hcarries.threads

theorem ShutdownInv.step [DecidableEq ι] {world : World ι} {a : Act ι} (h : ShutdownInv units config s)
    (hheeded : s.heeded units config a = true) (hs : (s.step world units config a).res = .ok s') :
    ShutdownInv units config s' := by
  cases a with
  | main res => exact h.main hs
  | unit k env =>
    obtain ⟨hc, hhandling, hhandled⟩ := unitStep_cases hs
    exact h.carries hc hhandled fun q => .inl (congrFun hhandling q)
  | sigint p env =>
    obtain ⟨hc, hhandled, hhandling⟩ := sigint_cases hs
    exact h.carries hc hhandled hhandling
  | handler p survives => exact h.handler hheeded hs

/-! ## No further wait -/

theorem noPoll_mainStep (units : Units) (config : Configuration) (s : MainState) (res : CreateResult) :
    NoPoll (mainStep units config s res).out := by
  have hstart : ∀ (s : MainState) (job : Job), NoPoll (startThread s job res).out := by
    intro s job
    cases res with
    | failed ret => exact (noPoll_cons _ _).mpr ⟨rfl, noPoll_nil⟩
    | offered thread => exact (noPoll_cons _ _).mpr ⟨rfl, (noPoll_cons _ _).mpr ⟨rfl, noPoll_nil⟩⟩
  unfold mainStep
  split
  · split
    · exact noPoll_nil
    · dsimp only
      split
      · exact noPoll_nil
      · exact hstart _ _
  · split
    · exact (noPoll_cons _ _).mpr ⟨rfl, noPoll_nil⟩
    · dsimp only
      split
      · exact noPoll_nil
      · exact hstart _ _
  · split
    · exact (noPoll_cons _ _).mpr ⟨rfl, (noPoll_cons _ _).mpr ⟨rfl, noPoll_nil⟩⟩
    · exact noPoll_nil
  · exact noPoll_nil

theorem noPoll_killStep (threads : Nat → Tid) (i : Nat) : NoPoll (killStep threads i).out := by
  by_cases hi : threads i = 0
  · rw [killStep_zero hi]
    exact (noPoll_cons _ _).mpr ⟨rfl, noPoll_nil⟩
  · rw [killStep_nonzero hi]
    exact (noPoll_cons _ _).mpr ⟨rfl, (noPoll_cons _ _).mpr ⟨rfl, noPoll_nil⟩⟩

theorem noPoll_handleSignal (env : SignalEnv) (threads : Nat → Tid) :
    NoPoll (handleSignal .sigint env threads 0).out := by
  have hkill : NoPoll (killThreads threads 0 0).out := noPoll_nil
  unfold handleSignal
  dsimp only
  split
  · split
    · simp [Effect.isPoll, hkill]
    · simp [Effect.isPoll, hkill]
  · simp [Effect.isPoll, hkill]

theorem Stopped.noPoll [DecidableEq ι] (h : Stopped units config s) (world : World ι) (a : Act ι) :
    NoPoll (s.step world units config a).out := by
  cases a with
  | main res =>
    simp only [Process.step, Process.mainStep]
    split
    · exact noPoll_nil
    · exact Mqrestt.noPoll.bind (noPoll_mainStep units config s.main res) fun _ _ => noPoll_nil
  | unit k env =>
    simp only [Process.step, Process.unitStep]
    split
    · exact noPoll_nil
    split
    next => exact noPoll_nil
    next thread hk =>
      have hdone := h.done thread (List.mem_of_getElem? hk)
      exact Mqrestt.noPoll.bind (thread.noPoll_step hdone world config env s.store) fun _ _ => noPoll_nil
  | sigint p env =>
    simp only [Process.step, Process.sigint]
    split
    · exact noPoll_nil
    · refine Mqrestt.noPoll.bind (noPoll_handleSignal env s.main.threads) fun _ _ => ?_
      cases p with
      | main => exact noPoll_nil
      | unit k => exact noPoll_nil
  | handler p survives =>
    simp only [Process.step, Process.handlerStep]
    split
    next => exact noPoll_nil
    next i _ =>
      refine Mqrestt.noPoll.bind (noPoll_killStep s.main.threads i) fun r _ => ?_
      cases r with
      | none => exact noPoll_nil
      | some j =>
        dsimp only
        split
        · exact noPoll_nil
        · exact noPoll_nil

end

/-- **No shutdown is lost if each signal is heeded.** -/
theorem noPoll_of_heeded [DecidableEq ι] {world : World ι} {units : Units} {config : Configuration} {beyond : Nat → Tid}
    {acts : List (Act ι)} {s : Process ι}
    (hrun : Proc.runMeeting (Process.step world units config) (Process.heeded units config)
      (Process.start world beyond) acts = some s)
    (hhandled : s.handled = true) (later : List (Act ι)) :
    NoPoll (later.foldlM (Process.step world units config) s).out := by
  have hinv : ShutdownInv units config s :=
    Proc.runMeeting_inv _ (fun _ _ _ h hC hs => h.step hC hs) (shutdownInv_start world beyond) hrun
  exact noPoll.foldlM_inv (fun s a h => Stopped.noPoll h world a) (fun _ _ _ h hs => h.step hs) later
    (hinv.stopped hhandled)

def sampleWorld : World Unit := ⟨.long64, fun _ => sampleRequest qosOne, ⟨∅, ∅⟩⟩

def sampleUnitEnv : UnitEnv Unit := { rest2mqttEnvWith .success [] with setup := setupWith .success }

abbrev sampleStep : Process Unit → Act Unit → Run (Process Unit) :=
  Process.step sampleWorld (sampleUnits rootA) sampleConfiguration

def unitActs (k n : Nat) : List (Act Unit) := List.replicate n (.unit k sampleUnitEnv)

def mainActs (n : Nat) : List (Act Unit) := List.replicate n (.main (.offered 1))

def handlerActs (p : Party) (n : Nat) : List (Act Unit) := .sigint p ⟨-1, 0⟩ :: List.replicate n (.handler p true)

theorem noPoll_sampleUnits : ∃ s, Proc.runMeeting sampleStep (Process.heeded (sampleUnits rootA) sampleConfiguration)
      (Process.start sampleWorld fun _ => 0)
      (mainActs 4 ++ unitActs 0 2 ++ unitActs 1 2 ++ handlerActs (.unit 0) 3) = some s ∧
    s.handled = true ∧ ∀ later : List (Act Unit), NoPoll (later.foldlM sampleStep s).out := by
  have hrun : (Proc.runMeeting sampleStep (Process.heeded (sampleUnits rootA) sampleConfiguration)
      (Process.start sampleWorld fun _ => 0) (mainActs 4 ++ unitActs 0 2 ++ unitActs 1 2 ++ handlerActs (.unit 0) 3)).map
        Process.handled = some true := by decide
  obtain ⟨s, hs, hhandled⟩ := Option.map_eq_some_iff.mp hrun
  exact ⟨s, hs, hhandled, noPoll_of_heeded hs hhandled⟩

def LosesShutdown (acts later : List (Act Unit)) : Prop :=
  ∃ s, Proc.runMeeting sampleStep (fun _ _ => true) (Process.start sampleWorld fun _ => 0) acts = some s ∧
    s.handled = true ∧ ¬ NoPoll (later.foldlM sampleStep s).out

theorem losesShutdown_of_polls {acts later : List (Act Unit)}
    (h : (Proc.runMeeting sampleStep (fun _ _ => true) (Process.start sampleWorld fun _ => 0) acts).map (fun s =>
      (s.handled, (later.foldlM sampleStep s).out.any Effect.isPoll)) = some (true, true)) :
    LosesShutdown acts later := by
  obtain ⟨s, hs, hres⟩ := Option.map_eq_some_iff.mp h
  obtain ⟨hhandled, hany⟩ := Prod.mk.inj hres
  refine ⟨s, hs, hhandled, fun hno => ?_⟩
  obtain ⟨e, he, hpoll⟩ := List.any_eq_true.mp hany
  rw [hno e he] at hpoll
  cases hpoll

/-- The signal reaches a thread between two calls of `poll`, or the handler has returned before a thread is started. -/
theorem losesShutdown_working_late :
    LosesShutdown (mainActs 4 ++ unitActs 0 2 ++ unitActs 1 3 ++ handlerActs .main 3) (unitActs 1 2) ∧
    LosesShutdown (handlerActs .main 1) (mainActs 1 ++ unitActs 0 2) :=
  ⟨losesShutdown_of_polls (by decide), losesShutdown_of_polls (by decide)⟩

end Mqrestt
