import Mqrestt.Lib.Halts
import Mqrestt.Lib.Progress
import Mqrestt.SharedSound
import Mqrestt.ShutdownSound

/-!
# The joins of `main`, and the end of the process

`main` waits for the threads in the order in which it started them, and then it gives
back what they all use. A join returns only when its thread has exited, and a thread
that has exited does nothing any more. When the units are stopped, every schedule that
lets each party go on again and again brings `main` to the end.
-/

namespace Mqrestt
open CSem

variable {ι : Type}

/-- The thread that takes a step, if it is not one of `main` or of a handler. -/
def Act.thread? : Act ι → Option Nat
  | .unit k _ => some k
  | _ => none

/-- The calls of the access handler that a step of a thread makes. -/
def UnitThread.takes (env : UnitEnv ι) : UnitThread ι → List (ι × Call)
  | .rest2mqtt _ (.working ..) => env.calls
  | _ => []

/-- The calls that a step of the process makes, with the thread that makes them. -/
def Process.calls (s : Process ι) : Act ι → List ((Nat × ι) × Call)
  | .unit k env =>
    if (s.handling (.unit k)).isSome then []
    else ofThread k ((s.threads[k]?.map (UnitThread.takes env)).getD [])
  | _ => []

/-! ## Threads that have exited -/

theorem UnitThread.step_exited [DecidableEq ι] {thread : UnitThread ι} (h : thread.exited = true) (world : World ι)
    (config : Configuration) (env : UnitEnv ι) (st : Store) :
    thread.step world config env st = pure (thread, st) := by
  cases thread with
  | mqtt2rest u phase =>
    cases phase with
    | exited => rfl
    | starting | looping s | waiting s b | working s d | leaving s => cases h
  | rest2mqtt u phase =>
    cases phase with
    | exited => rfl
    | starting | looping s | waiting s b | working s d | leaving s => cases h

theorem UnitThread.interrupt_exited {thread : UnitThread ι} (h : thread.exited = true) : thread.interrupt = thread := by
  cases thread with
  | mqtt2rest u phase =>
    cases phase with
    | exited => rfl
    | starting | looping s | waiting s b | working s d | leaving s => cases h
  | rest2mqtt u phase =>
    cases phase with
    | exited => rfl
    | starting | looping s | waiting s b | working s d | leaving s => cases h

/-- No thread has gone, and those that had exited are as they were. -/
def Rests (ts ts' : List (UnitThread ι)) : Prop :=
  ∀ (k : Nat) (thread : UnitThread ι), ts[k]? = some thread → thread.exited = true → ts'[k]? = some thread

theorem rests_append (ts new : List (UnitThread ι)) : Rests ts (ts ++ new) := by
  intro k thread hk _
  rw [List.getElem?_append_left (List.getElem?_eq_some_iff.mp hk).1]
  exact hk

theorem rests_set {ts : List (UnitThread ι)} {k : Nat} {thread thread' : UnitThread ι} (hk : ts[k]? = some thread)
    (hsame : thread.exited = true → thread' = thread) : Rests ts (ts.set k thread') := by
  intro j t hj ht
  by_cases hkj : k = j
  · subst hkj
    rw [List.getElem?_set_self (List.getElem?_eq_some_iff.mp hk).1]
    rw [hk] at hj
    cases hj
    rw [hsame ht]
  · rw [List.getElem?_set_ne hkj]
    exact hj

theorem rests_modify (ts : List (UnitThread ι)) (k : Nat) : Rests ts (ts.modify k UnitThread.interrupt) := by
  intro j thread hj ht
  rw [List.getElem?_modify, hj, Option.map_eq_map, Option.map_some]
  split
  · rw [UnitThread.interrupt_exited ht]
  · rfl

section
variable {units : Units} {config : Configuration} {s s' : Process ι}

/-- What a step does to the threads, and whose effects it has. -/
inductive Changes [DecidableEq ι] (world : World ι) (config : Configuration) (s : Process ι) (a : Act ι)
    (out : List Effect)
    (s' : Process ι) : Prop
  | started (new : List (Tid × Job)) (hout : a.thread? = none ∨ out = []) (hquiet : s.calls a = [])
      (hstore : s'.store = s.store) (hcreated : s'.main.created = s.main.created ++ new)
      (hthreads : s'.threads = s.threads ++ new.map fun t => t.2.thread)
  | interrupted (k : Nat) (hout : a.thread? = none) (hquiet : s.calls a = []) (hstore : s'.store = s.store)
      (hcreated : s'.main.created = s.main.created)
      (hthreads : s'.threads = s.threads.modify k UnitThread.interrupt)
  | stepped (k : Nat) (env : UnitEnv ι) (thread thread' : UnitThread ι) (ha : a = .unit k env)
      (hcalls : s.calls a = ofThread k (thread.takes env)) (hk : s.threads[k]? = some thread)
      (hstep : thread.step world config env s.store = ⟨out, .ok (thread', s'.store)⟩)
      (hcreated : s'.main.created = s.main.created) (hthreads : s'.threads = s.threads.set k thread')

theorem Changes.none [DecidableEq ι] {world : World ι} {a : Act ι} {out : List Effect}
    (hout : a.thread? = Option.none ∨ out = []) (hquiet : s.calls a = []) (hstore : s'.store = s.store)
    (hmain : s'.main = s.main) (hthreads : s'.threads = s.threads) : Changes world config s a out s' :=
  .started [] hout hquiet hstore (by rw [hmain, List.append_nil]) (by rw [hthreads, List.map_nil, List.append_nil])

theorem mainStep_changes [DecidableEq ι] (world : World ι) {res : CreateResult}
    (h : (s.mainStep units config res).res = .ok s') :
    Changes world config s (.main res) (s.mainStep units config res).out s' := by
  unfold Process.mainStep at h
  split at h
  · cases h
    exact .none (.inl rfl) rfl rfl rfl rfl
  · obtain ⟨main, hmain, hres, -⟩ := Proc.bind_eq_ok h
    cases hres
    have hcreated : main.created = s.main.created ++ main.created.drop s.main.created.length := by
      rcases (mainStep_moves hmain).created with ⟨hsame, -⟩ | ⟨t, job, hsnoc, -⟩
      · rw [hsame, List.drop_length, List.append_nil]
      · rw [hsnoc, List.drop_left]
    exact .started _ (.inl rfl) rfl rfl hcreated rfl

theorem unitStep_changes [DecidableEq ι] {world : World ι} {k : Nat} {env : UnitEnv ι}
    (h : (s.unitStep world config k env).res = .ok s') :
    Changes world config s (.unit k env) (s.unitStep world config k env).out s' := by
  unfold Process.unitStep at h ⊢
  split at h
  next hhandling =>
    rw [if_pos hhandling]
    cases h
    exact .none (.inr rfl) (if_pos hhandling) rfl rfl rfl
  next hfree =>
    rw [if_neg hfree]
    split at h
    next hk =>
      cases h
      exact .none (.inr rfl) (by rw [Process.calls, if_neg hfree, hk]; rfl) rfl rfl rfl
    next thread hk =>
      obtain ⟨⟨thread', st⟩, hstep, hres, hout⟩ := Proc.bind_eq_ok h
      cases hres
      rw [hout, Proc.pure_out, List.append_nil]
      have hcalls : s.calls (.unit k env) = ofThread k (thread.takes env) := by
        rw [Process.calls, if_neg hfree, hk]
        rfl
      exact .stepped k env thread thread' rfl hcalls hk (Proc.eq_of_ok hstep) rfl rfl

theorem sigint_changes [DecidableEq ι] (world : World ι) {p : Party} {env : SignalEnv}
    (h : (s.sigint p env).res = .ok s') :
    Changes world config s (.sigint p env) (s.sigint p env).out s' := by
  unfold Process.sigint at h
  split at h
  · cases h
    exact .none (.inl rfl) rfl rfl rfl rfl
  · obtain ⟨_, _, hres, -⟩ := Proc.bind_eq_ok h
    cases p with
    | main =>
      cases hres
      exact .none (.inl rfl) rfl rfl rfl rfl
    | unit k =>
      cases hres
      exact .interrupted k rfl rfl rfl rfl rfl

theorem step_changes [DecidableEq ι] {world : World ι} {a : Act ι} (h : (s.step world units config a).res = .ok s') :
    Changes world config s a (s.step world units config a).out s' := by
  cases a with
  | main res => exact mainStep_changes world h
  | unit k env => exact unitStep_changes h
  | sigint p env => exact sigint_changes world h
  | handler p survives =>
    rcases handlerStep_cases h with ⟨-, rfl⟩ | ⟨i, -, -, rfl⟩ | ⟨i, -, -, rfl⟩
    · exact .none (.inl rfl) rfl rfl rfl rfl
    · exact .none (.inl rfl) rfl rfl rfl rfl
    · exact .interrupted _ rfl rfl rfl rfl rfl

def createFailed (ret : Int) : List Effect := [.stderr "Error - pthread_create() return code: %d\n" [.num ret]]

theorem startThread_halts {m : MainState} {job : Job} {res : CreateResult} {out : List Effect} {h : Halt}
    (hs : startThread m job res = ⟨out, .error h⟩) : ∃ ret, res = .failed ret ∧ out = createFailed ret ∧ h = .exit 1 := by
  cases res with
  | failed ret =>
    cases hs
    exact ⟨ret, rfl, rfl, rfl⟩
  | offered thread => cases congrArg Proc.res hs

theorem main_halts {m : MainState} {res : CreateResult} {out : List Effect} {h : Halt}
    (hs : Mqrestt.mainStep units config m res = ⟨out, .error h⟩) :
    ∃ ret, res = .failed ret ∧ out = createFailed ret ∧ h = .exit 1 := by
  unfold Mqrestt.mainStep at hs
  split at hs
  · split at hs
    · cases congrArg Proc.res hs
    · dsimp only at hs
      split at hs
      · cases congrArg Proc.res hs
      · exact startThread_halts hs
  · split at hs
    · cases congrArg Proc.res hs
    · dsimp only at hs
      split at hs
      · cases congrArg Proc.res hs
      · exact startThread_halts hs
  · split at hs <;> cases congrArg Proc.res hs
  · cases congrArg Proc.res hs

theorem sigint_returns (s : Process ι) (p : Party) (env : SignalEnv) : ∃ s', (s.sigint p env).res = .ok s' := by
  unfold Process.sigint
  split
  · exact ⟨_, rfl⟩
  · rw [Proc.bind_of_ok (handleSignal_sigint env s.main.threads 0).1]
    cases p with
    | main => exact ⟨_, rfl⟩
    | unit k => exact ⟨_, rfl⟩

theorem handlerStep_halts {p : Party} {survives : Bool} {out : List Effect} {h : Halt}
    (hs : s.handlerStep p survives = ⟨out, .error h⟩) : h = .goneThread ∧ survives = false ∧
      ∃ i, s.handling p = some i ∧ s.main.threads i ≠ 0 ∧ s.gone (s.main.threads i) = true := by
  unfold Process.handlerStep at hs
  cases hp : s.handling p with
  | none =>
    rw [hp] at hs
    cases congrArg Proc.res hs
  | some i =>
    rw [hp] at hs
    dsimp only at hs
    by_cases hi : s.main.threads i = 0
    · rw [killStep_zero hi] at hs
      cases congrArg Proc.res hs
    · rw [killStep_nonzero hi, Proc.mk_ok_bind] at hs
      dsimp only at hs
      split at hs
      next hgone =>
        rw [Bool.and_eq_true, Bool.not_eq_true'] at hgone
        cases congrArg Proc.res hs
        exact ⟨rfl, hgone.2, i, rfl, hi, hgone.1⟩
      next => cases congrArg Proc.res hs

/-- Only `pthread_create`, the code of a unit and a signal to a thread that is gone can end the process. -/
theorem step_halts [DecidableEq ι] {world : World ι} {a : Act ι} {out : List Effect} {h : Halt}
    (hs : s.step world units config a = ⟨out, .error h⟩) :
    (∃ ret, a = .main (.failed ret) ∧ out = createFailed ret ∧ h = .exit 1) ∨
      (∃ k env thread, a = .unit k env ∧ s.calls a = ofThread k (thread.takes env) ∧ s.threads[k]? = some thread ∧
        thread.step world config env s.store = ⟨out, .error h⟩) ∨
      h = .goneThread ∧ ∃ p i, a = .handler p false ∧ s.handling p = some i ∧ s.main.threads i ≠ 0 ∧
        s.gone (s.main.threads i) = true := by
  cases a with
  | main res =>
    simp only [Process.step, Process.mainStep] at hs
    split at hs
    · cases congrArg Proc.res hs
    · obtain ⟨ret, rfl, rfl, rfl⟩ := main_halts (Proc.bind_eq_error (fun _ => ⟨_, rfl⟩) hs)
      exact .inl ⟨ret, rfl, rfl, rfl⟩
  | unit k env =>
    simp only [Process.step, Process.unitStep] at hs
    split at hs
    next => cases congrArg Proc.res hs
    next hfree =>
      split at hs
      next => cases congrArg Proc.res hs
      next thread hk =>
        refine .inr (.inl ⟨k, env, thread, rfl, ?_, hk, Proc.bind_eq_error (fun _ => ⟨_, rfl⟩) hs⟩)
        rw [Process.calls, if_neg hfree, hk]
        rfl
  | sigint p env =>
    obtain ⟨s', hs'⟩ := sigint_returns s p env
    rw [Process.step] at hs
    rw [hs] at hs'
    cases hs'
  | handler p survives =>
    obtain ⟨rfl, rfl, i, hp, hi, hgone⟩ := handlerStep_halts hs
    exact .inr (.inr ⟨rfl, p, i, rfl, hp, hi, hgone⟩)

theorem step_rests [DecidableEq ι] {world : World ι} {a : Act ι} (h : (s.step world units config a).res = .ok s') :
    Rests s.threads s'.threads := by
  cases step_changes h with
  | started new _ _ _ _ hthreads =>
    rw [hthreads]
    exact rests_append _ _
  | interrupted k _ _ _ _ hthreads =>
    rw [hthreads]
    exact rests_modify _ k
  | stepped k env thread thread' _ _ hk hstep _ hthreads =>
    rw [hthreads]
    refine rests_set hk fun hexited => ?_
    rw [UnitThread.step_exited hexited] at hstep
    exact (Prod.mk.inj (Except.ok.inj (congrArg Proc.res hstep))).1.symm

/-! ## The joins -/

/-- The threads that `main` has joined have exited. -/
structure JoinInv (units : Units) (config : Configuration) (s : Process ι) : Prop extends Tracked units config s where
  joined : ∀ k < joinedBefore units config s.main.pc, ∃ thread, s.threads[k]? = some thread ∧ thread.exited = true

theorem joinInv_start (world : World ι) (beyond : Nat → Tid) : JoinInv units config (Process.start world beyond) where
  table := ⟨[], tableInv_start beyond⟩
  parallel := rfl
  joined _ hk := absurd hk (Nat.not_lt_zero _)

theorem JoinInv.joined_rests (h : JoinInv units config s) (hr : Rests s.threads s'.threads) {n : Nat}
    (hn : n ≤ joinedBefore units config s.main.pc) :
    ∀ k < n, ∃ thread, s'.threads[k]? = some thread ∧ thread.exited = true := by
  intro k hk
  obtain ⟨thread, hthread, hexited⟩ := h.joined k (Nat.lt_of_lt_of_le hk hn)
  exact ⟨thread, hr k thread hthread hexited, hexited⟩

/-- `pthread_join` has returned, so the thread is there and has exited. -/
theorem exited_of_joins {i : Nat} (ht : Tracked units config s) (hblocks : s.joinBlocks = false)
    (hpc : s.main.pc = .joining i) (hi : i < s.main.threadcounter) :
    ∃ thread, s.threads[i]? = some thread ∧ thread.exited = true := by
  simp only [Process.joinBlocks, hpc, hi, decide_true, Bool.true_and, Bool.not_eq_false'] at hblocks
  rw [ht.indexOf (ht.length_eq ▸ hi)] at hblocks
  exact (Option.any_eq_true _ _).mp hblocks

theorem joinedBefore_moves {main main' : MainState} {out out' : List Effect} (ht : TableInv units config out main)
    (hm : Moves units config main out' main') :
    joinedBefore units config main'.pc ≤ joinedBefore units config main.pc ∨
      ∃ i, main.pc = .joining i ∧ i < main.threadcounter ∧ joinedBefore units config main'.pc = i + 1 := by
  cases hm with
  | passes _ _ hjoined => exact Or.inl hjoined.le
  | starts _ _ hjoined => exact Or.inl (by rw [hjoined.1]; exact Nat.zero_le _)
  | @joins _ i _ hpc hi => exact Or.inr ⟨i, hpc, hi, rfl⟩
  | ends hpc hi =>
    refine Or.inl ?_
    have hlen := ht.length_jobs
    rw [hpc] at hlen
    rw [hpc, joinedBefore, joinedBefore, ← show main.created.length = (enabledJobs units config).length from hlen,
      ← ht.counter]
    exact hi

theorem JoinInv.main {res : CreateResult} (h : JoinInv units config s)
    (hrests : Rests s.threads s'.threads) (hs : (s.mainStep units config res).res = .ok s') :
    JoinInv units config s' := by
  obtain ⟨htracked, -⟩ := mainStep_cases h.toTracked hs
  refine ⟨htracked, ?_⟩
  unfold Process.mainStep at hs
  split at hs
  · cases hs
    exact h.joined
  next hfree =>
    simp only [Bool.or_eq_true, not_or, Bool.not_eq_true] at hfree
    obtain ⟨main, hmain, hres, -⟩ := Proc.bind_eq_ok hs
    cases hres
    obtain ⟨out, htable⟩ := h.table
    rcases joinedBefore_moves htable (mainStep_moves hmain) with hle | ⟨i, hpc, hi, hjoined⟩
    · exact h.joined_rests hrests hle
    · intro k hk
      dsimp only at hk
      rw [hjoined] at hk
      rcases Nat.lt_succ_iff_lt_or_eq.mp hk with hlt | rfl
      · refine h.joined_rests hrests ?_ k hlt
        rw [hpc]
        exact le_rfl
      · obtain ⟨thread, hthread, hexited⟩ := exited_of_joins h.toTracked hfree.2 hpc hi
        exact ⟨thread, hrests k thread hthread hexited, hexited⟩

theorem JoinInv.step [DecidableEq ι] {world : World ι} {a : Act ι} (h : JoinInv units config s)
    (hs : (s.step world units config a).res = .ok s') : JoinInv units config s' := by
  have hrests := step_rests hs
  have hcarried : Carries s s' → JoinInv units config s' := fun hc => {
    toTracked := h.toTracked.carries hc
    joined := h.joined_rests hrests (by rw [hc.main]) }
  cases a with
  | main res => exact h.main hrests hs
  | unit k env => exact hcarried (unitStep_cases hs).1
  | sigint p env => exact hcarried (sigint_cases hs).1
  | handler p survives => exact hcarried (handlerStep_carries hs)

theorem joinInv_of_run [DecidableEq ι] {world : World ι} {beyond : Nat → Tid} {acts : List (Act ι)} {out : List Effect}
    (hrun : acts.foldlM (Process.step world units config) (Process.start world beyond) = ⟨out, .ok s⟩) :
    JoinInv units config s :=
  Proc.foldlM_inv (I := fun _ s => JoinInv units config s) (joinInv_start world beyond)
    (fun _ _ _ _ h hs => h.step hs) hrun

theorem JoinInv.all_exited (h : JoinInv units config s) (hfin : s.main.pc = .finished) :
    s.threads.length = (enabledJobs units config).length ∧ ∀ thread ∈ s.threads, thread.exited = true := by
  obtain ⟨out, htable⟩ := h.table
  have hlen : s.threads.length = (enabledJobs units config).length := by
    rw [h.parallel, htable.length_jobs, hfin]
    rfl
  refine ⟨hlen, fun thread hmem => ?_⟩
  obtain ⟨k, hk⟩ := List.mem_iff_getElem?.mp hmem
  have hlt : k < joinedBefore units config s.main.pc := by
    rw [hfin, joinedBefore, ← hlen]
    exact (List.getElem?_eq_some_iff.mp hk).1
  obtain ⟨thread', hthread', hexited⟩ := h.joined k hlt
  rw [hk] at hthread'
  cases hthread'
  exact hexited

theorem JoinInv.over [DecidableEq ι] {world : World ι} {a : Act ι} (h : JoinInv units config s)
    (hfin : s.main.pc = .finished) (hs : (s.step world units config a).res = .ok s') :
    s'.main = s.main ∧ s'.threads = s.threads := by
  obtain ⟨-, hexited⟩ := h.all_exited hfin
  have hsame : s'.threads.length = s.threads.length → s'.threads = s.threads := by
    intro hlen
    refine List.ext_getElem? fun k => ?_
    cases hk : s.threads[k]? with
    | none =>
      have hge := List.getElem?_eq_none_iff.mp hk
      exact List.getElem?_eq_none_iff.mpr (by omega)
    | some thread => exact step_rests hs k thread hk (hexited thread (List.mem_of_getElem? hk))
  cases a with
  | main res =>
    simp only [Process.step, Process.mainStep, Mqrestt.mainStep, hfin, pure_bind, List.drop_length, List.map_nil,
      List.append_nil] at hs
    split at hs
    · cases hs
      exact ⟨rfl, rfl⟩
    · cases hs
      exact ⟨rfl, rfl⟩
  | unit k env =>
    have hc := (unitStep_cases hs).1
    exact ⟨hc.main, hsame hc.threads.1⟩
  | sigint p env =>
    have hc := (sigint_cases hs).1
    exact ⟨hc.main, hsame hc.threads.1⟩
  | handler p survives =>
    have hc := handlerStep_carries hs
    exact ⟨hc.main, hsame hc.threads.1⟩

theorem unitStep_of_exited [DecidableEq ι] (hexited : ∀ thread ∈ s.threads, thread.exited = true) (world : World ι)
    (config : Configuration) (k : Nat) (env : UnitEnv ι) : s.unitStep world config k env = pure s := by
  unfold Process.unitStep
  split
  · rfl
  split
  next => rfl
  next thread hk =>
    rw [UnitThread.step_exited (hexited thread (List.mem_of_getElem? hk)), pure_bind]
    obtain ⟨hlt, rfl⟩ := List.getElem?_eq_some_iff.mp hk
    dsimp only
    rw [List.set_getElem_self hlt]

end

/-- **After the last join no unit does anything**, whatever happens then, so nothing that `main` gives back is in use. -/
theorem units_over_after_joins [DecidableEq ι] {world : World ι} {units : Units} {config : Configuration}
    {beyond : Nat → Tid} {acts : List (Act ι)} {out : List Effect} {s : Process ι}
    (hrun : acts.foldlM (Process.step world units config) (Process.start world beyond) = ⟨out, .ok s⟩) :
    (∀ k < joinedBefore units config s.main.pc, ∃ thread, s.threads[k]? = some thread ∧ thread.exited = true) ∧
    (s.main.pc = .finished → s.threads.length = (enabledJobs units config).length ∧
      ∀ (later : List (Act ι)) (out' : List Effect) (s' : Process ι),
        later.foldlM (Process.step world units config) s = ⟨out', .ok s'⟩ →
        s'.main = s.main ∧ s'.threads = s.threads ∧ ∀ k env, s'.unitStep world config k env = pure s') := by
  have hinv := joinInv_of_run hrun
  refine ⟨hinv.joined, fun hfin => ⟨(hinv.all_exited hfin).1, fun later out' s' hlater => ?_⟩⟩
  have hover : JoinInv units config s' ∧ s'.main = s.main ∧ s'.threads = s.threads := by
    refine Proc.foldlM_inv (I := fun _ s' => JoinInv units config s' ∧ s'.main = s.main ∧ s'.threads = s.threads)
      ⟨hinv, rfl, rfl⟩ (fun _ s₁ a s₂ h hs => ?_) hlater
    obtain ⟨hinv₁, hmain₁, hthreads₁⟩ := h
    obtain ⟨hmain, hthreads⟩ := hinv₁.over (hmain₁ ▸ hfin) hs
    exact ⟨hinv₁.step hs, hmain.trans hmain₁, hthreads.trans hthreads₁⟩
  obtain ⟨hinv', hmain, hthreads⟩ := hover
  exact ⟨hmain, hthreads, unitStep_of_exited (hinv'.all_exited (hmain ▸ hfin)).2 world config⟩

/-- Both units are started and stopped, and then joined. -/
def joinedActs : List (Act Unit) :=
  mainActs 4 ++ unitActs 0 2 ++ unitActs 1 2 ++ handlerActs (.unit 0) 3 ++ unitActs 0 2 ++ unitActs 1 2 ++ mainActs 3

theorem units_over_joinedActs : ∃ out s,
    joinedActs.foldlM sampleStep (Process.start sampleWorld fun _ => 0) = ⟨out, .ok s⟩ ∧
    s.main.pc = .finished ∧ s.threads.length = 2 ∧
      ∀ k env, s.unitStep sampleWorld sampleConfiguration k env = pure s := by
  have hend : ((joinedActs.foldlM sampleStep (Process.start sampleWorld fun _ => 0)).res.map fun s => s.main.pc) =
      .ok .finished := by decide
  obtain ⟨s, hrun, hfin⟩ := Proc.eq_ok_of_map hend
  obtain ⟨hlen, hover⟩ := (units_over_after_joins hrun).2 hfin
  exact ⟨_, s, hrun, hfin, hlen, (hover [] [] s rfl).2.2⟩

/-! ## What is left to do -/

def UnitThread.stepsLeft : UnitThread ι → Nat
  | .mqtt2rest _ (.waiting ..) | .rest2mqtt _ (.waiting ..) => 2
  | .mqtt2rest _ (.leaving _) | .rest2mqtt _ (.leaving _) => 1
  | _ => 0

def MainPc.stepsLeft (units : Units) (config : Configuration) : MainPc → Nat
  | .mqtt2rest i => units.mqtt2rest.length - i + units.rest2mqtt.length + (enabledJobs units config).length + 3
  | .rest2mqtt i => units.rest2mqtt.length - i + (enabledJobs units config).length + 2
  | .joining i => (enabledJobs units config).length - i + 1
  | .finished => 0

def Process.stepsLeft (units : Units) (config : Configuration) (s : Process ι) : Nat :=
  s.main.pc.stepsLeft units config + (s.threads.map UnitThread.stepsLeft).sum

theorem sum_map_set {α : Type} (f : α → Nat) {l : List α} {k : Nat} {a : α} (h : l[k]? = some a) (b : α) :
    ((l.set k b).map f).sum + f a = (l.map f).sum + f b := by
  induction l generalizing k with
  | nil => cases h
  | cons c l ih =>
    cases k with
    | zero =>
      cases h
      simp only [List.set_cons_zero, List.map_cons, List.sum_cons]
      omega
    | succ k =>
      have := ih h
      simp only [List.set_cons_succ, List.map_cons, List.sum_cons]
      omega

/-- A thread that is past its loop goes through to the end. -/
theorem UnitThread.step_done [DecidableEq ι] {thread : UnitThread ι} (h : thread.done = true) (world : World ι)
    (config : Configuration) (env : UnitEnv ι) (st : Store) :
    ∃ thread' st', (thread.step world config env st).res = .ok (thread', st') ∧
      (thread' = thread ∧ st' = st ∨ thread'.stepsLeft < thread.stepsLeft) ∧
      (thread.exited = false → thread'.stepsLeft < thread.stepsLeft) := by
  cases thread with
  | mqtt2rest u phase =>
    cases phase with
    | starting | looping s | working s d => cases h
    | waiting s b =>
      cases b with
      | false => cases h
      | true => exact ⟨.mqtt2rest u (.leaving s), _, rfl, Or.inr (Nat.lt_succ_self 1), fun _ => Nat.lt_succ_self 1⟩
    | leaving s => exact ⟨.mqtt2rest u .exited, _, rfl, Or.inr Nat.zero_lt_one, fun _ => Nat.zero_lt_one⟩
    | exited => exact ⟨.mqtt2rest u .exited, _, rfl, Or.inl ⟨rfl, rfl⟩, fun hexited => by cases hexited⟩
  | rest2mqtt u phase =>
    cases phase with
    | starting | looping s | working s d => cases h
    | waiting s b =>
      cases b with
      | false => cases h
      | true => exact ⟨.rest2mqtt u (.leaving s), _, rfl, Or.inr (Nat.lt_succ_self 1), fun _ => Nat.lt_succ_self 1⟩
    | leaving s => exact ⟨.rest2mqtt u .exited, _, rfl, Or.inr Nat.zero_lt_one, fun _ => Nat.zero_lt_one⟩
    | exited => exact ⟨.rest2mqtt u .exited, _, rfl, Or.inl ⟨rfl, rfl⟩, fun hexited => by cases hexited⟩

theorem UnitThread.not_exited_of_stepsLeft {thread : UnitThread ι} (h : thread.stepsLeft ≠ 0) :
    thread.exited = false := by
  cases thread with
  | mqtt2rest u phase =>
    cases phase with
    | exited => exact absurd rfl h
    | starting | looping s | waiting s b | working s d | leaving s => rfl
  | rest2mqtt u phase =>
    cases phase with
    | exited => exact absurd rfl h
    | starting | looping s | waiting s b | working s d | leaving s => rfl

section
variable {units : Units} {config : Configuration}

theorem not_enabled_of_started {pc pc' : MainPc} {enabled : Bool} {job : Job}
    (hstarted : jobsBefore units config pc = enabledJobs units config)
    (hjobs : jobsBefore units config pc' = jobsBefore units config pc ++ if enabled then [job] else []) :
    enabled = false := by
  cases enabled with
  | false => rfl
  | true =>
    have hle := (@jobsBefore_sublist units config pc').length_le
    rw [hjobs, hstarted, if_pos rfl, List.length_append, List.length_singleton] at hle
    omega

/-- When all threads are started, `main` only passes units that are not enabled, and joins. -/
theorem mainStep_started {main : MainState} (hstarted : jobsBefore units config main.pc = enabledJobs units config)
    (hcounter : main.threadcounter = (enabledJobs units config).length) (res : CreateResult) :
    ∃ pc, (mainStep units config main res).res = .ok { main with pc } ∧
      (main.pc ≠ .finished → pc.stepsLeft units config < main.pc.stepsLeft units config) ∧
      (main.pc = .finished → pc = .finished) := by
  unfold mainStep
  cases hpc : main.pc with
  | mqtt2rest i =>
    rw [hpc] at hstarted
    cases hu : units.mqtt2rest[i]? with
    | none =>
      refine ⟨.rest2mqtt 0, by simp [hu], fun _ => ?_, fun hfin => by cases hfin⟩
      simp only [MainPc.stepsLeft]
      omega
    | some u =>
      have hlt := (List.getElem?_eq_some_iff.mp hu).1
      have hen : u.enabled = false :=
        @not_enabled_of_started _ _ _ (.mqtt2rest (i + 1)) _ _ hstarted (filter_map_take_succ hu)
      refine ⟨.mqtt2rest (i + 1), by simp [hu, hen], fun _ => ?_, fun hfin => by cases hfin⟩
      simp only [MainPc.stepsLeft]
      omega
  | rest2mqtt i =>
    rw [hpc] at hstarted
    cases hu : units.rest2mqtt[i]? with
    | none =>
      refine ⟨.joining 0, by simp [hu, debug], fun _ => ?_, fun hfin => by cases hfin⟩
      simp only [MainPc.stepsLeft]
      omega
    | some u =>
      have hlt := (List.getElem?_eq_some_iff.mp hu).1
      have hen : u.enabled = false := by
        refine @not_enabled_of_started _ _ _ (.rest2mqtt (i + 1)) _
          (.rest2mqtt { u with commonConfiguration := some config }) hstarted ?_
        simp only [jobsBefore, List.append_assoc]
        exact congrArg _ (filter_map_take_succ hu)
      refine ⟨.rest2mqtt (i + 1), by simp [hu, hen], fun _ => ?_, fun hfin => by cases hfin⟩
      simp only [MainPc.stepsLeft]
      omega
  | joining i =>
    dsimp only
    split
    next hi =>
      refine ⟨.joining (i + 1), rfl, fun _ => ?_, fun hfin => by cases hfin⟩
      simp only [MainPc.stepsLeft]
      omega
    next hi =>
      refine ⟨.finished, rfl, fun _ => ?_, fun _ => rfl⟩
      simp only [MainPc.stepsLeft]
      omega
  | finished =>
    refine ⟨.finished, ?_, fun hne => absurd rfl hne, fun _ => rfl⟩
    obtain ⟨pc, threads, threadcounter, created⟩ := main
    cases hpc
    rfl

/-! ## The end of the process -/

/-- Whose turn a step is. A signal is not a turn of anybody. -/
def Act.turn : Act ι → Option Party
  | .main _ => some .main
  | .unit k _ => some (.unit k)
  | .sigint .. | .handler .. => none

/-- `main`, or one of the first `n` threads. -/
def Party.below (n : Nat) : Party → Prop
  | .main => True
  | .unit k => k < n

/-- All units are stopped, and nobody runs the handler any more. -/
structure Settling (units : Units) (config : Configuration) (n : Nat) (s : Process ι) :
    Prop extends Stopped units config s where
  idle : ∀ p, Party.below n p → s.handling p = none
  number : s.threads.length = n

variable {s : Process ι}

theorem Settling.counter {n : Nat} (h : Settling units config n s) :
    s.main.threadcounter = (enabledJobs units config).length := by
  obtain ⟨out, htable⟩ := h.table
  rw [htable.counter, htable.length_jobs, h.started]

theorem Settling.main {n : Nat} (h : Settling units config n s) (res : CreateResult) :
    ∃ s', (s.mainStep units config res).res = .ok s' ∧ Settling units config n s' ∧
      (s' = s ∨ s'.stepsLeft units config < s.stepsLeft units config) ∧
      (s.joinBlocks = false → s.main.pc ≠ .finished → s'.stepsLeft units config < s.stepsLeft units config) := by
  have hidle : s.handling .main = none := h.idle .main trivial
  cases hblocks : s.joinBlocks with
  | true =>
    refine ⟨s, ?_, h, Or.inl rfl, fun hfree => by cases hfree⟩
    simp [Process.mainStep, hblocks]
  | false =>
    obtain ⟨pc, hres, hless, hfin⟩ := mainStep_started h.started h.counter res
    have hstep : (s.mainStep units config res).res = .ok { s with main := { s.main with pc } } := by
      simp [Process.mainStep, hblocks, hidle, Proc.bind_of_ok hres]
    refine ⟨_, hstep, ⟨h.toStopped.main hstep, h.idle, h.number⟩, ?_, fun _ hne => ?_⟩
    · by_cases hend : s.main.pc = .finished
      · refine Or.inl ?_
        rw [hfin hend, ← hend]
      · exact Or.inr (Nat.add_lt_add_right (hless hend) _)
    · exact Nat.add_lt_add_right (hless hne) _

theorem Settling.unit [DecidableEq ι] {n : Nat} (h : Settling units config n s) (world : World ι) (k : Nat)
    (env : UnitEnv ι) :
    ∃ s', (s.unitStep world config k env).res = .ok s' ∧ Settling units config n s' ∧
      (s' = s ∨ s'.stepsLeft units config < s.stepsLeft units config) ∧
      (∀ thread, s.threads[k]? = some thread → thread.exited = false →
        s'.stepsLeft units config < s.stepsLeft units config) := by
  cases hk : s.threads[k]? with
  | none =>
    refine ⟨s, ?_, h, Or.inl rfl, fun _ hthread => by cases hthread⟩
    simp [Process.unitStep, hk]
  | some thread =>
    have hlt := (List.getElem?_eq_some_iff.mp hk).1
    have hidle : s.handling (.unit k) = none := h.idle (.unit k) (h.number ▸ hlt)
    obtain ⟨thread', st, hres, hcloser, hless⟩ :=
      thread.step_done (h.done thread (List.mem_of_getElem? hk)) world config env s.store
    have hstep : (s.unitStep world config k env).res =
        .ok { s with threads := s.threads.set k thread', store := st } := by
      simp [Process.unitStep, hk, hidle, Proc.bind_of_ok hres]
    have hsum := sum_map_set UnitThread.stepsLeft hk thread'
    refine ⟨_, hstep, ⟨h.toStopped.carries (unitStep_cases hstep).1, h.idle, ?_⟩, ?_, fun t ht hexited => ?_⟩
    · rw [List.length_set, h.number]
    · rcases hcloser with ⟨rfl, rfl⟩ | hcloser
      · refine Or.inl ?_
        obtain ⟨hlt, rfl⟩ := List.getElem?_eq_some_iff.mp hk
        rw [List.set_getElem_self hlt]
      · refine Or.inr ?_
        simp only [Process.stepsLeft]
        omega
    · cases ht
      have := hless hexited
      simp only [Process.stepsLeft]
      omega

theorem exists_pos_of_sum_map {α : Type} {f : α → Nat} {l : List α} (h : (l.map f).sum ≠ 0) : ∃ a ∈ l, f a ≠ 0 := by
  by_contra hall
  simp only [not_exists, not_and, not_not] at hall
  refine h (List.sum_eq_zero fun n hn => ?_)
  obtain ⟨a, ha, rfl⟩ := List.mem_map.mp hn
  exact hall a ha

/-- When `main` cannot go on, it waits for a thread that can. -/
theorem Settling.waits_for {n : Nat} (h : Settling units config n s) (h0 : s.stepsLeft units config ≠ 0)
    (hmain : ¬ (s.joinBlocks = false ∧ s.main.pc ≠ .finished)) :
    ∃ (k : Nat) (thread : UnitThread ι), s.threads[k]? = some thread ∧ thread.exited = false := by
  by_cases hfin : s.main.pc = .finished
  · have hsum : (s.threads.map UnitThread.stepsLeft).sum ≠ 0 := by
      simpa [Process.stepsLeft, hfin, MainPc.stepsLeft] using h0
    obtain ⟨thread, hmem, hleft⟩ := exists_pos_of_sum_map hsum
    obtain ⟨k, hk⟩ := List.mem_iff_getElem?.mp hmem
    exact ⟨k, thread, hk, UnitThread.not_exited_of_stepsLeft hleft⟩
  · have hblocks : s.joinBlocks = true := by
      cases hb : s.joinBlocks with
      | true => rfl
      | false => exact absurd ⟨hb, hfin⟩ hmain
    unfold Process.joinBlocks at hblocks
    split at hblocks
    next i _ =>
      simp only [Bool.and_eq_true, decide_eq_true_eq, Bool.not_eq_true'] at hblocks
      obtain ⟨hi, hany⟩ := hblocks
      have hlt : i < s.threads.length := h.length_eq ▸ hi
      rw [h.indexOf hlt] at hany
      refine ⟨i, s.threads[i], List.getElem?_eq_getElem hlt, ?_⟩
      simpa [List.getElem?_eq_getElem hlt] using hany
    next => cases hblocks

theorem settling_progress [DecidableEq ι] (world : World ι) (n : Nat) :
    Proc.Progress (Process.step world units config) Act.turn (Party.below n) (Settling units config n)
      (Process.stepsLeft units config) where
  turns s a p h ha := by
    cases a with
    | main res =>
      obtain ⟨s', hres, hsettling, hcloser, -⟩ := h.main res
      exact ⟨s', hres, hsettling, hcloser⟩
    | unit k env =>
      obtain ⟨s', hres, hsettling, hcloser, -⟩ := h.unit world k env
      exact ⟨s', hres, hsettling, hcloser⟩
    | sigint q env => cases ha
    | handler q survives => cases ha
  helpful s h h0 := by
    by_cases hmain : s.joinBlocks = false ∧ s.main.pc ≠ .finished
    · refine ⟨.main, trivial, fun a s' ha hs => ?_⟩
      cases a with
      | main res =>
        obtain ⟨s'', hres, -, -, hless⟩ := h.main res
        cases hs.symm.trans hres
        exact hless hmain.1 hmain.2
      | unit k env => cases ha
      | sigint q env => cases ha
      | handler q survives => cases ha
    · obtain ⟨k, thread, hk, hexited⟩ := h.waits_for h0 hmain
      refine ⟨.unit k, h.number ▸ (List.getElem?_eq_some_iff.mp hk).1, fun a s' ha hs => ?_⟩
      cases a with
      | unit j env =>
        cases ha
        obtain ⟨s'', hres, -, -, hless⟩ := h.unit world k env
        cases hs.symm.trans hres
        exact hless thread hk hexited
      | main res => cases ha
      | sigint q env => cases ha
      | handler q survives => cases ha

theorem Settling.stepsLeft_le {n : Nat} (h : Settling units config n s) : s.stepsLeft units config ≤ 131 := by
  have hunits := units.bounded
  have hjobs : (enabledJobs units config).length ≤ maxUnitNum := length_enabledJobs_le
  have hmain : s.main.pc.stepsLeft units config ≤ 67 := by
    unfold maxUnitNum at hunits hjobs
    cases s.main.pc with
    | mqtt2rest i | rest2mqtt i | joining i | finished =>
      simp only [MainPc.stepsLeft]
      omega
  have hthreads : (s.threads.map UnitThread.stepsLeft).sum ≤ s.threads.length * 2 := by
    refine (List.sum_le_card_nsmul _ 2 fun m hm => ?_).trans_eq (by simp)
    obtain ⟨thread, -, rfl⟩ := List.mem_map.mp hm
    unfold UnitThread.stepsLeft
    split <;> omega
  have hlen := h.length_le
  unfold maxUnitNum at hlen
  unfold Process.stepsLeft
  omega

theorem finished_of_stepsLeft {pc : MainPc} (h : pc.stepsLeft units config = 0) : pc = .finished := by
  cases pc with
  | mqtt2rest i | rest2mqtt i | joining i =>
    simp only [MainPc.stepsLeft] at h
    omega
  | finished => rfl

theorem UnitThread.exited_of_stepsLeft {thread : UnitThread ι} (hdone : thread.done = true) (h : thread.stepsLeft = 0) :
    thread.exited = true := by
  cases thread with
  | mqtt2rest u phase =>
    cases phase with
    | starting | looping s | working s d => cases hdone
    | waiting s b | leaving s => cases h
    | exited => rfl
  | rest2mqtt u phase =>
    cases phase with
    | starting | looping s | working s d => cases hdone
    | waiting s b | leaving s => cases h
    | exited => rfl

theorem Settling.over {n : Nat} (h : Settling units config n s) (h0 : s.stepsLeft units config = 0) :
    s.main.pc = .finished ∧ s.threads.length = (enabledJobs units config).length ∧
      ∀ thread ∈ s.threads, thread.exited = true := by
  obtain ⟨hmain, hthreads⟩ := Nat.add_eq_zero_iff.mp h0
  refine ⟨finished_of_stepsLeft hmain, ?_, fun thread hmem => ?_⟩
  · rw [h.length_eq, h.counter]
  · refine UnitThread.exited_of_stepsLeft (h.done thread hmem) ?_
    exact List.sum_eq_zero_iff.mp hthreads _ (List.mem_map_of_mem hmem)

end

/-- **The process comes to its end after a shutdown that is heeded**, under every schedule in rounds that give each
party a turn, and at the latest after as many of them as there are steps left. -/
theorem shutdown_terminates [DecidableEq ι] {world : World ι} {units : Units} {config : Configuration}
    {beyond : Nat → Tid} {acts : List (Act ι)} {s : Process ι}
    (hrun : Proc.runMeeting (Process.step world units config) (Process.heeded units config)
      (Process.start world beyond) acts = some s)
    (hhandled : s.handled = true) (hidle : ∀ p, Party.below s.threads.length p → s.handling p = none)
    {rounds : List (List (Act ι))} (hturns : ∀ r ∈ rounds, ∀ a ∈ r, a.turn.isSome = true)
    (hall : ∀ r ∈ rounds, ∀ p, Party.below s.threads.length p → ∃ a ∈ r, a.turn = some p) (hlen : 131 ≤ rounds.length) :
    ∃ out s', rounds.flatten.foldlM (Process.step world units config) s = ⟨out, .ok s'⟩ ∧ NoPoll out ∧
      s'.main.pc = .finished ∧ s'.threads.length = (enabledJobs units config).length ∧
      ∀ thread ∈ s'.threads, thread.exited = true := by
  have hinv : ShutdownInv units config s :=
    Proc.runMeeting_inv _ (fun _ _ _ h hC hs => h.step hC hs) (shutdownInv_start world beyond) hrun
  have hstopped := hinv.stopped hhandled
  have hsettling : Settling units config s.threads.length s := ⟨hstopped, hidle, rfl⟩
  obtain ⟨s', hres, hsettling', h0⟩ :=
    (settling_progress world s.threads.length).rounds hturns hall hsettling (hsettling.stepsLeft_le.trans hlen)
  refine ⟨_, s', Proc.eq_of_ok hres, ?_, hsettling'.over h0⟩
  exact noPoll.foldlM_inv (fun s a h => Stopped.noPoll h world a) (fun _ _ _ h hs => h.step hs) _ hstopped

theorem party_below_two {p : Party} (h : Party.below 2 p) : p = .main ∨ p = .unit 0 ∨ p = .unit 1 := by
  cases p with
  | main => exact Or.inl rfl
  | unit k =>
    rcases Nat.lt_succ_iff_lt_or_eq.mp h with hk | rfl
    · rw [Nat.lt_one_iff.mp hk]
      exact Or.inr (Or.inl rfl)
    · exact Or.inr (Or.inr rfl)

def fairRound : List (Act Unit) := mainActs 1 ++ unitActs 0 1 ++ unitActs 1 1

theorem shutdown_sampleUnits : ∃ s, Proc.runMeeting sampleStep (Process.heeded (sampleUnits rootA) sampleConfiguration)
      (Process.start sampleWorld fun _ => 0)
      (mainActs 4 ++ unitActs 0 2 ++ unitActs 1 2 ++ handlerActs (.unit 0) 3) = some s ∧
    s.handled = true ∧ ∃ out s', (List.replicate 131 fairRound).flatten.foldlM sampleStep s = ⟨out, .ok s'⟩ ∧
      s'.main.pc = .finished := by
  have hrun : (Proc.runMeeting sampleStep (Process.heeded (sampleUnits rootA) sampleConfiguration)
      (Process.start sampleWorld fun _ => 0) (mainActs 4 ++ unitActs 0 2 ++ unitActs 1 2 ++ handlerActs (.unit 0) 3)).map
        (fun s => (s.handled, s.threads.length, s.handling .main, s.handling (.unit 0), s.handling (.unit 1))) =
      some (true, 2, none, none, none) := by decide
  obtain ⟨s, hs, hres⟩ := Option.map_eq_some_iff.mp hrun
  simp only [Prod.mk.injEq] at hres
  obtain ⟨hhandled, hlen, hmain, hunit0, hunit1⟩ := hres
  have hidle : ∀ p, Party.below s.threads.length p → s.handling p = none := by
    intro p hp
    rw [hlen] at hp
    rcases party_below_two hp with rfl | rfl | rfl
    · exact hmain
    · exact hunit0
    · exact hunit1
  have hturns : ∀ r ∈ List.replicate 131 fairRound, ∀ a ∈ r, a.turn.isSome = true := by
    intro r hr
    rw [List.eq_of_mem_replicate hr]
    simp [fairRound, mainActs, unitActs, Act.turn]
  have hall : ∀ r ∈ List.replicate 131 fairRound, ∀ p, Party.below s.threads.length p → ∃ a ∈ r, a.turn = some p := by
    intro r hr p hp
    rw [List.eq_of_mem_replicate hr]
    rw [hlen] at hp
    rcases party_below_two hp with rfl | rfl | rfl
    · exact ⟨.main (.offered 1), by simp [fairRound, mainActs], rfl⟩
    · exact ⟨.unit 0 sampleUnitEnv, by simp [fairRound, unitActs], rfl⟩
    · exact ⟨.unit 1 sampleUnitEnv, by simp [fairRound, unitActs], rfl⟩
  obtain ⟨out, s', hend, -, hfin, -⟩ :=
    shutdown_terminates hs hhandled hidle hturns hall (by rw [List.length_replicate])
  exact ⟨s, hs, hhandled, out, s', hend, hfin⟩

end Mqrestt
