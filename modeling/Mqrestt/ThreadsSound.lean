import Mqrestt.MainSound

/-!
# The table of threads

Between two steps of `main` the table holds the threads started so far, in order. A zero
follows them while there is room for one, and a thread stays in the table after its join.
-/

namespace Mqrestt
open CSem

/-! ## The calls of `main` and the handler -/

def Effect.create? : Effect → Option Tid
  | .sys (.pthreadCreate t) => some t
  | _ => none

def creates (out : List Effect) : List Tid := out.filterMap Effect.create?

def Effect.join? : Effect → Option Tid
  | .sys (.pthreadJoin t) => some t
  | _ => none

def joins (out : List Effect) : List Tid := out.filterMap Effect.join?

def Effect.kill? : Effect → Option Tid
  | .sys (.pthreadKill t) => some t
  | _ => none

def kills (out : List Effect) : List Tid := out.filterMap Effect.kill?

theorem creates_append (a b : List Effect) : creates (a ++ b) = creates a ++ creates b := List.filterMap_append

theorem joins_append (a b : List Effect) : joins (a ++ b) = joins a ++ joins b := List.filterMap_append

theorem kills_append (a b : List Effect) : kills (a ++ b) = kills a ++ kills b := List.filterMap_append

/-! ## Steps of `main` -/

def jobsBefore (units : Units) (config : Configuration) : MainPc → List Job
  | .mqtt2rest i => enabledMqtt2rest config (units.mqtt2rest.take i)
  | .rest2mqtt i => enabledMqtt2rest config units.mqtt2rest ++ enabledRest2mqtt config (units.rest2mqtt.take i)
  | .joining _ | .finished => enabledJobs units config

def joinedBefore (units : Units) (config : Configuration) : MainPc → Nat
  | .mqtt2rest _ | .rest2mqtt _ => 0
  | .joining i => i
  | .finished => (enabledJobs units config).length

section
variable {units : Units} {config : Configuration}

theorem filter_map_take_succ {α β : Type} {f : α → Bool} {g : α → β} {l : List α} {i : Nat} {a : α} (h : l[i]? = some a) :
    ((l.take (i + 1)).filter f).map g = ((l.take i).filter f).map g ++ if f a then [g a] else [] := by
  rw [List.take_add_one, h, List.filter_append, List.map_append]
  cases hf : f a <;> simp [hf]

theorem jobsBefore_sublist (pc : MainPc) : (jobsBefore units config pc).Sublist (enabledJobs units config) := by
  cases pc with
  | mqtt2rest i =>
    have htake : (enabledMqtt2rest config (units.mqtt2rest.take i)).Sublist (enabledMqtt2rest config units.mqtt2rest) :=
      ((List.take_sublist i _).filter _).map _
    exact htake.trans (List.sublist_append_left _ _)
  | rest2mqtt i =>
    have htake : (enabledRest2mqtt config (units.rest2mqtt.take i)).Sublist (enabledRest2mqtt config units.rest2mqtt) :=
      ((List.take_sublist i _).filter _).map _
    exact (List.Sublist.refl _).append htake
  | joining i | finished => exact List.Sublist.refl _

theorem length_enabledJobs_le : (enabledJobs units config).length ≤ maxUnitNum := by
  have hm : (enabledMqtt2rest config units.mqtt2rest).length ≤ units.mqtt2rest.length := by
    simpa [enabledMqtt2rest] using List.length_filter_le _ units.mqtt2rest
  have hr : (enabledRest2mqtt config units.rest2mqtt).length ≤ units.rest2mqtt.length := by
    simpa [enabledRest2mqtt] using List.length_filter_le _ units.rest2mqtt
  have hb := units.bounded
  simp only [enabledJobs, List.length_append]
  omega

inductive Moves (units : Units) (config : Configuration) (s : MainState) : List Effect → MainState → Prop
  | passes {out : List Effect} {pc : MainPc} (hout : creates out = [] ∧ joins out = [])
      (hjobs : jobsBefore units config pc = jobsBefore units config s.pc)
      (hjoined : joinedBefore units config pc = joinedBefore units config s.pc) : Moves units config s out { s with pc }
  | starts {out : List Effect} {pc : MainPc} {job : Job} {thread : Tid}
      (hout : creates out = [freshTid s.created thread] ∧ joins out = [])
      (hjobs : jobsBefore units config pc = jobsBefore units config s.pc ++ [job])
      (hjoined : joinedBefore units config pc = 0 ∧ joinedBefore units config s.pc = 0) :
      Moves units config s out { s with
        pc
        threads := Function.update s.threads s.threadcounter (freshTid s.created thread)
        threadcounter := s.threadcounter + 1
        created := s.created ++ [(freshTid s.created thread, job)] }
  | joins {out : List Effect} {i : Nat} (hout : creates out = [] ∧ joins out = [s.threads i]) (hpc : s.pc = .joining i)
      (hi : i < s.threadcounter) : Moves units config s out { s with pc := .joining (i + 1) }
  | ends {i : Nat} (hpc : s.pc = .joining i) (hi : s.threadcounter ≤ i) :
      Moves units config s [] { s with pc := .finished }

theorem Moves.created {s s' : MainState} {out : List Effect} (h : Moves units config s out s') :
    (s'.created = s.created ∧ jobsBefore units config s'.pc = jobsBefore units config s.pc) ∨
      ∃ t job, s'.created = s.created ++ [(t, job)] ∧
        jobsBefore units config s'.pc = jobsBefore units config s.pc ++ [job] := by
  cases h with
  | passes _ hjobs _ => exact .inl ⟨rfl, hjobs⟩
  | starts _ hjobs _ => exact .inr ⟨_, _, rfl, hjobs⟩
  | joins _ hpc _ => exact .inl ⟨rfl, by rw [hpc]; rfl⟩
  | ends hpc _ => exact .inl ⟨rfl, by rw [hpc]; rfl⟩

/-- One iteration of either loop that starts threads. -/
theorem iteration_moves {s s' : MainState} {pc : MainPc} {enabled : Bool} {job : Job} {res : CreateResult}
    (hjobs : jobsBefore units config pc = jobsBefore units config s.pc ++ if enabled then [job] else [])
    (hjoined : joinedBefore units config pc = 0 ∧ joinedBefore units config s.pc = 0)
    (h : (if !enabled then pure { s with pc } else startThread { s with pc } job res : Run MainState).res = .ok s') :
    Moves units config s (if !enabled then pure { s with pc } else startThread { s with pc } job res : Run MainState).out
      s' := by
  cases enabled with
  | false =>
    cases h
    exact .passes ⟨rfl, rfl⟩ (hjobs.trans (List.append_nil _)) (hjoined.1.trans hjoined.2.symm)
  | true =>
    cases res with
    | failed ret => cases h
    | offered thread =>
      cases h
      exact .starts ⟨rfl, rfl⟩ hjobs hjoined

theorem mainStep_moves {s s' : MainState} {res : CreateResult} (h : (mainStep units config s res).res = .ok s') :
    Moves units config s (mainStep units config s res).out s' := by
  unfold mainStep at h ⊢
  cases hpc : s.pc with
  | mqtt2rest i =>
    simp only [hpc] at h ⊢
    cases hu : units.mqtt2rest[i]? with
    | none =>
      simp only [hu] at h ⊢
      cases h
      have hlen : units.mqtt2rest.length ≤ i := List.getElem?_eq_none_iff.mp hu
      refine .passes ⟨rfl, rfl⟩ ?_ (by rw [hpc]; rfl)
      simp [hpc, jobsBefore, enabledRest2mqtt, List.take_of_length_le hlen]
    | some u =>
      simp only [hu] at h ⊢
      refine iteration_moves ?_ ⟨rfl, by rw [hpc]; rfl⟩ h
      rw [hpc]
      exact filter_map_take_succ hu
  | rest2mqtt i =>
    simp only [hpc] at h ⊢
    cases hu : units.rest2mqtt[i]? with
    | none =>
      simp only [hu] at h ⊢
      cases h
      have hlen : units.rest2mqtt.length ≤ i := List.getElem?_eq_none_iff.mp hu
      refine .passes ⟨rfl, rfl⟩ ?_ (by rw [hpc]; rfl)
      simp [hpc, jobsBefore, enabledJobs, List.take_of_length_le hlen]
    | some u =>
      simp only [hu] at h ⊢
      refine iteration_moves ?_ ⟨rfl, by rw [hpc]; rfl⟩ h
      rw [hpc]
      simp only [jobsBefore, List.append_assoc]
      exact congrArg _ (filter_map_take_succ hu)
  | joining i =>
    simp only [hpc] at h ⊢
    split at h
    next hi =>
      rw [if_pos hi]
      cases h
      exact .joins ⟨rfl, rfl⟩ hpc hi
    next hi =>
      rw [if_neg hi]
      cases h
      exact .ends hpc (Nat.le_of_not_lt hi)
  | finished =>
    simp only [hpc] at h ⊢
    cases h
    exact .passes ⟨rfl, rfl⟩ rfl rfl

end

/-! ## The table of threads -/

theorem freshTid_ne_zero (created : List (Tid × Job)) (offer : Tid) : freshTid created offer ≠ 0 := by
  unfold freshTid
  split
  · exact Nat.succ_ne_zero _
  next h => exact fun h0 => h (.inl h0)

theorem freshTid_not_mem (created : List (Tid × Job)) (offer : Tid) :
    freshTid created offer ∉ created.map Prod.fst := by
  unfold freshTid
  split
  · intro hmem
    exact Nat.not_succ_le_self _ (List.le_max_of_le hmem le_rfl)
  next h => exact fun hmem => h (.inr hmem)

/-- What holds between the steps of `main`, after the effects `out`. -/
structure TableInv (units : Units) (config : Configuration) (out : List Effect) (s : MainState) : Prop where
  counter : s.threadcounter = s.created.length
  jobs : s.created.map Prod.snd = jobsBefore units config s.pc
  started : creates out = s.created.map Prod.fst
  entries : s.created.map Prod.fst = (List.range s.created.length).map s.threads
  nonzero : 0 ∉ s.created.map Prod.fst
  nodup : (s.created.map Prod.fst).Nodup
  rest : ∀ k, s.created.length ≤ k → k < maxUnitNum → s.threads k = 0
  joined : joins out = (s.created.map Prod.fst).take (joinedBefore units config s.pc)
  joined_le : joinedBefore units config s.pc ≤ s.created.length

section
variable {units : Units} {config : Configuration} {out : List Effect} {s : MainState}

theorem TableInv.length_jobs (h : TableInv units config out s) :
    s.created.length = (jobsBefore units config s.pc).length := by
  rw [← h.jobs, List.length_map]

theorem TableInv.entry (h : TableInv units config out s) {k : Nat}
    (hk : k < s.created.length) : (s.created.map Prod.fst)[k]? = some (s.threads k) := by
  rw [h.entries, List.getElem?_map, List.getElem?_range hk]
  rfl

theorem TableInv.entry_ne_zero (h : TableInv units config out s) {k : Nat}
    (hk : k < s.created.length) : s.threads k ≠ 0 := by
  intro h0
  have hmem := List.mem_of_getElem? (h.entry hk)
  rw [h0] at hmem
  exact h.nonzero hmem

theorem tableInv_start (beyond : Nat → Tid) : TableInv units config [] (mainStart beyond) where
  counter := rfl
  jobs := rfl
  started := rfl
  entries := rfl
  nonzero := List.not_mem_nil
  nodup := List.nodup_nil
  rest _ _ hk := if_pos hk
  joined := rfl
  joined_le := le_rfl

theorem tableInv_passes {es : List Effect} {pc : MainPc} (h : TableInv units config out s)
    (hout : creates es = [] ∧ joins es = []) (hjobs : jobsBefore units config pc = jobsBefore units config s.pc)
    (hjoined : joinedBefore units config pc = joinedBefore units config s.pc) :
    TableInv units config (out ++ es) { s with pc } where
  counter := h.counter
  jobs := h.jobs.trans hjobs.symm
  started := by rw [creates_append, hout.1, List.append_nil, h.started]
  entries := h.entries
  nonzero := h.nonzero
  nodup := h.nodup
  rest := h.rest
  joined := by rw [joins_append, hout.2, List.append_nil, h.joined, hjoined]
  joined_le := hjoined ▸ h.joined_le

theorem tableInv_starts {es : List Effect} {pc : MainPc} {job : Job} {t : Tid}
    (h : TableInv units config out s) (hout : creates es = [t] ∧ joins es = []) (h0 : t ≠ 0)
    (hfresh : t ∉ s.created.map Prod.fst)
    (hjobs : jobsBefore units config pc = jobsBefore units config s.pc ++ [job])
    (hjoined : joinedBefore units config pc = 0 ∧ joinedBefore units config s.pc = 0) :
    TableInv units config (out ++ es) { s with
      pc
      threads := Function.update s.threads s.threadcounter t
      threadcounter := s.threadcounter + 1
      created := s.created ++ [(t, job)] } where
  counter := by simp [h.counter]
  jobs := by simp [h.jobs, hjobs]
  started := by simp [creates_append, hout.1, h.started]
  entries := by
    -- the entries before the counter are not touched
    have hsame : (List.range s.created.length).map (Function.update s.threads s.created.length t) =
        (List.range s.created.length).map s.threads :=
      List.map_congr_left fun k hk => Function.update_of_ne (List.mem_range.mp hk).ne _ _
    simp [h.counter, List.range_succ, hsame, h.entries]
  nonzero := by
    simp only [List.map_append, List.mem_append, not_or]
    exact ⟨h.nonzero, by simpa using h0.symm⟩
  nodup := by
    simp only [List.map_append, List.map_cons, List.map_nil]
    exact h.nodup.append (List.nodup_singleton t) (List.disjoint_singleton.mpr hfresh)
  rest k hk hb := by
    simp only [List.length_append, List.length_singleton] at hk
    have hne : k ≠ s.threadcounter := by
      have := h.counter
      omega
    exact (Function.update_of_ne hne _ _).trans (h.rest k (by omega) hb)
  joined := by simp [joins_append, hout.2, h.joined, hjoined]
  joined_le := hjoined.1 ▸ Nat.zero_le _

theorem tableInv_joins {es : List Effect} {i : Nat} (h : TableInv units config out s)
    (hout : creates es = [] ∧ joins es = [s.threads i]) (hpc : s.pc = .joining i) (hi : i < s.threadcounter) :
    TableInv units config (out ++ es) { s with pc := .joining (i + 1) } where
  counter := h.counter
  jobs := by rw [h.jobs, hpc]; rfl
  started := by rw [creates_append, hout.1, List.append_nil, h.started]
  entries := h.entries
  nonzero := h.nonzero
  nodup := h.nodup
  rest := h.rest
  joined := by
    have hj := h.joined
    rw [hpc] at hj
    rw [joins_append, hj, hout.2, joinedBefore, joinedBefore, List.take_add_one, h.entry (h.counter ▸ hi)]
    rfl
  joined_le := h.counter ▸ hi

theorem tableInv_ends {i : Nat} (h : TableInv units config out s)
    (hpc : s.pc = .joining i) (hi : s.threadcounter ≤ i) : TableInv units config out { s with pc := .finished } := by
  have hlen := h.length_jobs
  have hjoined := h.joined
  have hle := h.joined_le
  have hcounter := h.counter
  rw [hpc] at hlen hjoined hle
  have hi' : i = (enabledJobs units config).length := by
    simp only [joinedBefore, jobsBefore] at hle hlen
    omega
  exact {
    counter := h.counter
    jobs := by rw [h.jobs, hpc]; rfl
    started := h.started
    entries := h.entries
    nonzero := h.nonzero
    nodup := h.nodup
    rest := h.rest
    joined := by rw [hjoined, joinedBefore, joinedBefore, hi']
    joined_le := hlen.ge }

theorem TableInv.moves {es : List Effect} {s' : MainState} (h : TableInv units config out s)
    (hm : Moves units config s es s') : TableInv units config (out ++ es) s' := by
  cases hm with
  | passes hout hjobs hjoined => exact tableInv_passes h hout hjobs hjoined
  | starts hout hjobs hjoined =>
    exact tableInv_starts h hout (freshTid_ne_zero _ _) (freshTid_not_mem _ _) hjobs hjoined
  | joins hout hpc hi => exact tableInv_joins h hout hpc hi
  | ends hpc hi =>
    rw [List.append_nil]
    exact tableInv_ends h hpc hi

def Reached (units : Units) (config : Configuration) (out : List Effect) (s : MainState) : Prop :=
  ∃ (beyond : Nat → Tid) (offers : List CreateResult),
    offers.foldlM (mainStep units config) (mainStart beyond) = ⟨out, .ok s⟩

theorem Reached.step {s' : MainState} {res : CreateResult} (h : Reached units config out s)
    (hs : (mainStep units config s res).res = .ok s') :
    Reached units config (out ++ (mainStep units config s res).out) s' := by
  obtain ⟨beyond, offers, hrun⟩ := h
  refine ⟨beyond, offers ++ [res], ?_⟩
  rw [Proc.foldlM_snoc, hrun, Proc.mk_ok_bind, hs]

theorem Reached.tableInv (h : Reached units config out s) : TableInv units config out s := by
  obtain ⟨beyond, offers, hrun⟩ := h
  exact Proc.foldlM_inv (tableInv_start beyond) (fun _ _ _ _ hI hres => hI.moves (mainStep_moves hres)) hrun

end

/-! ## The handler at a point of `main` -/

theorem killStep_zero {threads : Nat → Tid} {i : Nat} (h : threads i = 0) :
    killStep threads i = ⟨[.read .threads maxUnitNum i], .ok none⟩ := by
  simp [killStep, h]

theorem killStep_nonzero {threads : Nat → Tid} {i : Nat} (h : threads i ≠ 0) :
    killStep threads i =
      ⟨[.read .threads maxUnitNum i, .sys (.pthreadKill (threads i))], .ok (some (i + 1))⟩ := by
  simp [killStep, h]

theorem killThreads_spec {threads : Nat → Tid} (d i fuel : Nat) (hfuel : d < fuel)
    (hnz : ∀ k, i ≤ k → k < i + d → threads k ≠ 0) (h0 : threads (i + d) = 0) :
    (killThreads threads fuel i).res = .ok true ∧
      accesses .threads (killThreads threads fuel i).out = (List.range' i (d + 1)).map Int.ofNat ∧
      kills (killThreads threads fuel i).out = (List.range' i d).map threads := by
  induction d generalizing i fuel with
  | zero =>
    obtain ⟨fuel, rfl⟩ := Nat.exists_eq_succ_of_ne_zero hfuel.ne'
    rw [Nat.add_zero] at h0
    rw [killThreads, killStep_zero h0]
    exact ⟨rfl, rfl, rfl⟩
  | succ d ih =>
    obtain ⟨fuel, rfl⟩ := Nat.exists_eq_succ_of_ne_zero (Nat.ne_of_gt (Nat.zero_lt_of_lt hfuel))
    obtain ⟨hres, hacc, hkill⟩ := ih (i + 1) fuel (Nat.lt_of_succ_lt_succ hfuel)
      (fun k hk hlt => hnz k (by omega) (by omega)) (by rwa [Nat.add_assoc, Nat.add_comm 1])
    rw [killThreads, killStep_nonzero (hnz i le_rfl (by omega)), Proc.mk_ok_bind]
    refine ⟨hres, ?_, ?_⟩
    · rw [accesses_append, hacc]
      rfl
    · rw [kills_append, hkill]
      rfl

theorem killThreads_reads {threads : Nat → Tid} (d i fuel : Nat) (hnz : ∀ k, i ≤ k → k < i + d → threads k ≠ 0) :
    (fuel ≤ d → (killThreads threads fuel i).res = .ok false) ∧
      (d < fuel → Int.ofNat (i + d) ∈ accesses .threads (killThreads threads fuel i).out) := by
  induction d generalizing i fuel with
  | zero =>
    cases fuel with
    | zero => exact ⟨fun _ => rfl, fun h => absurd h (lt_irrefl 0)⟩
    | succ fuel =>
      refine ⟨fun h => absurd h (Nat.not_succ_le_zero fuel), fun _ => ?_⟩
      rw [killThreads]
      by_cases hi : threads i = 0
      · rw [killStep_zero hi]
        exact List.mem_cons_self
      · rw [killStep_nonzero hi]
        exact List.mem_cons_self
  | succ d ih =>
    cases fuel with
    | zero => exact ⟨fun _ => rfl, fun h => absurd h (Nat.not_lt_zero _)⟩
    | succ fuel =>
      obtain ⟨hres, hacc⟩ := ih (i + 1) fuel fun k hk hlt => hnz k (by omega) (by omega)
      rw [killThreads, killStep_nonzero (hnz i le_rfl (by omega)), Proc.mk_ok_bind]
      refine ⟨fun h => hres (Nat.le_of_succ_le_succ h), fun h => ?_⟩
      rw [accesses_append, Nat.add_comm d 1, ← Nat.add_assoc]
      exact List.mem_append_right _ (hacc (Nat.lt_of_succ_lt_succ h))

theorem handleSignal_sigint (env : SignalEnv) (threads : Nat → Tid) (fuel : Nat) :
    (handleSignal .sigint env threads fuel).res = (killThreads threads fuel 0).res ∧
      accesses .threads (handleSignal .sigint env threads fuel).out =
        accesses .threads (killThreads threads fuel 0).out ∧
      kills (handleSignal .sigint env threads fuel).out = kills (killThreads threads fuel 0).out := by
  unfold handleSignal
  dsimp only
  split
  · split
    · exact ⟨rfl, rfl, rfl⟩
    · exact ⟨rfl, rfl, rfl⟩
  · exact ⟨rfl, rfl, rfl⟩

/-- The handler ends, stays inside the table and signals these threads, once each. -/
def Signals (threads : Nat → Tid) (targets : List Tid) : Prop :=
  ∀ env, ∃ fuel, (handleSignal .sigint env threads fuel).res = .ok true ∧
    (∀ i ∈ accesses .threads (handleSignal .sigint env threads fuel).out, 0 ≤ i ∧ i < maxUnitNum) ∧
    kills (handleSignal .sigint env threads fuel).out = targets

/-- The table is as the handler relies on, at a point of `main` after the effects `out`. -/
structure TableOk (units : Units) (config : Configuration) (out : List Effect) (s : MainState) : Prop where
  jobs : s.created.map Prod.snd = jobsBefore units config s.pc
  started : creates out = s.created.map Prod.fst
  entries : s.created.map Prod.fst = (List.range s.created.length).map s.threads
  nodup : (s.created.map Prod.fst).Nodup
  zero : s.created.length < maxUnitNum ∧ s.threads s.created.length = 0
  handler : Signals s.threads ((creates out).filter (· ∉ joins out))

section
variable {units : Units} {config : Configuration} {out : List Effect} {s : MainState}

theorem TableInv.nonzero_below (h : TableInv units config out s) :
    ∀ k, 0 ≤ k → k < 0 + s.created.length → s.threads k ≠ 0 := by
  intro k _ hk
  exact h.entry_ne_zero (by omega)

theorem TableInv.kills (h : TableInv units config out s) (hlt : s.created.length < maxUnitNum) {fuel : Nat}
    (hfuel : s.created.length < fuel) :
    (killThreads s.threads fuel 0).res = .ok true ∧
      (∀ i ∈ accesses .threads (killThreads s.threads fuel 0).out, 0 ≤ i ∧ i < maxUnitNum) ∧
      Mqrestt.kills (killThreads s.threads fuel 0).out = creates out := by
  have h0 : s.threads (0 + s.created.length) = 0 := h.rest _ (by omega) (by omega)
  obtain ⟨hres, hacc, hkill⟩ := killThreads_spec s.created.length 0 fuel hfuel h.nonzero_below h0
  refine ⟨hres, ?_, ?_⟩
  · intro i hi
    rw [hacc, List.mem_map] at hi
    obtain ⟨k, hk, rfl⟩ := hi
    have := List.mem_range'_1.mp hk
    exact ⟨Int.natCast_nonneg k, by show (k : Int) < _; omega⟩
  · rw [hkill, h.started, h.entries, List.range_eq_range']

theorem TableInv.signals_iff (h : TableInv units config out s) (hlt : s.created.length < maxUnitNum)
    (targets : List Tid) : Signals s.threads targets ↔ targets = creates out := by
  constructor
  · intro hsig
    obtain ⟨fuel, hres, -, hkills⟩ := hsig ⟨-1, 0⟩
    obtain ⟨hres', -, hkills'⟩ := handleSignal_sigint ⟨-1, 0⟩ s.threads fuel
    have hfuel : s.created.length < fuel := by
      by_contra hle
      have hnot := (killThreads_reads s.created.length 0 fuel h.nonzero_below).1 (by omega)
      rw [hres', hnot] at hres
      cases hres
    rw [← hkills, hkills', (h.kills hlt hfuel).2.2]
  · rintro rfl env
    obtain ⟨hres, hacc, hkills⟩ := h.kills hlt (Nat.lt_succ_self _)
    obtain ⟨hres', hacc', hkills'⟩ := handleSignal_sigint env s.threads (s.created.length + 1)
    exact ⟨s.created.length + 1, hres'.trans hres, hacc' ▸ hacc, hkills'.trans hkills⟩

theorem TableInv.tableOk_iff (h : TableInv units config out s) : TableOk units config out s ↔
      (jobsBefore units config s.pc).length < maxUnitNum ∧ joinedBefore units config s.pc = 0 := by
  rw [← h.length_jobs]
  constructor
  · intro hok
    refine ⟨hok.zero.1, ?_⟩
    -- a joined thread would be signalled again
    have hall := (h.signals_iff hok.zero.1 _).mp hok.handler
    have hnone : joins out = [] := by
      refine List.eq_nil_iff_forall_not_mem.mpr fun t ht => ?_
      have hmem : t ∈ creates out := by
        rw [h.started]
        rw [h.joined] at ht
        exact List.mem_of_mem_take ht
      have := List.filter_eq_self.mp hall t hmem
      simp [ht] at this
    have hle := h.joined_le
    rw [h.joined, List.take_eq_nil_iff] at hnone
    rcases hnone with h0 | hnil
    · exact h0
    · rw [List.map_eq_nil_iff] at hnil
      rw [hnil] at hle
      exact Nat.le_zero.mp hle
  · rintro ⟨hlt, hjoined⟩
    have hnone : joins out = [] := by rw [h.joined, hjoined, List.take_zero]
    exact {
      jobs := h.jobs
      started := h.started
      entries := h.entries
      nodup := h.nodup
      zero := ⟨hlt, h.rest _ le_rfl hlt⟩
      handler := (h.signals_iff hlt _).mpr (by simp [hnone]) }

end

/-! ## Points that are reached -/

section
variable {units : Units} {config : Configuration}

def ReachedAt (units : Units) (config : Configuration) (pc : MainPc) : Prop :=
  ∃ out s, Reached units config out s ∧ s.pc = pc

theorem iteration_returns (s : MainState) (pc : MainPc) (enabled : Bool) (job : Job) :
    ∃ s', (if !enabled then pure { s with pc } else startThread { s with pc } job (.offered 0) : Run MainState).res =
      .ok s' ∧ s'.pc = pc := by
  cases enabled with
  | false => exact ⟨_, rfl, rfl⟩
  | true => exact ⟨_, rfl, rfl⟩

theorem mainStep_mqtt2rest {s : MainState} {i : Nat} (hpc : s.pc = .mqtt2rest i) :
    ∃ s', (mainStep units config s (.offered 0)).res = .ok s' ∧
      s'.pc = if i < units.mqtt2rest.length then .mqtt2rest (i + 1) else .rest2mqtt 0 := by
  unfold mainStep
  rw [hpc]
  dsimp only
  split
  next hu => exact ⟨_, rfl, (if_neg (Nat.not_lt.mpr (List.getElem?_eq_none_iff.mp hu))).symm⟩
  next u hu =>
    have hi : i < units.mqtt2rest.length := (List.getElem?_eq_some_iff.mp hu).1
    rw [if_pos hi]
    exact iteration_returns s (.mqtt2rest (i + 1)) u.enabled _

theorem mainStep_rest2mqtt {s : MainState} {i : Nat} (hpc : s.pc = .rest2mqtt i) :
    ∃ s', (mainStep units config s (.offered 0)).res = .ok s' ∧
      s'.pc = if i < units.rest2mqtt.length then .rest2mqtt (i + 1) else .joining 0 := by
  unfold mainStep
  rw [hpc]
  dsimp only
  split
  next hu => exact ⟨_, rfl, (if_neg (Nat.not_lt.mpr (List.getElem?_eq_none_iff.mp hu))).symm⟩
  next u hu =>
    have hi : i < units.rest2mqtt.length := (List.getElem?_eq_some_iff.mp hu).1
    rw [if_pos hi]
    exact iteration_returns s (.rest2mqtt (i + 1)) u.enabled _

theorem mainStep_joining {s : MainState} {i : Nat} (hpc : s.pc = .joining i) :
    ∃ s', (mainStep units config s (.offered 0)).res = .ok s' ∧
      s'.pc = if i < s.threadcounter then .joining (i + 1) else .finished := by
  unfold mainStep
  rw [hpc]
  dsimp only
  split
  · exact ⟨_, rfl, rfl⟩
  · exact ⟨_, rfl, rfl⟩

theorem reachedAt_mqtt2rest (i : Nat) (hi : i ≤ units.mqtt2rest.length) : ReachedAt units config (.mqtt2rest i) := by
  induction i with
  | zero => exact ⟨[], mainStart fun _ => 0, ⟨_, [], rfl⟩, rfl⟩
  | succ i ih =>
    obtain ⟨out, s, hr, hpc⟩ := ih (Nat.le_of_succ_le hi)
    obtain ⟨s', hstep, hpc'⟩ := mainStep_mqtt2rest hpc
    exact ⟨_, s', hr.step hstep, hpc'.trans (if_pos hi)⟩

theorem reachedAt_rest2mqtt (i : Nat) (hi : i ≤ units.rest2mqtt.length) : ReachedAt units config (.rest2mqtt i) := by
  induction i with
  | zero =>
    obtain ⟨out, s, hr, hpc⟩ := reachedAt_mqtt2rest units.mqtt2rest.length le_rfl
    obtain ⟨s', hstep, hpc'⟩ := mainStep_mqtt2rest hpc
    exact ⟨_, s', hr.step hstep, hpc'.trans (if_neg (lt_irrefl _))⟩
  | succ i ih =>
    obtain ⟨out, s, hr, hpc⟩ := ih (Nat.le_of_succ_le hi)
    obtain ⟨s', hstep, hpc'⟩ := mainStep_rest2mqtt hpc
    exact ⟨_, s', hr.step hstep, hpc'.trans (if_pos hi)⟩

theorem Reached.threadcounter {out : List Effect} {s : MainState} {i : Nat} (h : Reached units config out s)
    (hpc : s.pc = .joining i) : s.threadcounter = (enabledJobs units config).length := by
  rw [h.tableInv.counter, h.tableInv.length_jobs, hpc]
  rfl

theorem reachedAt_joining (i : Nat) (hi : i ≤ (enabledJobs units config).length) :
    ReachedAt units config (.joining i) := by
  induction i with
  | zero =>
    obtain ⟨out, s, hr, hpc⟩ := reachedAt_rest2mqtt units.rest2mqtt.length le_rfl
    obtain ⟨s', hstep, hpc'⟩ := mainStep_rest2mqtt hpc
    exact ⟨_, s', hr.step hstep, hpc'.trans (if_neg (lt_irrefl _))⟩
  | succ i ih =>
    obtain ⟨out, s, hr, hpc⟩ := ih (Nat.le_of_succ_le hi)
    obtain ⟨s', hstep, hpc'⟩ := mainStep_joining hpc
    refine ⟨_, s', hr.step hstep, hpc'.trans (if_pos ?_)⟩
    rw [hr.threadcounter hpc]
    exact hi

end

/-- **The table is as the handler relies on exactly before the first join, while it has a free entry.** -/
theorem tableOk_at_point_iff {units : Units} {config : Configuration} {out : List Effect} {s : MainState}
    (h : Reached units config out s) : TableOk units config out s ↔
      (jobsBefore units config s.pc).length < maxUnitNum ∧ joinedBefore units config s.pc = 0 :=
  h.tableInv.tableOk_iff

theorem tableOk_sampleUnits : ∃ out s, Reached (sampleUnits rootA) sampleConfiguration out s ∧ s.pc = .joining 0 ∧
    TableOk (sampleUnits rootA) sampleConfiguration out s := by
  obtain ⟨out, s, hr, hpc⟩ := @reachedAt_joining (sampleUnits rootA) sampleConfiguration 0 (Nat.zero_le _)
  refine ⟨out, s, hr, hpc, (tableOk_at_point_iff hr).mpr ?_⟩
  rw [hpc]
  decide

def fullFile : ConfigFile where
  name := bytes "mqrestt.conf"
  common := sampleConfiguration
  mqtt2rest := (List.range maxUnitNum).map fun i =>
    ⟨⟨List.replicate (i + 1) 97, by simp [List.mem_replicate]⟩, sampleMqtt2Rest.webserviceBaseurl, unit1, true⟩
  rest2mqtt := []
  mqtt2restTitles := by
    rw [List.map_map]
    refine List.nodup_range.map fun i j hij => ?_
    have := congrArg (fun t : CStr => t.bytes.length) hij
    simpa using this
  rest2mqttTitles := List.nodup_nil

def fullUnits : Units where
  mqtt2rest := fullFile.mqtt2rest.map mqtt2restOf
  rest2mqtt := []
  found := by simp [fullFile, maxUnitNum]
  bounded := by simp [fullFile]

/-- With 32 enabled units the handler reads behind the table; after a join it signals a thread that is gone. -/
theorem not_tableOk_full_joined :
    (∃ out s, (loadUnits fullFile ⟨fun _ => true, fun _ => true⟩).res = .ok fullUnits ∧
      Reached fullUnits sampleConfiguration out s ∧ ¬ TableOk fullUnits sampleConfiguration out s ∧
      ∀ fuel, maxUnitNum < fuel → Int.ofNat maxUnitNum ∈ accesses .threads (killThreads s.threads fuel 0).out) ∧
    ∃ out s, Reached (sampleUnits rootA) sampleConfiguration out s ∧
      ¬ TableOk (sampleUnits rootA) sampleConfiguration out s ∧
      ∃ t ∈ joins out, t ∈ kills (killThreads s.threads maxUnitNum 0).out := by
  constructor
  · obtain ⟨out, s, hr, hpc⟩ := @reachedAt_joining fullUnits sampleConfiguration 0 (Nat.zero_le _)
    have hlen : (jobsBefore fullUnits sampleConfiguration s.pc).length = maxUnitNum := by
      rw [hpc]
      rfl
    refine ⟨out, s, rfl, hr, ?_, ?_⟩
    · rw [hr.tableInv.tableOk_iff, hlen]
      exact fun h => lt_irrefl _ h.1
    · intro fuel hfuel
      have hnz := hr.tableInv.nonzero_below
      rw [hr.tableInv.length_jobs, hlen] at hnz
      simpa using (killThreads_reads maxUnitNum 0 fuel hnz).2 hfuel
  · obtain ⟨out, s, hr, hpc⟩ := @reachedAt_joining (sampleUnits rootA) sampleConfiguration 1 (by decide)
    have hlen : s.created.length = 2 := by
      rw [hr.tableInv.length_jobs, hpc]
      decide
    refine ⟨out, s, hr, ?_, ?_⟩
    · rw [hr.tableInv.tableOk_iff, hpc]
      exact fun h => Nat.one_ne_zero h.2
    · refine ⟨s.threads 0, ?_, ?_⟩
      · rw [hr.tableInv.joined, hpc, hr.tableInv.entries, hlen]
        exact List.mem_cons_self
      · rw [(hr.tableInv.kills (by rw [hlen]; decide) (by rw [hlen]; decide)).2.2, hr.tableInv.started,
          hr.tableInv.entries, hlen]
        exact List.mem_cons_self

end Mqrestt
