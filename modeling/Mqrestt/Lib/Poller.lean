import Mqrestt.Lib.Proc

/-!
# Threads that wait in a loop

A `Poller` enters a loop; in each iteration it begins a wait and then works on what the
wait returned, and it leaves the loop when a wait fails. Its thread goes on step by step,
and between two steps it can be interrupted: a wait fails at an interrupt, anywhere else the
interrupt is lost.
-/

namespace CSem

structure Poller (ε η σ α ω δ κ : Type) where
  enter : α → Proc ε η σ
  -- up to the begin of the wait; `false` if the iteration ends before it
  await : σ → ω → Proc ε η Bool
  -- whether the wait was interrupted
  failed : Bool → Proc ε η Unit
  work : σ → δ → κ → Proc ε η σ
  leave : σ → Proc ε η Unit

namespace Poller
variable {ε η σ α ω δ κ : Type}

def iteration (p : Poller ε η σ α ω δ κ) (s : σ) (i : ω × Except Bool δ × κ) : Proc ε η (Proc.Flow σ) := do
  if !(← p.await s i.1) then return .next s
  match i.2.1 with
  | .error interrupted => do
    p.failed interrupted
    return .stop s
  | .ok d => do
    let s ← p.work s d i.2.2
    return .next s

def program (p : Poller ε η σ α ω δ κ) (a : α) (is : List (ω × Except Bool δ × κ)) : Proc ε η (Proc.Flow σ) := do
  let s ← p.enter a
  match ← Proc.loop p.iteration s is with
  | .next s => return .next s
  | .stop s => do
    p.leave s
    return .stop s

/-! ## The steps of the thread -/

inductive Phase (σ δ : Type) where
  | starting
  | looping (s : σ)
  | waiting (s : σ) (interrupted : Bool)
  | working (s : σ) (d : δ)
  | leaving (s : σ)
  | exited

structure Input (α ω δ κ : Type) where
  enter : α
  await : ω
  wait : Except Bool δ
  work : κ

def step (p : Poller ε η σ α ω δ κ) (ph : Phase σ δ) (i : Input α ω δ κ) : Proc ε η (Phase σ δ) :=
  match ph with
  | .starting => do
    let s ← p.enter i.enter
    return .looping s
  | .looping s => do
    if !(← p.await s i.await) then return .looping s
    return .waiting s false
  | .waiting s true => do
    p.failed true
    return .leaving s
  | .waiting s false =>
    match i.wait with
    | .error interrupted => do
      p.failed interrupted
      return .leaving s
    | .ok d => return .working s d
  | .working s d => do
    let s ← p.work s d i.work
    return .looping s
  | .leaving s => do
    p.leave s
    return .exited
  | .exited => return .exited

def Phase.interrupt : Phase σ δ → Phase σ δ
  | .waiting s _ => .waiting s true
  | ph => ph

def Phase.done : Phase σ δ → Bool
  | .waiting _ interrupted => interrupted
  | .leaving _ | .exited => true
  | _ => false

/-- An interrupt is not lost, or is not needed. -/
def Phase.heeds : Phase σ δ → Bool
  | .waiting .. | .leaving _ | .exited => true
  | _ => false

def Phase.state? : Phase σ δ → Option σ
  | .looping s | .waiting s _ | .working s _ | .leaving s => some s
  | .starting | .exited => none

def Phase.map {σ' : Type} (f : σ → σ') : Phase σ δ → Phase σ' δ
  | .starting => .starting
  | .looping s => .looping (f s)
  | .waiting s interrupted => .waiting (f s) interrupted
  | .working s d => .working (f s) d
  | .leaving s => .leaving (f s)
  | .exited => .exited

@[simp] theorem Phase.done_map {σ' : Type} (f : σ → σ') (ph : Phase σ δ) : (ph.map f).done = ph.done := by
  cases ph with
  | starting | looping s | waiting s b | working s d | leaving s | exited => rfl

theorem Phase.done_interrupt {ph : Phase σ δ} (h : ph.heeds = true) : ph.interrupt.done = true := by
  cases ph with
  | waiting s b => rfl
  | leaving s => rfl
  | exited => rfl
  | starting | looping s | working s d => cases h

theorem Phase.done_interrupt_of_done {ph : Phase σ δ} (h : ph.done = true) : ph.interrupt.done = true := by
  cases ph with
  | waiting s b => rfl
  | leaving s => rfl
  | exited => rfl
  | starting | looping s | working s d => cases h

section
variable {p : Poller ε η σ α ω δ κ}

theorem done_step {ph ph' : Phase σ δ} {i : Input α ω δ κ} (h : ph.done = true) (hs : (p.step ph i).res = .ok ph') :
    ph'.done = true := by
  cases ph with
  | starting | looping s | working s d => cases h
  | waiting s b =>
    cases b with
    | false => cases h
    | true =>
      obtain ⟨_, _, hres, -⟩ := Proc.bind_eq_ok hs
      cases hres
      rfl
  | leaving s =>
    obtain ⟨_, _, hres, -⟩ := Proc.bind_eq_ok hs
    cases hres
    rfl
  | exited =>
    cases hs
    rfl

/-- Only the step that leaves the loop gives up the state. -/
theorem exited_of_step {ph ph' : Phase σ δ} {i : Input α ω δ κ} (hs : (p.step ph i).res = .ok ph')
    (h : ph'.state? = none) : ph' = .exited ∧ ∀ s d, ph ≠ .working s d := by
  cases ph with
  | starting | working s d =>
    obtain ⟨_, _, hres, -⟩ := Proc.bind_eq_ok hs
    cases hres
    cases h
  | looping s =>
    obtain ⟨goesOn, _, hres, -⟩ := Proc.bind_eq_ok hs
    cases goesOn with
    | false =>
      cases hres
      cases h
    | true =>
      cases hres
      cases h
  | waiting s b =>
    cases b with
    | true =>
      obtain ⟨_, _, hres, -⟩ := Proc.bind_eq_ok hs
      cases hres
      cases h
    | false =>
      unfold step at hs
      cases hw : i.wait with
      | error interrupted =>
        simp only [hw] at hs
        obtain ⟨_, _, hres, -⟩ := Proc.bind_eq_ok hs
        cases hres
        cases h
      | ok d =>
        simp only [hw] at hs
        cases hs
        cases h
  | leaving s =>
    obtain ⟨_, _, hres, -⟩ := Proc.bind_eq_ok hs
    cases hres
    exact ⟨rfl, fun _ _ he => by cases he⟩
  | exited =>
    cases hs
    exact ⟨rfl, fun _ _ he => by cases he⟩

theorem out_of_done {Q : List ε → Prop} (hQ : Proc.Compositional Q) (hfailed : ∀ b, Q (p.failed b).out)
    (hleave : ∀ s, Q (p.leave s).out) {ph : Phase σ δ} (h : ph.done = true) (i : Input α ω δ κ) :
    Q (p.step ph i).out := by
  cases ph with
  | starting | looping s | working s d => cases h
  | waiting s b =>
    cases b with
    | false => cases h
    | true => exact hQ.bind (hfailed true) fun _ _ => hQ.nil
  | leaving s => exact hQ.bind (hleave s) fun _ _ => hQ.nil
  | exited => exact hQ.nil

end

/-! ## Two threads side by side -/

/-- Two threads in the same phase, with related states. -/
inductive Phase.Rel {σ' : Type} (R : σ → σ' → Prop) : Phase σ δ → Phase σ' δ → Prop
  | starting : Rel R .starting .starting
  | looping {s : σ} {s' : σ'} (h : R s s') : Rel R (.looping s) (.looping s')
  | waiting {s : σ} {s' : σ'} (b : Bool) (h : R s s') : Rel R (.waiting s b) (.waiting s' b)
  | working {s : σ} {s' : σ'} (d : δ) (h : R s s') : Rel R (.working s d) (.working s' d)
  | leaving {s : σ} {s' : σ'} (h : R s s') : Rel R (.leaving s) (.leaving s')
  | exited : Rel R .exited .exited

theorem Phase.Rel.interrupt {σ' : Type} {R : σ → σ' → Prop} {ph : Phase σ δ} {ph' : Phase σ' δ} (h : Rel R ph ph') :
    Rel R ph.interrupt ph'.interrupt := by
  cases h with
  | waiting b h => exact .waiting true h
  | starting => exact .starting
  | looping h => exact .looping h
  | working d h => exact .working d h
  | leaving h => exact .leaving h
  | exited => exact .exited

theorem Phase.Rel.mono {σ' : Type} {R S : σ → σ' → Prop} (hRS : ∀ s s', R s s' → S s s') {ph : Phase σ δ}
    {ph' : Phase σ' δ} (h : Rel R ph ph') : Rel S ph ph' := by
  cases h with
  | starting => exact .starting
  | looping h => exact .looping (hRS _ _ h)
  | waiting b h => exact .waiting b (hRS _ _ h)
  | working d h => exact .working d (hRS _ _ h)
  | leaving h => exact .leaving (hRS _ _ h)
  | exited => exact .exited

theorem Phase.Rel.map_left {σ' τ : Type} {R : σ → σ' → Prop} {S : τ → σ' → Prop} {f : σ → τ}
    (hRS : ∀ s s', R s s' → S (f s) s') {ph : Phase σ δ} {ph' : Phase σ' δ} (h : Rel R ph ph') :
    Rel S (ph.map f) ph' := by
  cases h with
  | starting => exact .starting
  | looping h => exact .looping (hRS _ _ h)
  | waiting b h => exact .waiting b (hRS _ _ h)
  | working d h => exact .working d (hRS _ _ h)
  | leaving h => exact .leaving (hRS _ _ h)
  | exited => exact .exited

theorem Phase.Rel.state {σ' : Type} {R : σ → σ' → Prop} {ph : Phase σ δ} {ph' : Phase σ' δ} (h : Rel R ph ph') {s : σ}
    (hs : ph.state? = some s) : ∃ s', R s s' ∧ ∀ S : σ → σ' → Prop, S s s' → Rel S ph ph' := by
  cases h with
  | starting | exited => cases hs
  | looping h =>
    cases hs
    exact ⟨_, h, fun _ hS => .looping hS⟩
  | waiting b h =>
    cases hs
    exact ⟨_, h, fun _ hS => .waiting b hS⟩
  | working d h =>
    cases hs
    exact ⟨_, h, fun _ hS => .working d hS⟩
  | leaving h =>
    cases hs
    exact ⟨_, h, fun _ hS => .leaving hS⟩

/-- **Two pollers whose parts do the same take the same steps.** Entering and working lead to states in `R'`, whatever
else a step does keeps the state. -/
theorem sim_step {σ' : Type} {p : Poller ε η σ α ω δ κ} {p' : Poller ε η σ' α ω δ κ} {R R' : σ → σ' → Prop}
    {ph : Phase σ δ} {ph' : Phase σ' δ} {i : Input α ω δ κ}
    (henter : ph = .starting → Proc.Sim R' (p.enter i.enter) (p'.enter i.enter))
    (hawait : ∀ s s', R s s' → p.await s i.await = p'.await s' i.await) (hfailed : ∀ b, p.failed b = p'.failed b)
    (hwork : ∀ s s' d, ph = .working s d → R s s' → Proc.Sim R' (p.work s d i.work) (p'.work s' d i.work))
    (hleave : ∀ s s', R s s' → p.leave s = p'.leave s')
    (hkeeps : (∀ s d, ph ≠ .working s d) → ∀ s s', R s s' → R' s s') (h : Phase.Rel R ph ph') :
    Proc.Sim (Phase.Rel R') (p.step ph i) (p'.step ph' i) := by
  cases h with
  | starting => exact (henter rfl).bind fun s s' hs => .ok (.looping hs)
  | @looping s s' h =>
    have hk := hkeeps (fun _ _ he => by cases he) s s' h
    unfold step
    dsimp only
    rw [hawait s s' h]
    refine (Proc.Sim.refl _).bind fun goesOn _ heq => ?_
    subst heq
    cases goesOn with
    | false => exact .ok (.looping hk)
    | true => exact .ok (.waiting false hk)
  | @waiting s s' b h =>
    have hk := hkeeps (fun _ _ he => by cases he) s s' h
    have hfails : ∀ b, Proc.Sim (Phase.Rel R') (p.failed b >>= fun _ => pure (.leaving s : Phase σ δ))
        (p'.failed b >>= fun _ => pure (.leaving s' : Phase σ' δ)) := by
      intro b
      rw [hfailed b]
      exact (Proc.Sim.refl _).bind fun _ _ _ => .ok (.leaving hk)
    cases b with
    | true => exact hfails true
    | false =>
      unfold step
      dsimp only
      cases i.wait with
      | error interrupted => exact hfails interrupted
      | ok d => exact .ok (.working d hk)
  | @working s s' d h => exact (hwork s s' d rfl h).bind fun t t' ht => .ok (.looping ht)
  | @leaving s s' h =>
    unfold step
    dsimp only
    rw [hleave s s' h]
    exact (Proc.Sim.refl _).bind fun _ _ _ => .ok .exited
  | exited => exact .ok .exited

/-! ## The program is a run of the thread -/

/-- Some steps from here, one after the other, are the process `r`. -/
def Follows (p : Poller ε η σ α ω δ κ) (ph : Phase σ δ) (r : Proc ε η (Phase σ δ)) : Prop :=
  ∃ is : List (Input α ω δ κ), is.foldlM p.step ph = r

section
variable {p : Poller ε η σ α ω δ κ}

theorem Follows.here (ph : Phase σ δ) : Follows p ph (pure ph) := ⟨[], rfl⟩

theorem Follows.one (ph : Phase σ δ) (i : Input α ω δ κ) : Follows p ph (p.step ph i) := ⟨[i], by simp⟩

theorem Follows.bind {ph : Phase σ δ} {r : Proc ε η (Phase σ δ)} (h : Follows p ph r)
    {f : Phase σ δ → Proc ε η (Phase σ δ)} (hf : ∀ ph', r.res = .ok ph' → Follows p ph' (f ph')) :
    Follows p ph (r >>= f) := by
  obtain ⟨is, rfl⟩ := h
  cases hr : (is.foldlM p.step ph).res with
  | error e =>
    refine ⟨is, ?_⟩
    rw [Proc.bind_of_error hr]
    exact Proc.ext rfl hr
  | ok ph' =>
    obtain ⟨js, hjs⟩ := hf ph' hr
    refine ⟨is ++ js, ?_⟩
    rw [List.foldlM_append, Proc.bind_of_ok hr, Proc.bind_of_ok hr, hjs]

def inLoop : Proc.Flow σ → Phase σ δ
  | .next s => .looping s
  | .stop s => .leaving s

def atEnd : Proc.Flow σ → Phase σ δ
  | .next s => .looping s
  | .stop _ => .exited

theorem iteration_follows (a : α) (s : σ) (i : ω × Except Bool δ × κ) :
    Follows p (.looping s) (inLoop <$> p.iteration s i) := by
  obtain ⟨x, w, y⟩ := i
  -- the same inputs for all steps of the iteration
  let inp : Input α ω δ κ := ⟨a, x, w, y⟩
  have hiter : inLoop <$> p.iteration s (x, w, y) = p.step (.looping s) inp >>= fun ph =>
      match ph with
      | .waiting s b => p.step (.waiting s b) inp >>= fun ph =>
        match ph with
        | .working s d => p.step (.working s d) inp
        | ph => pure ph
      | ph => pure ph := by
    unfold iteration
    simp only [step, inp, map_bind, bind_assoc]
    congr 1
    funext b
    cases b with
    | false => rfl
    | true =>
      cases w with
      | error interrupted => simp [inLoop]
      | ok d => simp [inLoop]
  rw [hiter]
  refine (Follows.one _ inp).bind fun ph _ => ?_
  cases ph with
  | waiting s b =>
    refine (Follows.one _ inp).bind fun ph _ => ?_
    cases ph with
    | working s d => exact Follows.one _ inp
    | starting | looping | waiting | leaving | exited => exact Follows.here _
  | starting | looping | working | leaving | exited => exact Follows.here _

theorem loop_follows (a : α) (s : σ) (is : List (ω × Except Bool δ × κ)) :
    Follows p (.looping s) (inLoop <$> Proc.loop p.iteration s is) := by
  induction is generalizing s with
  | nil => exact Follows.here _
  | cons i is ih =>
    have hloop : inLoop <$> Proc.loop p.iteration s (i :: is) = (inLoop <$> p.iteration s i) >>= fun ph : Phase σ δ =>
        match ph with
        | .looping s' => inLoop <$> Proc.loop p.iteration s' is
        | ph => pure ph := by
      simp only [Proc.loop, map_bind, bind_map_left]
      congr 1
      funext f
      cases f with
      | next s' => rfl
      | stop s' => rfl
    rw [hloop]
    refine (iteration_follows a s i).bind fun ph _ => ?_
    cases ph with
    | looping s' => exact ih s'
    | starting | waiting | working | leaving | exited => exact Follows.here _

/-- **The thread does what the program does.** -/
theorem program_follows (a : α) (is : List (ω × Except Bool δ × κ)) (x : ω) (w : Except Bool δ) (y : κ) :
    Follows p .starting (atEnd <$> p.program a is) := by
  let inp : Input α ω δ κ := ⟨a, x, w, y⟩
  have hprog : atEnd <$> p.program a is = p.step .starting inp >>= fun ph =>
      match ph with
      | .looping s => (inLoop <$> Proc.loop p.iteration s is) >>= fun ph =>
        match ph with
        | .leaving s => p.step (.leaving s) inp
        | ph => pure ph
      | ph => pure ph := by
    unfold program
    simp only [step, inp, map_bind, bind_assoc, bind_map_left, pure_bind]
    congr 1
    funext s
    congr 1
    funext f
    cases f with
    | next s' => rfl
    | stop s' => simp [inLoop, atEnd]
  rw [hprog]
  refine (Follows.one _ inp).bind fun ph _ => ?_
  cases ph with
  | looping s =>
    refine (loop_follows a s is).bind fun ph _ => ?_
    cases ph with
    | leaving s' => exact Follows.one _ inp
    | starting | looping | waiting | working | exited => exact Follows.here _
  | starting | waiting | working | leaving | exited => exact Follows.here _

end

/-! ## A run of the thread is one of the program -/

inductive Event (α ω δ κ : Type) where
  | step (i : Input α ω δ κ)
  | interrupt

def event (p : Poller ε η σ α ω δ κ) (ph : Phase σ δ) : Event α ω δ κ → Proc ε η (Phase σ δ)
  | .step i => p.step ph i
  | .interrupt => pure ph.interrupt

/-- What the thread has done when it is in a phase: what the program does up to there. -/
inductive Trace (p : Poller ε η σ α ω δ κ) : List ε → Phase σ δ → Prop
  | starting : Trace p [] .starting
  | looping {a is s o} (h : p.program a is = ⟨o, .ok (.next s)⟩) : Trace p o (.looping s)
  | waiting {a is s o x o'} (b : Bool) (h : p.program a is = ⟨o, .ok (.next s)⟩) (hx : p.await s x = ⟨o', .ok true⟩) :
      Trace p (o ++ o') (.waiting s b)
  | working {a is s o x o'} (d : δ) (h : p.program a is = ⟨o, .ok (.next s)⟩) (hx : p.await s x = ⟨o', .ok true⟩) :
      Trace p (o ++ o') (.working s d)
  | leaving {a is s o x o' b o''} (h : p.program a is = ⟨o, .ok (.next s)⟩) (hx : p.await s x = ⟨o', .ok true⟩)
      (hb : p.failed b = ⟨o'', .ok ()⟩) : Trace p (o ++ o' ++ o'') (.leaving s)
  | exited {a is s o} (h : p.program a is = ⟨o, .ok (.stop s)⟩) : Trace p o .exited

section
variable {p : Poller ε η σ α ω δ κ}

theorem program_snoc {a : α} {is : List (ω × Except Bool δ × κ)} {o : List ε} {s : σ}
    (h : p.program a is = ⟨o, .ok (.next s)⟩) (i : ω × Except Bool δ × κ) :
    p.program a (is ++ [i]) = Proc.emits o >>= fun _ => p.iteration s i >>= fun f =>
      match f with
      | .next s => pure (.next s)
      | .stop s => do
        p.leave s
        return .stop s := by
  have hres : (p.program a is).res = .ok (.next s) := by rw [h]
  obtain ⟨s₀, henter, hrest, hout⟩ := Proc.bind_eq_ok hres
  obtain ⟨f, hloop, hf, hout'⟩ := Proc.bind_eq_ok hrest
  cases f with
  | stop s' =>
    obtain ⟨_, _, hstop, -⟩ := Proc.bind_eq_ok hf
    cases hstop
  | next s' =>
    cases hf
    have ho : o = (p.enter a).out ++ (Proc.loop p.iteration s₀ is).out := by
      have : (p.program a is).out = o := by rw [h]
      rw [← this, program, hout, hout', Proc.pure_out, List.append_nil]
    unfold program
    rw [Proc.bind_of_ok henter, Proc.loop_snoc, bind_assoc, Proc.bind_of_ok hloop, Proc.emits_bind, ho]
    simp only [List.append_assoc]

theorem Trace.interrupt {out : List ε} {ph : Phase σ δ} (h : Trace p out ph) : Trace p out ph.interrupt := by
  cases h with
  | waiting b h hx => exact .waiting true h hx
  | starting => exact .starting
  | looping h => exact .looping h
  | working d h hx => exact .working d h hx
  | leaving h hx hb => exact .leaving h hx hb
  | exited h => exact .exited h

theorem program_nil {a : α} {o : List ε} {s : σ} (h : p.enter a = ⟨o, .ok s⟩) :
    p.program a [] = ⟨o, .ok (.next s)⟩ := by
  simp [program, h, Proc.loop]

section
variable {a : α} {is : List (ω × Except Bool δ × κ)} {s : σ} {o : List ε} (h : p.program a is = ⟨o, .ok (.next s)⟩)
  {x : ω} {o' o'' : List ε}
include h

theorem program_continue (hx : p.await s x = ⟨o', .ok false⟩) (w : Except Bool δ) (y : κ) :
    p.program a (is ++ [(x, w, y)]) = ⟨o ++ o', .ok (.next s)⟩ := by
  rw [program_snoc h]
  simp [iteration, hx]

theorem program_next (hx : p.await s x = ⟨o', .ok true⟩) {d : δ} {y : κ} {s' : σ} (hy : p.work s d y = ⟨o'', .ok s'⟩) :
    p.program a (is ++ [(x, .ok d, y)]) = ⟨o ++ o' ++ o'', .ok (.next s')⟩ := by
  rw [program_snoc h]
  simp [iteration, hx, hy]

theorem program_stop (hx : p.await s x = ⟨o', .ok true⟩) {b : Bool} (hb : p.failed b = ⟨o'', .ok ()⟩) {l : List ε}
    (hl : p.leave s = ⟨l, .ok ()⟩) (y : κ) :
    p.program a (is ++ [(x, .error b, y)]) = ⟨o ++ o' ++ o'' ++ l, .ok (.stop s)⟩ := by
  rw [program_snoc h]
  simp [iteration, hx, hb, hl]

end

theorem Trace.step {out : List ε} {ph ph' : Phase σ δ} {i : Input α ω δ κ} (h : Trace p out ph)
    (hs : (p.step ph i).res = .ok ph') : Trace p (out ++ (p.step ph i).out) ph' := by
  cases h with
  | starting =>
    obtain ⟨s, henter, rfl⟩ := Proc.bind_pure_eq_ok hs
    exact .looping (program_nil henter)
  | @looping _ _ s _ h =>
    obtain ⟨goesOn, hx, hs, hout⟩ := Proc.bind_eq_ok hs
    cases goesOn with
    | false =>
      cases hs
      have hout : (p.step (.looping s) i).out = (p.await s i.await).out := hout.trans (List.append_nil _)
      rw [hout]
      exact .looping (program_continue h (Proc.eq_of_ok hx) i.wait i.work)
    | true =>
      cases hs
      have hout : (p.step (.looping s) i).out = (p.await s i.await).out := hout.trans (List.append_nil _)
      rw [hout]
      exact .waiting false h (Proc.eq_of_ok hx)
  | @waiting _ _ s _ _ _ b h hx =>
    cases b with
    | true =>
      obtain ⟨_, hb, rfl⟩ := Proc.bind_pure_eq_ok hs
      exact .leaving h hx hb
    | false =>
      unfold Poller.step at hs ⊢
      cases hw : i.wait with
      | error b =>
        simp only [hw] at hs ⊢
        obtain ⟨_, hb, rfl⟩ := Proc.bind_pure_eq_ok hs
        exact .leaving h hx hb
      | ok d =>
        simp only [hw] at hs ⊢
        cases hs
        rw [Proc.pure_out, List.append_nil]
        exact .working d h hx
  | working d h hx =>
    obtain ⟨s', hy, rfl⟩ := Proc.bind_pure_eq_ok hs
    exact .looping (program_next h hx hy)
  | leaving h hx hb =>
    obtain ⟨_, hl, rfl⟩ := Proc.bind_pure_eq_ok hs
    exact .exited (program_stop h hx hb hl i.work)
  | exited h =>
    cases hs
    rw [Poller.step, Proc.pure_out, List.append_nil]
    exact .exited h

theorem trace_of_events {evs : List (Event α ω δ κ)} {out : List ε} {ph : Phase σ δ}
    (h : evs.foldlM p.event .starting = ⟨out, .ok ph⟩) : Trace p out ph := by
  refine Proc.foldlM_inv Trace.starting (fun out ph e ph' hT hs => ?_) h
  cases e with
  | step i => exact hT.step hs
  | interrupt =>
    cases hs
    rw [event, Proc.pure_out, List.append_nil]
    exact hT.interrupt

/-- **What the thread has done is how the program begins**, in some surroundings. -/
theorem Trace.prefix_program {out : List ε} {ph : Phase σ δ} (h : Trace p out ph) (a : α) (y : κ) :
    ∃ a is, out <+: (p.program a is).out := by
  -- the iteration that is under way is completed by a wait that fails
  have hwaits : ∀ {a is s o x o'}, p.program a is = ⟨o, .ok (.next s)⟩ → p.await s x = ⟨o', .ok true⟩ →
      o ++ o' <+: (p.program a (is ++ [(x, .error true, y)])).out := by
    intro a is s o x o' h hx
    rw [program_snoc h, Proc.emits_bind]
    refine (List.prefix_append_right_inj o).mpr (List.IsPrefix.trans ?_ (Proc.out_prefix_bind _ _))
    have hbegin : (p.await s x).out <+: (p.iteration s (x, .error true, y)).out := Proc.out_prefix_bind _ _
    rwa [hx] at hbegin
  cases h with
  | starting => exact ⟨a, [], List.nil_prefix⟩
  | @looping a is _ _ h => exact ⟨a, is, by simp [h]⟩
  | waiting b h hx => exact ⟨_, _, hwaits h hx⟩
  | working d h hx => exact ⟨_, _, hwaits h hx⟩
  | @leaving a is s o x o' b o'' h hx hb =>
    refine ⟨a, is ++ [(x, .error b, y)], ?_⟩
    rw [program_snoc h, Proc.emits_bind, List.append_assoc]
    refine (List.prefix_append_right_inj o).mpr (List.IsPrefix.trans ?_ (Proc.out_prefix_bind _ _))
    have hstop : p.iteration s (x, .error b, y) = ⟨o' ++ o'', .ok (.stop s)⟩ := by simp [iteration, hx, hb]
    simp [hstop]
  | @exited a is _ _ h => exact ⟨a, is, by simp [h]⟩

end

end Poller

end CSem
