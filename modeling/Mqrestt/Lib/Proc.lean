import Mathlib.Data.List.Basic
import Mathlib.Data.List.Forall2

/-!
# Processes: effects in order, and the end of the process

Code that calls into libraries is embedded as a `Proc`: the effects it had, in
order, and either its result or the reason the whole process ended. Nothing runs
after a halt. A machine takes one input after the other through a step that is a
`Proc`; `run_inv` carries an invariant over the inputs taken, the effects they
had and the state they left, up to the halt if there is one.
-/

namespace CSem

structure Proc (ε η α : Type) where
  out : List ε
  res : Except η α

namespace Proc
variable {ε ε' η α β σ ι : Type}

def emit (e : ε) : Proc ε η Unit := ⟨[e], .ok ()⟩

def emits (es : List ε) : Proc ε η Unit := ⟨es, .ok ()⟩

def halt (h : η) : Proc ε η α := ⟨[], .error h⟩

def mapOut (f : ε → ε') (p : Proc ε η α) : Proc ε' η α := ⟨p.out.map f, p.res⟩

instance : Monad (Proc ε η) where
  pure a := ⟨[], .ok a⟩
  bind p f :=
    match p.res with
    | .ok a => ⟨p.out ++ (f a).out, (f a).res⟩
    | .error h => ⟨p.out, .error h⟩

@[ext] theorem ext {p q : Proc ε η α} (ho : p.out = q.out) (hr : p.res = q.res) : p = q := by
  cases p; cases q; simp_all

@[simp] theorem pure_out (a : α) : (pure a : Proc ε η α).out = [] := rfl

@[simp] theorem pure_res (a : α) : (pure a : Proc ε η α).res = .ok a := rfl

@[simp] theorem emit_out (e : ε) : (emit e : Proc ε η Unit).out = [e] := rfl

@[simp] theorem emit_res (e : ε) : (emit e : Proc ε η Unit).res = .ok () := rfl

@[simp] theorem emits_out (es : List ε) : (emits es : Proc ε η Unit).out = es := rfl

@[simp] theorem emits_res (es : List ε) : (emits es : Proc ε η Unit).res = .ok () := rfl

@[simp] theorem halt_out (h : η) : (halt h : Proc ε η α).out = [] := rfl

@[simp] theorem halt_res (h : η) : (halt h : Proc ε η α).res = .error h := rfl

@[simp] theorem mapOut_out (f : ε → ε') (p : Proc ε η α) : (p.mapOut f).out = p.out.map f := rfl

@[simp] theorem mapOut_res (f : ε → ε') (p : Proc ε η α) : (p.mapOut f).res = p.res := rfl

theorem eq_of_ok {p : Proc ε η α} {a : α} (h : p.res = .ok a) : p = ⟨p.out, .ok a⟩ := ext rfl h

/-- What a run on a fixed input comes to, read off what of its result can be computed. -/
theorem eq_ok_of_map {p : Proc ε η α} {f : α → β} {b : β} (h : p.res.map f = .ok b) :
    ∃ a, p = ⟨p.out, .ok a⟩ ∧ f a = b := by
  cases hr : p.res with
  | error e =>
    rw [hr] at h
    cases h
  | ok a =>
    rw [hr] at h
    exact ⟨a, ext rfl hr, Except.ok.inj h⟩

theorem eq_error_of_map {p : Proc ε η α} {f : α → β} {e : η} (h : p.res.map f = .error e) :
    p = ⟨p.out, .error e⟩ := by
  cases hr : p.res with
  | ok a =>
    rw [hr] at h
    cases h
  | error e' =>
    rw [hr] at h
    cases h
    exact ext rfl hr

theorem bind_of_ok {p : Proc ε η α} {a : α} (h : p.res = .ok a) (f : α → Proc ε η β) :
    p >>= f = ⟨p.out ++ (f a).out, (f a).res⟩ := by
  show (match p.res with | .ok a => _ | .error h => _) = _
  rw [h]

theorem bind_of_error {p : Proc ε η α} {e : η} (h : p.res = .error e) (f : α → Proc ε η β) :
    p >>= f = ⟨p.out, .error e⟩ := by
  show (match p.res with | .ok a => _ | .error h => _) = _
  rw [h]

@[simp] theorem emit_bind (e : ε) (f : Unit → Proc ε η β) :
    emit e >>= f = ⟨e :: (f ()).out, (f ()).res⟩ := rfl

@[simp] theorem emits_bind (es : List ε) (f : Unit → Proc ε η β) :
    emits es >>= f = ⟨es ++ (f ()).out, (f ()).res⟩ := rfl

@[simp] theorem halt_bind (h : η) (f : α → Proc ε η β) : (halt h : Proc ε η α) >>= f = halt h := rfl

@[simp] theorem mk_ok_bind (o : List ε) (a : α) (f : α → Proc ε η β) :
    (⟨o, .ok a⟩ : Proc ε η α) >>= f = ⟨o ++ (f a).out, (f a).res⟩ := rfl

@[simp] theorem mk_error_bind (o : List ε) (h : η) (f : α → Proc ε η β) :
    (⟨o, .error h⟩ : Proc ε η α) >>= f = ⟨o, .error h⟩ := rfl

theorem id_map_eq (p : Proc ε η α) : id <$> p = p := by
  obtain ⟨o, r⟩ := p
  cases r with
  | ok a => exact ext (List.append_nil o) rfl
  | error h => rfl

theorem bind_bind {γ : Type} (p : Proc ε η α) (f : α → Proc ε η β) (g : β → Proc ε η γ) :
    p >>= f >>= g = p >>= fun a => f a >>= g := by
  obtain ⟨o, r⟩ := p
  cases r with
  | error h => rfl
  | ok a =>
    rw [mk_ok_bind, mk_ok_bind]
    cases h : (f a).res with
    | ok b => rw [mk_ok_bind, bind_of_ok h]; simp
    | error e => rw [mk_error_bind, bind_of_error h]

instance : LawfulMonad (Proc ε η) :=
  LawfulMonad.mk' _ id_map_eq (fun _ _ => rfl) bind_bind

@[simp] theorem map_mk_ok (f : α → β) (o : List ε) (a : α) :
    f <$> (⟨o, .ok a⟩ : Proc ε η α) = ⟨o, .ok (f a)⟩ := ext (List.append_nil o) rfl

@[simp] theorem map_mk_error (f : α → β) (o : List ε) (h : η) :
    f <$> (⟨o, .error h⟩ : Proc ε η α) = ⟨o, .error h⟩ := rfl

@[simp] theorem map_emit (f : Unit → β) (e : ε) : f <$> (emit e : Proc ε η Unit) = ⟨[e], .ok (f ())⟩ := rfl

@[simp] theorem map_emits (f : Unit → β) (es : List ε) :
    f <$> (emits es : Proc ε η Unit) = ⟨es, .ok (f ())⟩ := map_mk_ok f es ()

@[simp] theorem map_out (f : α → β) (p : Proc ε η α) : (f <$> p).out = p.out := by
  obtain ⟨o, r⟩ := p
  cases r with
  | ok a => rw [map_mk_ok]
  | error h => rfl

@[simp] theorem map_halt (f : α → β) (h : η) : f <$> (halt h : Proc ε η α) = halt h := rfl

theorem bind_eq_ok {p : Proc ε η α} {f : α → Proc ε η β} {b : β} (h : (p >>= f).res = .ok b) :
    ∃ a, p.res = .ok a ∧ (f a).res = .ok b ∧ (p >>= f).out = p.out ++ (f a).out := by
  cases hp : p.res with
  | error e => rw [bind_of_error hp] at h; cases h
  | ok a => rw [bind_of_ok hp] at h ⊢; exact ⟨a, rfl, h, rfl⟩

theorem bind_pure_eq_ok {p : Proc ε η α} {f : α → β} {b : β} (h : (p >>= fun a => pure (f a)).res = .ok b) :
    ∃ a, p = ⟨(p >>= fun a => pure (f a)).out, .ok a⟩ ∧ f a = b := by
  obtain ⟨a, hp, hb, hout⟩ := bind_eq_ok h
  refine ⟨a, ext ?_ hp, Except.ok.inj hb⟩
  rw [hout, pure_out, List.append_nil]

theorem out_prefix_bind (p : Proc ε η α) (f : α → Proc ε η β) : p.out <+: (p >>= f).out := by
  cases hp : p.res with
  | error e => simp [bind_of_error hp]
  | ok a => rw [bind_of_ok hp]; exact List.prefix_append _ _

theorem mem_bind_left {e : ε} {p : Proc ε η α} (h : e ∈ p.out) (f : α → Proc ε η β) : e ∈ (p >>= f).out :=
  (out_prefix_bind p f).subset h

theorem mem_bind_right {e : ε} {p : Proc ε η α} {a : α} (hp : p.res = .ok a) {f : α → Proc ε η β} (h : e ∈ (f a).out) :
    e ∈ (p >>= f).out := by
  rw [bind_of_ok hp]
  exact List.mem_append_right _ h

theorem mapOut_bind {g : ε → ε'} (p : Proc ε η α) (k : α → Proc ε η β) :
    (p >>= k).mapOut g = p.mapOut g >>= fun a => (k a).mapOut g := by
  obtain ⟨o, r⟩ := p
  cases r with
  | error h => rfl
  | ok a => exact ext List.map_append rfl

theorem forM_of_ok {f : ι → Proc ε η Unit} (hf : ∀ i, (f i).res = .ok ()) (is : List ι) :
    is.forM f = ⟨is.flatMap fun i => (f i).out, .ok ()⟩ := by
  induction is with
  | nil => rfl
  | cons i is ih =>
    show f i >>= (fun _ => is.forM f) = _
    rw [bind_of_ok (hf i), ih, List.flatMap_cons]

theorem forM_congr {f g : ι → Proc ε η Unit} {is : List ι} (h : ∀ i ∈ is, f i = g i) : is.forM f = is.forM g := by
  induction is with
  | nil => rfl
  | cons i is ih =>
    obtain ⟨hi, his⟩ := List.forall_mem_cons.mp h
    show (f i >>= fun _ => is.forM f) = g i >>= fun _ => is.forM g
    rw [hi, ih his]

/-! ## Simulation -/

/-- Two processes with the same effects that end alike, with related results. -/
inductive Sim (R : α → β → Prop) : Proc ε η α → Proc ε η β → Prop
  | ok {o : List ε} {a : α} {b : β} (h : R a b) : Sim R ⟨o, .ok a⟩ ⟨o, .ok b⟩
  | error (o : List ε) (e : η) : Sim R ⟨o, .error e⟩ ⟨o, .error e⟩

section
variable {α' β' σ' : Type} {R : α → β → Prop}

theorem Sim.refl (p : Proc ε η α) : Sim Eq p p := by
  obtain ⟨o, r⟩ := p
  cases r with
  | ok a => exact .ok rfl
  | error e => exact .error o e

theorem Sim.eq {p q : Proc ε η α} (h : Sim Eq p q) : p = q := by
  cases h with
  | ok h => rw [h]
  | error o e => rfl

theorem Sim.of_ok {q : Proc ε η β} {o : List ε} {a : α} (h : Sim R ⟨o, .ok a⟩ q) : ∃ b, q = ⟨o, .ok b⟩ ∧ R a b := by
  cases h with
  | ok h => exact ⟨_, rfl, h⟩

theorem Sim.of_error {q : Proc ε η β} {o : List ε} {e : η} (h : Sim R ⟨o, .error e⟩ q) : q = ⟨o, .error e⟩ := by
  cases h with
  | error o e => rfl

theorem Sim.mapOut {p : Proc ε η α} {q : Proc ε η β} (h : Sim R p q) (f : ε → ε') : Sim R (p.mapOut f) (q.mapOut f) := by
  cases h with
  | ok h => exact .ok h
  | error o e => exact .error _ e

theorem Sim.bind {S : α' → β' → Prop} {p : Proc ε η α} {q : Proc ε η β} {f : α → Proc ε η α'} {g : β → Proc ε η β'}
    (h : Sim R p q) (hf : ∀ a b, R a b → Sim S (f a) (g b)) : Sim S (p >>= f) (q >>= g) := by
  cases h with
  | error o e => exact .error o e
  | @ok o a b hab =>
    have hfg := hf a b hab
    rw [mk_ok_bind, mk_ok_bind]
    generalize f a = x at hfg
    generalize g b = y at hfg
    cases hfg with
    | ok h => exact .ok h
    | error o' e => exact .error _ e

theorem Sim.foldlM {R : σ → σ' → Prop} {step : σ → ι → Proc ε η σ} {step' : σ' → ι → Proc ε η σ'}
    (hstep : ∀ s s' i, R s s' → Sim R (step s i) (step' s' i)) (is : List ι) {s : σ} {s' : σ'} (h : R s s') :
    Sim R (is.foldlM step s) (is.foldlM step' s') := by
  induction is generalizing s s' with
  | nil => exact .ok h
  | cons i is ih => exact (hstep s s' i h).bind fun a b hab => ih hab

end

/-! ## Properties of effects -/

/-- A property of effect lists that sequencing keeps. -/
structure Compositional (Q : List ε → Prop) : Prop where
  nil : Q []
  append : ∀ {a b}, Q a → Q b → Q (a ++ b)

theorem compositional_forall (P : ε → Prop) : Compositional fun out => ∀ e ∈ out, P e where
  nil _ h := by cases h
  append ha hb e h := (List.mem_append.mp h).elim (ha e) (hb e)

theorem Compositional.bind {Q : List ε → Prop} (hQ : Compositional Q) {p : Proc ε η α} {f : α → Proc ε η β}
    (hp : Q p.out) (hf : ∀ a, p.res = .ok a → Q (f a).out) : Q (p >>= f).out := by
  cases h : p.res with
  | error e => rw [bind_of_error h]; exact hp
  | ok a => rw [bind_of_ok h]; exact hQ.append hp (hf a h)

theorem Compositional.forM {Q : List ε → Prop} (hQ : Compositional Q) {f : ι → Proc ε η Unit}
    (hf : ∀ i, Q (f i).out) (is : List ι) : Q (is.forM f).out := by
  induction is with
  | nil => exact hQ.nil
  | cons i is ih => exact hQ.bind (hf i) fun _ _ => ih

theorem Compositional.foldlM_inv {Q : List ε → Prop} (hQ : Compositional Q) {step : σ → ι → Proc ε η σ} {I : σ → Prop}
    (hs : ∀ s i, I s → Q (step s i).out) (hI : ∀ s i s', I s → (step s i).res = .ok s' → I s') (is : List ι) {s : σ}
    (h : I s) : Q (is.foldlM step s).out := by
  induction is generalizing s with
  | nil => exact hQ.nil
  | cons i is ih =>
    apply hQ.bind (hs s i h)
    intro s' hs'
    exact ih (hI s i s' h hs')

theorem Compositional.foldlM {Q : List ε → Prop} (hQ : Compositional Q) {step : σ → ι → Proc ε η σ}
    (hs : ∀ s i, Q (step s i).out) (is : List ι) (s : σ) : Q (is.foldlM step s).out :=
  hQ.foldlM_inv (fun s i _ => hs s i) (fun _ _ _ _ _ => trivial) is trivial

theorem foldlM_snoc (step : σ → ι → Proc ε η σ) (s : σ) (is : List ι) (i : ι) :
    (is ++ [i]).foldlM step s = is.foldlM step s >>= fun s' => step s' i := by
  rw [List.foldlM_append]
  simp

/-! ## Runs of a machine -/

section
variable (step : σ → ι → Proc ε η σ)

/-- The inputs whose step returned: all of them, or those before the one that ended the process. -/
def returned : σ → List ι → List ι
  | _, [] => []
  | s, i :: is =>
    match (step s i).res with
    | .ok s' => i :: returned s' is
    | .error _ => []

theorem returned_of_ok {s s' : σ} {is : List ι} (h : (is.foldlM step s).res = .ok s') : returned step s is = is := by
  induction is generalizing s with
  | nil => rfl
  | cons i is ih =>
    rw [List.foldlM_cons] at h
    obtain ⟨s₁, hi, hrest, -⟩ := bind_eq_ok h
    rw [returned, hi]
    exact congrArg _ (ih hrest)

/-- What the inputs contribute in the states that they find, as far as the run gets. -/
def gathered {κ : Type} (g : σ → ι → List κ) : σ → List ι → List κ
  | _, [] => []
  | s, i :: is => g s i ++
    match (step s i).res with
    | .ok s' => gathered g s' is
    | .error _ => []

theorem gathered_append {κ : Type} {g : σ → ι → List κ} {s s' : σ} {is : List ι} (h : (is.foldlM step s).res = .ok s')
    (js : List ι) : gathered step g s (is ++ js) = gathered step g s is ++ gathered step g s' js := by
  induction is generalizing s with
  | nil =>
    cases h
    rfl
  | cons i is ih =>
    rw [List.foldlM_cons] at h
    obtain ⟨s₁, hi, hrest, -⟩ := bind_eq_ok h
    simp only [List.cons_append, gathered, hi, ih hrest, List.append_assoc]

theorem gathered_snoc {κ : Type} {g : σ → ι → List κ} {s s' : σ} {is : List ι} (h : (is.foldlM step s).res = .ok s')
    (i : ι) : gathered step g s (is ++ [i]) = gathered step g s is ++ g s' i := by
  rw [gathered_append step h, gathered]
  cases (step s' i).res with
  | ok t => simp [gathered]
  | error e => simp

theorem gathered_prefix {κ : Type} {g : σ → ι → List κ} {s s' : σ} {is : List ι} (h : (is.foldlM step s).res = .ok s')
    (i : ι) (js : List ι) : gathered step g s is ++ g s' i <+: gathered step g s (is ++ i :: js) := by
  rw [gathered_append step h]
  exact (List.prefix_append_right_inj _).mpr (List.prefix_append _ _)

def visited : σ → List ι → List σ
  | _, [] => []
  | s, i :: is =>
    match (step s i).res with
    | .ok s' => s' :: visited s' is
    | .error _ => []

/-- The inputs are taken as long as each meets a condition in the state that it finds. -/
def runMeeting (C : σ → ι → Bool) : σ → List ι → Option σ
  | s, [] => some s
  | s, i :: is =>
    if C s i then
      match (step s i).res with
      | .ok s' => runMeeting C s' is
      | .error _ => none
    else none

theorem runMeeting_inv {C : σ → ι → Bool} {I : σ → Prop}
    (hs : ∀ s i s', I s → C s i = true → (step s i).res = .ok s' → I s') {is : List ι} {s s' : σ} (h : I s)
    (hrun : runMeeting step C s is = some s') : I s' := by
  induction is generalizing s with
  | nil =>
    cases hrun
    exact h
  | cons i is ih =>
    unfold runMeeting at hrun
    split at hrun
    next hC =>
      split at hrun
      next s₁ hres => exact ih (hs s i s₁ h hC hres) hrun
      next => cases hrun
    next => cases hrun

/-- Every step that is taken meets a condition in the state that it finds. -/
def Along (P : σ → ι → Prop) : σ → List ι → Prop
  | _, [] => True
  | s, i :: is => P s i ∧ ∀ s', (step s i).res = .ok s' → Along P s' is

theorem Along.imp {P Q : σ → ι → Prop} (h : ∀ s i, P s i → Q s i) {s : σ} {is : List ι} (ha : Along step P s is) :
    Along step Q s is := by
  induction is generalizing s with
  | nil => trivial
  | cons i is ih => exact ⟨h s i ha.1, fun s' hs' => ih (ha.2 s' hs')⟩

theorem Along.append {P : σ → ι → Prop} {s : σ} {is js : List ι} (h : Along step P s is)
    (h' : ∀ s', (is.foldlM step s).res = .ok s' → Along step P s' js) : Along step P s (is ++ js) := by
  induction is generalizing s with
  | nil => exact h' s rfl
  | cons i is ih =>
    refine ⟨h.1, fun s₁ hs₁ => ih (h.2 s₁ hs₁) fun s' hs' => h' s' ?_⟩
    rw [List.foldlM_cons, bind_of_ok hs₁]
    exact hs'

theorem Along.inv {P : σ → ι → Prop} {I : σ → Prop}
    (hs : ∀ s i s', I s → P s i → (step s i).res = .ok s' → I s') {is : List ι} {s s' : σ} {out : List ε} (h : I s)
    (ha : Along step P s is) (hrun : is.foldlM step s = ⟨out, .ok s'⟩) : I s' := by
  induction is generalizing s out with
  | nil =>
    cases hrun
    exact h
  | cons i is ih =>
    rw [List.foldlM_cons] at hrun
    obtain ⟨s₁, hi, hrest, -⟩ := bind_eq_ok (congrArg Proc.res hrun)
    exact ih (hs s i s₁ h ha.1 hi) (ha.2 s₁ hi) (eq_of_ok hrest)

/-- What is left of a run after `done` of its inputs: nothing, or the step that halted. -/
inductive Ends (is : List ι) (p : Proc ε η σ) (done : List ι) (out : List ε) (s : σ) : Prop
  | all : done = is → p = ⟨out, .ok s⟩ → Ends is p done out s
  | halted (i : ι) (rest : List ι) (h : η) : is = done ++ i :: rest → (step s i).res = .error h →
      p = ⟨out ++ (step s i).out, .error h⟩ → Ends is p done out s

/-- **Invariants of runs.** A relation between the inputs taken, the effects they had and
the state holds as far as the run gets, when each step that returns keeps it. -/
theorem run_inv (I : List ι → List ε → σ → Prop) {s₀ : σ} {is : List ι} (h0 : I [] [] s₀)
    (hs : ∀ done out s i s', done ++ [i] <+: is → I done out s → (step s i).res = .ok s' →
      I (done ++ [i]) (out ++ (step s i).out) s') :
    ∃ out s, I (returned step s₀ is) out s ∧
      Ends step is (is.foldlM step s₀) (returned step s₀ is) out s := by
  -- the inputs already taken are generalised, so that `hs` speaks about prefixes of one list
  suffices H : ∀ (todo done : List ι) (out : List ε) (s : σ), done ++ todo = is → I done out s →
      ∃ out' s', I (done ++ returned step s todo) (out ++ out') s' ∧
        Ends step todo (todo.foldlM step s) (returned step s todo) out' s' by
    obtain ⟨out, s, hI, hE⟩ := H is [] [] s₀ rfl h0
    exact ⟨out, s, by simpa using hI, hE⟩
  intro todo
  induction todo with
  | nil =>
    intro done out s _ hI
    exact ⟨[], s, by simpa [returned] using hI, .all rfl rfl⟩
  | cons i todo ih =>
    intro done out s hd hI
    rw [List.foldlM_cons]
    cases hr : (step s i).res with
    | error h =>
      refine ⟨[], s, by simpa [returned, hr] using hI, .halted i todo h (by simp [returned, hr]) hr ?_⟩
      rw [bind_of_error hr]; rfl
    | ok s' =>
      have hpre : done ++ [i] <+: is := ⟨todo, by simpa using hd⟩
      obtain ⟨out', s'', hI', hE⟩ := ih (done ++ [i]) (out ++ (step s i).out) s' (by simpa using hd)
        (hs done out s i s' hpre hI hr)
      refine ⟨(step s i).out ++ out', s'', by simpa [returned, hr] using hI', ?_⟩
      rw [bind_of_ok hr]
      have hret : returned step s (i :: todo) = i :: returned step s' todo := by simp [returned, hr]
      rw [hret]
      cases hE with
      | all hd' hp => exact .all (by rw [hd']) (by rw [hp])
      | halted j rest h hd' hj hp =>
        exact .halted j rest h (by rw [List.cons_append, ← hd']) hj (by rw [hp, List.append_assoc])

/-- The same for a run that returned, and without the inputs. -/
theorem foldlM_inv {step : σ → ι → Proc ε η σ} {I : List ε → σ → Prop} {s₀ s : σ} {is : List ι} {out : List ε}
    (h0 : I [] s₀) (hs : ∀ out s i s', I out s → (step s i).res = .ok s' → I (out ++ (step s i).out) s')
    (hrun : is.foldlM step s₀ = ⟨out, .ok s⟩) : I out s := by
  obtain ⟨out', s', hinv, hend⟩ := @run_inv _ _ _ _ step (fun _ => I) s₀ is h0 fun _ out s i s' _ => hs out s i s'
  cases hend with
  | all _ hp =>
    rw [hrun] at hp
    cases hp
    exact hinv
  | halted _ _ _ _ _ hp =>
    rw [hrun] at hp
    cases hp

/-- **Two runs.** Where related inputs leave the same state, related lists of inputs have the same effects
exactly when each step that is taken has the same effects for related inputs. -/
theorem foldlM_out_eq_iff {R : ι → ι → Prop} (hrefl : ∀ i, R i i)
    (hres : ∀ s i j, R i j → (step s j).res = (step s i).res) (s : σ) (is : List ι) :
    (∀ js, List.Forall₂ R is js → (js.foldlM step s).out = (is.foldlM step s).out) ↔
      Along step (fun s i => ∀ j, R i j → (step s j).out = (step s i).out) s is := by
  induction is generalizing s with
  | nil =>
    refine iff_of_true (fun js hjs => ?_) trivial
    cases hjs
    rfl
  | cons i is ih =>
    constructor
    · intro h
      refine ⟨fun j hj => ?_, fun s' hs' => (ih s').mp fun js hjs => ?_⟩
      · have hout := h (j :: is) (.cons hj (List.forall₂_same.mpr fun k _ => hrefl k))
        rw [List.foldlM_cons, List.foldlM_cons] at hout
        cases hr : (step s i).res with
        | error e => rwa [bind_of_error hr, bind_of_error ((hres s i j hj).trans hr)] at hout
        | ok s' =>
          rw [bind_of_ok hr, bind_of_ok ((hres s i j hj).trans hr)] at hout
          exact List.append_cancel_right hout
      · have hout := h (i :: js) (.cons (hrefl i) hjs)
        rw [List.foldlM_cons, List.foldlM_cons, bind_of_ok hs', bind_of_ok hs'] at hout
        exact List.append_cancel_left hout
    · rintro ⟨hstep, hrest⟩ js hjs
      cases hjs with
      | @cons _ j _ js hj hjs =>
        rw [List.foldlM_cons, List.foldlM_cons]
        cases hr : (step s i).res with
        | error e => rw [bind_of_error hr, bind_of_error ((hres s i j hj).trans hr), hstep j hj]
        | ok s' =>
          rw [bind_of_ok hr, bind_of_ok ((hres s i j hj).trans hr)]
          exact congrArg₂ (· ++ ·) (hstep j hj) ((ih s').mpr (hrest s' hr) js hjs)

end

/-! ## Loops that may be left -/

inductive Flow (σ : Type) where
  | next (s : σ)
  | stop (s : σ)

/-- A loop over the inputs of its iterations, left by the first one that says so. -/
def loop (step : σ → ι → Proc ε η (Flow σ)) : σ → List ι → Proc ε η (Flow σ)
  | s, [] => pure (.next s)
  | s, i :: is => do
    match ← step s i with
    | .next s' => loop step s' is
    | .stop s' => pure (.stop s')

theorem loop_map {ι' : Type} {step : σ → ι → Proc ε η (Flow σ)} {step' : σ → ι' → Proc ε η (Flow σ)} {f : ι → ι'}
    (h : ∀ s i, step s i = step' s (f i)) (s : σ) (is : List ι) : loop step s is = loop step' s (is.map f) := by
  induction is generalizing s with
  | nil => rfl
  | cons i is ih => simp only [List.map_cons, loop, h, ih]

theorem loop_snoc (step : σ → ι → Proc ε η (Flow σ)) (s : σ) (is : List ι) (i : ι) :
    loop step s (is ++ [i]) = loop step s is >>= fun f =>
      match f with
      | .next s' => step s' i
      | .stop s' => pure (.stop s') := by
  induction is generalizing s with
  | nil =>
    simp only [List.nil_append, loop, pure_bind]
    refine Eq.trans (bind_congr fun f => ?_) (bind_pure (step s i))
    cases f <;> rfl
  | cons j is ih =>
    simp only [List.cons_append, loop, bind_assoc]
    refine bind_congr fun f => ?_
    cases f with
    | next s' => exact ih s'
    | stop s' => rfl

theorem Compositional.loop {Q : List ε → Prop} (hQ : Compositional Q) {I : σ → Prop}
    {step : σ → ι → Proc ε η (Flow σ)} {is : List ι} (hout : ∀ s, ∀ i ∈ is, I s → Q (step s i).out)
    (hinv : ∀ s s', ∀ i ∈ is, I s → (step s i).res = .ok (.next s') → I s') {s : σ} (hs : I s) :
    Q (Proc.loop step s is).out := by
  induction is generalizing s with
  | nil => exact hQ.nil
  | cons i is ih =>
    unfold Proc.loop
    refine hQ.bind (hout s i (by simp) hs) fun f hf => ?_
    cases f with
    | stop s' => exact hQ.nil
    | next s' =>
      apply ih
      · intro t j hj
        exact hout t j (by simp [hj])
      · intro t t' j hj
        exact hinv t t' j (by simp [hj])
      · exact hinv s s' i (by simp) hs hf

end Proc

end CSem
