import Mqrestt.Lib.Poller

/-!
# How a process ends

A property of the reason a process ends for and of the effects it had before. It is one
about the last effects if more effects at the front make no difference to it, and then it
holds of a whole program when it holds of the parts. For a process that returns there is a
property of all its effects, which is always one of the parts.
-/

namespace CSem
namespace Proc
variable {ε ε' η α β σ ι : Type}

def Halts (W : List ε → η → Prop) (p : Proc ε η α) : Prop := ∀ h, p.res = .error h → W p.out h

theorem halts_pure (W : List ε → η → Prop) (a : α) : Halts W (pure a) := by
  intro h hres
  cases hres

theorem halts_emit (W : List ε → η → Prop) (e : ε) : Halts W (emit e) := by
  intro h hres
  cases hres

theorem halts_emits (W : List ε → η → Prop) (es : List ε) : Halts W (emits es) := by
  intro h hres
  cases hres

theorem halts_of_ok {W : List ε → η → Prop} {p : Proc ε η α} {a : α} (hp : p.res = .ok a) : Halts W p := by
  intro h hres
  rw [hp] at hres
  cases hres

theorem halts_mapOut {W : List ε' → η → Prop} {p : Proc ε η α} {f : ε → ε'} (h : Halts (fun o e => W (o.map f) e) p) :
    Halts W (p.mapOut f) := h

theorem Halts.mono {W W' : List ε → η → Prop} (hW : ∀ o h, W o h → W' o h) {p : Proc ε η α} (hp : Halts W p) :
    Halts W' p := fun h hres => hW _ h (hp h hres)

theorem mapOut_eq_mk {p : Proc ε η α} {f : ε → ε'} {o : List ε'} {r : Except η α} (hp : p.mapOut f = ⟨o, r⟩) :
    ∃ o', p = ⟨o', r⟩ ∧ o'.map f = o := by
  cases hp
  exact ⟨p.out, rfl, rfl⟩

/-- Where what follows always returns, it was the first part that ended. -/
theorem bind_eq_error {p : Proc ε η α} {f : α → Proc ε η β} {o : List ε} {h : η} (hf : ∀ a, ∃ b, (f a).res = .ok b)
    (hp : p >>= f = ⟨o, .error h⟩) : p = ⟨o, .error h⟩ := by
  cases hr : p.res with
  | error e =>
    rw [bind_of_error hr] at hp
    cases hp
    exact ext rfl hr
  | ok a =>
    obtain ⟨b, hb⟩ := hf a
    rw [bind_of_ok hr, hb] at hp
    cases hp

section
variable {W : List ε → η → Prop} (hW : ∀ o' o h, W o h → W (o' ++ o) h)
include hW

theorem Halts.bind {p : Proc ε η α} {f : α → Proc ε η β} (hp : Halts W p) (hf : ∀ a, p.res = .ok a → Halts W (f a)) :
    Halts W (p >>= f) := by
  intro h hres
  cases hr : p.res with
  | error e =>
    rw [bind_of_error hr] at hres ⊢
    cases hres
    exact hp h hr
  | ok a =>
    rw [bind_of_ok hr] at hres ⊢
    exact hW _ _ h (hf a hr h hres)

theorem Halts.foldlM {step : σ → ι → Proc ε η σ} (hs : ∀ s i, Halts W (step s i)) (is : List ι) (s : σ) :
    Halts W (is.foldlM step s) := by
  induction is generalizing s with
  | nil => exact halts_pure W s
  | cons i is ih => exact Halts.bind hW (hs s i) fun s' _ => ih s'

theorem Halts.forM {f : ι → Proc ε η Unit} (hf : ∀ i, Halts W (f i)) (is : List ι) : Halts W (is.forM f) := by
  induction is with
  | nil => exact halts_pure W ()
  | cons i is ih => exact Halts.bind hW (hf i) fun _ _ => ih

end

/-! ## Returning -/

/-- The process returns `a`, and each of its effects satisfies `P`. -/
def Returns (P : ε → Prop) (p : Proc ε η α) (a : α) : Prop := p.res = .ok a ∧ ∀ e ∈ p.out, P e

section
variable {P : ε → Prop}

@[simp] theorem returns_pure {a b : α} : Returns P (pure a : Proc ε η α) b ↔ a = b := by
  simp [Returns]

@[simp] theorem returns_emit {e : ε} {u : Unit} : Returns P (emit e : Proc ε η Unit) u ↔ P e := by
  simp [Returns]

@[simp] theorem not_returns_halt {h : η} {a : α} : ¬ Returns P (halt h : Proc ε η α) a := by
  simp [Returns]

theorem returns_mapOut {P : ε' → Prop} {p : Proc ε η α} {f : ε → ε'} {a : α} :
    Returns P (p.mapOut f) a ↔ Returns (fun e => P (f e)) p a := by
  simp [Returns]

theorem returns_bind {p : Proc ε η α} {f : α → Proc ε η β} {b : β} :
    Returns P (p >>= f) b ↔ ∃ a, Returns P p a ∧ Returns P (f a) b := by
  constructor
  · rintro ⟨hres, hout⟩
    obtain ⟨a, ha, hb, happ⟩ := bind_eq_ok hres
    rw [happ] at hout
    exact ⟨a, ⟨ha, fun e he => hout e (List.mem_append_left _ he)⟩, hb, fun e he => hout e (List.mem_append_right _ he)⟩
  · rintro ⟨a, ⟨ha, houta⟩, hb, houtb⟩
    unfold Returns
    rw [bind_of_ok ha]
    exact ⟨hb, fun e he => (List.mem_append.mp he).elim (houta e) (houtb e)⟩

@[simp] theorem returns_nil {r : Except η α} {a : α} : Returns P (⟨[], r⟩ : Proc ε η α) a ↔ r = .ok a := by
  simp [Returns]

@[simp] theorem returns_cons {e : ε} {o : List ε} {r : Except η α} {a : α} :
    Returns P ⟨e :: o, r⟩ a ↔ P e ∧ Returns P ⟨o, r⟩ a := by
  simp only [Returns, List.forall_mem_cons, and_left_comm]

end

end Proc

/-- A thread ends as its parts do. -/
theorem Poller.halts_step {ε η σ α ω δ κ : Type} {W : List ε → η → Prop} (hW : ∀ o' o h, W o h → W (o' ++ o) h)
    {p : Poller ε η σ α ω δ κ} (henter : ∀ a, Proc.Halts W (p.enter a)) (hawait : ∀ s x, Proc.Halts W (p.await s x))
    (hfailed : ∀ b, Proc.Halts W (p.failed b)) (hwork : ∀ s d y, Proc.Halts W (p.work s d y))
    (hleave : ∀ s, Proc.Halts W (p.leave s)) (ph : Phase σ δ) (i : Input α ω δ κ) : Proc.Halts W (p.step ph i) := by
  cases ph with
  | starting => exact Proc.Halts.bind hW (henter i.enter) fun _ _ => Proc.halts_pure W _
  | looping s =>
    refine Proc.Halts.bind hW (hawait s i.await) fun goesOn _ => ?_
    cases goesOn with
    | false => exact Proc.halts_pure W _
    | true => exact Proc.halts_pure W _
  | waiting s interrupted =>
    cases interrupted with
    | true => exact Proc.Halts.bind hW (hfailed true) fun _ _ => Proc.halts_pure W _
    | false =>
      unfold step
      dsimp only
      split
      · exact Proc.Halts.bind hW (hfailed _) fun _ _ => Proc.halts_pure W _
      · exact Proc.halts_pure W _
  | working s d => exact Proc.Halts.bind hW (hwork s d i.work) fun _ _ => Proc.halts_pure W _
  | leaving s => exact Proc.Halts.bind hW (hleave s) fun _ _ => Proc.halts_pure W _
  | exited => exact Proc.halts_pure W _

/-- A thread that ends in a step has done what the program does that ends there. -/
theorem Poller.Trace.halts {ε η σ α ω δ κ : Type} {p : Poller ε η σ α ω δ κ} {out es : List ε} {ph : Phase σ δ}
    {i : Input α ω δ κ} {h : η} (ht : Trace p out ph) (hs : p.step ph i = ⟨es, .error h⟩) :
    ∃ a is, p.program a is = ⟨out ++ es, .error h⟩ := by
  cases ht with
  | starting =>
    have henter := Proc.bind_eq_error (fun s => ⟨_, rfl⟩) hs
    exact ⟨i.enter, [], by simp [program, henter]⟩
  | @looping a is s o hp =>
    have hawait : p.await s i.await = ⟨es, .error h⟩ := by
      refine Proc.bind_eq_error (fun goesOn => ?_) hs
      cases goesOn with
      | false => exact ⟨_, rfl⟩
      | true => exact ⟨_, rfl⟩
    refine ⟨a, is ++ [(i.await, i.wait, i.work)], ?_⟩
    rw [program_snoc hp]
    simp [iteration, hawait]
  | @waiting a is s o x o' b hp hx =>
    -- only what follows a wait that failed can end it
    have hfailed : ∃ b, p.failed b = ⟨es, .error h⟩ := by
      unfold Poller.step at hs
      cases b with
      | true => exact ⟨true, Proc.bind_eq_error (fun _ => ⟨_, rfl⟩) hs⟩
      | false =>
        cases hw : i.wait with
        | error b =>
          simp only [hw] at hs
          exact ⟨b, Proc.bind_eq_error (fun _ => ⟨_, rfl⟩) hs⟩
        | ok d =>
          simp only [hw] at hs
          cases congrArg Proc.res hs
    obtain ⟨b, hb⟩ := hfailed
    refine ⟨a, is ++ [(x, .error b, i.work)], ?_⟩
    rw [program_snoc hp]
    simp [iteration, hx, hb]
  | @working a is s o x o' d hp hx =>
    have hwork := Proc.bind_eq_error (fun s => ⟨_, rfl⟩) hs
    refine ⟨a, is ++ [(x, .ok d, i.work)], ?_⟩
    rw [program_snoc hp]
    simp [iteration, hx, hwork]
  | @leaving a is s o x o' b o'' hp hx hb =>
    have hleave := Proc.bind_eq_error (fun _ => ⟨_, rfl⟩) hs
    refine ⟨a, is ++ [(x, .error b, i.work)], ?_⟩
    rw [program_snoc hp]
    simp [iteration, hx, hb, hleave]
  | exited hp => cases congrArg Proc.res hs

end CSem
