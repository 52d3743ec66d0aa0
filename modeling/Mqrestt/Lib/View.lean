import Mqrestt.Lib.Proc

/-!
# What is seen of a process

A process seen through a partial map of its effects: the effects that the map drops
are its own business. Seeing commutes with sequencing, so a process implements a
simpler one when each of its steps does (`Sim` between the view and the simpler one).
-/

namespace CSem
namespace Proc
variable {ε ε' η α β σ σ' ι : Type}

def view (f : ε → Option ε') (p : Proc ε η α) : Proc ε' η α := ⟨p.out.filterMap f, p.res⟩

@[simp] theorem view_out (f : ε → Option ε') (p : Proc ε η α) : (p.view f).out = p.out.filterMap f := rfl

@[simp] theorem view_res (f : ε → Option ε') (p : Proc ε η α) : (p.view f).res = p.res := rfl

section
variable (f : ε → Option ε')

@[simp] theorem view_pure (a : α) : (pure a : Proc ε η α).view f = pure a := rfl

@[simp] theorem view_halt (h : η) : (halt h : Proc ε η α).view f = halt h := rfl

theorem view_emit (e : ε) : (emit e : Proc ε η Unit).view f = emits (f e).toList := by
  refine ext ?_ rfl
  cases h : f e <;> simp [h]

theorem view_bind (p : Proc ε η α) (g : α → Proc ε η β) : (p >>= g).view f = p.view f >>= fun a => (g a).view f := by
  obtain ⟨o, r⟩ := p
  cases r with
  | error h => rfl
  | ok a => exact ext List.filterMap_append rfl

theorem view_foldlM (step : σ → ι → Proc ε η σ) (s : σ) (is : List ι) :
    (is.foldlM step s).view f = is.foldlM (fun s i => (step s i).view f) s := by
  induction is generalizing s with
  | nil => rfl
  | cons i is ih => simp only [List.foldlM_cons, view_bind, ih]

theorem view_forM (g : ι → Proc ε η Unit) (is : List ι) : (is.forM g).view f = is.forM fun i => (g i).view f := by
  induction is with
  | nil => rfl
  | cons i is ih =>
    show (g i >>= fun _ => is.forM g).view f = _
    rw [view_bind, ih]
    rfl

theorem view_loop (step : σ → ι → Proc ε η (Flow σ)) (s : σ) (is : List ι) :
    (loop step s is).view f = loop (fun s i => (step s i).view f) s is := by
  induction is generalizing s with
  | nil => rfl
  | cons i is ih =>
    unfold loop
    rw [view_bind]
    refine bind_congr fun x => ?_
    cases x with
    | next s' => exact ih s'
    | stop s' => rfl

end

/-! ## Implementing a simpler process -/

theorem Sim.of_view {f : ε → Option ε'} {R : α → β → Prop} {p : Proc ε η α} {q : Proc ε' η β} (h : Sim R (p.view f) q) :
    p.out.filterMap f = q.out ∧
      ((∃ a b, p.res = .ok a ∧ q.res = .ok b ∧ R a b) ∨ ∃ e, p.res = .error e ∧ q.res = .error e) := by
  generalize hv : p.view f = v at h
  have hout : p.out.filterMap f = v.out := by rw [← hv]; rfl
  have hres : p.res = v.res := by rw [← hv]; rfl
  rw [hout, hres]
  cases h with
  | @ok o a b hab => exact ⟨rfl, Or.inl ⟨a, b, rfl, rfl, hab⟩⟩
  | error o e => exact ⟨rfl, Or.inr ⟨e, rfl, rfl⟩⟩

theorem Sim.mono {R S : α → β → Prop} (hRS : ∀ a b, R a b → S a b) {p : Proc ε η α} {q : Proc ε η β} (h : Sim R p q) :
    Sim S p q := by
  cases h with
  | ok hab => exact .ok (hRS _ _ hab)
  | error o e => exact .error o e

theorem Sim.result {R : α → β → Prop} {p : Proc ε η α} {q : Proc ε η β} (h : Sim R p q) :
    Sim (fun a b => p.res = .ok a ∧ q.res = .ok b ∧ R a b) p q := by
  cases h with
  | ok hab => exact .ok ⟨rfl, rfl, hab⟩
  | error o e => exact .error o e

/-- The relation between the states may speak of the inputs taken so far. -/
theorem Sim.foldlM_along {R : List ι → σ → σ' → Prop} {step : σ → ι → Proc ε η σ} {step' : σ' → ι → Proc ε η σ'}
    {is : List ι} (hstep : ∀ done s s' i, done ++ [i] <+: is → R done s s' →
      Sim (R (done ++ [i])) (step s i) (step' s' i))
    {s : σ} {s' : σ'} (h : R [] s s') : Sim (R is) (is.foldlM step s) (is.foldlM step' s') := by
  suffices H : ∀ (todo done : List ι) (s : σ) (s' : σ'), done ++ todo = is → R done s s' →
      Sim (R is) (todo.foldlM step s) (todo.foldlM step' s') from H is [] s s' rfl h
  intro todo
  induction todo with
  | nil =>
    intro done s s' hd h
    rw [List.append_nil] at hd
    subst hd
    exact .ok h
  | cons i todo ih =>
    intro done s s' hd h
    rw [List.foldlM_cons, List.foldlM_cons]
    refine (hstep done s s' i ⟨todo, by simpa using hd⟩ h).bind fun a b hab => ?_
    exact ih (done ++ [i]) a b (by simpa using hd) hab

/-- Both loops are left together, or neither. -/
inductive Flow.Rel (R : σ → σ' → Prop) : Flow σ → Flow σ' → Prop
  | next {s : σ} {s' : σ'} : R s s' → Flow.Rel R (.next s) (.next s')
  | stop {s : σ} {s' : σ'} : R s s' → Flow.Rel R (.stop s) (.stop s')

theorem Sim.loop_along {R : List ι → σ → σ' → Prop} {step : σ → ι → Proc ε η (Flow σ)}
    {step' : σ' → ι → Proc ε η (Flow σ')}
    {is : List ι} (hstep : ∀ done s s' i, done ++ [i] <+: is → R done s s' →
      Sim (Flow.Rel (R (done ++ [i]))) (step s i) (step' s' i)) {s : σ} {s' : σ'} (h : R [] s s') :
    Sim (Flow.Rel fun a b => ∃ done, done <+: is ∧ R done a b) (Proc.loop step s is) (Proc.loop step' s' is) := by
  suffices H : ∀ (todo done : List ι) (s : σ) (s' : σ'), done ++ todo = is → R done s s' →
      Sim (Flow.Rel fun a b => ∃ done, done <+: is ∧ R done a b) (Proc.loop step s todo) (Proc.loop step' s' todo) from
    H is [] s s' rfl h
  intro todo
  induction todo with
  | nil =>
    intro done s s' hd h
    exact .ok (.next ⟨done, ⟨[], hd⟩, h⟩)
  | cons i todo ih =>
    intro done s s' hd h
    have hpre : done ++ [i] <+: is := ⟨todo, by simpa using hd⟩
    unfold Proc.loop
    refine (hstep done s s' i hpre h).bind fun x y hxy => ?_
    cases hxy with
    | next hs => exact ih (done ++ [i]) _ _ (by simpa using hd) hs
    | stop hs => exact .ok (.stop ⟨done ++ [i], hpre, hs⟩)

end Proc

end CSem
