import Mathlib.Data.List.Infix
import Mqrestt.Lib.View

/-!
# Independent components

A machine made of components: each input is for one of them, and its step works on
the state of that one alone. Seen at one component, a run of the whole is a run of
this component on its own inputs; when the whole halts, a component has halted that
would have halted on its own.
-/

namespace CSem
namespace Proc
variable {ε η σ ι κ : Type} [DecidableEq ι]

/-- What belongs to one component, of a list in which everything says where it belongs. -/
def belonging {α : Type} (i : ι) (xs : List (ι × α)) : List α :=
  xs.filterMap fun x => if x.1 = i then some x.2 else none

section
variable {α : Type}

theorem belonging_append (i : ι) (xs ys : List (ι × α)) :
    belonging i (xs ++ ys) = belonging i xs ++ belonging i ys := List.filterMap_append

@[simp] theorem belonging_cons_self (i : ι) (a : α) (xs : List (ι × α)) :
    belonging i ((i, a) :: xs) = a :: belonging i xs := by
  simp [belonging]

theorem belonging_cons_ne {i k : ι} (h : i ≠ k) (a : α) (xs : List (ι × α)) :
    belonging i ((k, a) :: xs) = belonging i xs := by
  simp [belonging, h.symm]

@[simp] theorem belonging_map_self (i : ι) (as : List α) : belonging i (as.map (Prod.mk i)) = as := by
  simp [belonging, List.filterMap_map]

theorem belonging_map_ne {i k : ι} (h : i ≠ k) (as : List α) : belonging i (as.map (Prod.mk k)) = [] := by
  simp [belonging, List.filterMap_map, h.symm]

end

variable (step : ι → σ → κ → Proc ε η σ)

def product (s : ι → σ) (e : ι × κ) : Proc (ι × ε) η (ι → σ) := do
  let s' ← (step e.1 (s e.1) e.2).mapOut (Prod.mk e.1)
  return Function.update s e.1 s'

theorem product_of_ok {s : ι → σ} {i : ι} {k : κ} {s' : σ} (h : (step i (s i) k).res = .ok s') :
    product step s (i, k) = ⟨(step i (s i) k).out.map (Prod.mk i), .ok (Function.update s i s')⟩ := by
  have hm : ((step i (s i) k).mapOut (Prod.mk i)).res = .ok s' := h
  rw [product, bind_of_ok hm]
  simp

theorem product_of_error {s : ι → σ} {i : ι} {k : κ} {e : η} (h : (step i (s i) k).res = .error e) :
    product step s (i, k) = ⟨(step i (s i) k).out.map (Prod.mk i), .error e⟩ := by
  have hm : ((step i (s i) k).mapOut (Prod.mk i)).res = .error e := h
  rw [product, bind_of_error hm]
  rfl

theorem component_cons {s : ι → σ} {k : ι} {c : κ} {t : σ} (h : (step k (s k) c).res = .ok t) (es : List (ι × κ))
    (i : ι) :
    (belonging i ((k, c) :: es)).foldlM (step i) (s i) =
      ⟨belonging i ((step k (s k) c).out.map (Prod.mk k)) ++
          ((belonging i es).foldlM (step i) (Function.update s k t i)).out,
        ((belonging i es).foldlM (step i) (Function.update s k t i)).res⟩ := by
  by_cases hik : i = k
  · subst hik
    rw [belonging_cons_self, List.foldlM_cons, bind_of_ok h, belonging_map_self, Function.update_self]
  · rw [belonging_cons_ne hik, belonging_map_ne hik, Function.update_of_ne hik, List.nil_append]

/-- What a run of the whole says about each component on its own inputs. -/
structure Apart (s : ι → σ) (es : List (ι × κ)) (p : Proc (ι × ε) η (ι → σ)) : Prop where
  ok : ∀ s', p.res = .ok s' → ∀ i, (belonging i es).foldlM (step i) (s i) = ⟨belonging i p.out, .ok (s' i)⟩
  error : ∀ h, p.res = .error h →
    (∃ k, (belonging k es).foldlM (step k) (s k) = ⟨belonging k p.out, .error h⟩) ∧
      ∀ i, belonging i p.out <+: ((belonging i es).foldlM (step i) (s i)).out

theorem apart_of_error {s : ι → σ} {k : ι} {c : κ} {h : η} (hr : (step k (s k) c).res = .error h) (es : List (ι × κ)) :
    Apart step s ((k, c) :: es) ⟨(step k (s k) c).out.map (Prod.mk k), .error h⟩ := by
  constructor
  · intro s' hs'
    cases hs'
  · intro h' hh'
    obtain rfl := Except.error.inj hh'
    refine ⟨⟨k, ?_⟩, fun i => ?_⟩
    · rw [belonging_cons_self, List.foldlM_cons, bind_of_error hr, belonging_map_self]
    · by_cases hik : i = k
      · subst hik
        rw [belonging_cons_self, List.foldlM_cons, belonging_map_self]
        exact out_prefix_bind _ _
      · rw [belonging_map_ne hik]
        exact List.nil_prefix

/-- **Components do not meet.** -/
theorem foldlM_product (s : ι → σ) (es : List (ι × κ)) : Apart step s es (es.foldlM (product step) s) := by
  induction es generalizing s with
  | nil =>
    constructor
    · intro s' hs' i
      obtain rfl := Except.ok.inj hs'
      rfl
    · intro h hh
      cases hh
  | cons e es ih =>
    obtain ⟨k, c⟩ := e
    rw [List.foldlM_cons]
    cases hr : (step k (s k) c).res with
    | error h =>
      rw [product_of_error step hr, mk_error_bind]
      exact apart_of_error step hr es
    | ok t =>
      rw [product_of_ok step hr, mk_ok_bind]
      -- what is left is a run from the state with `k` advanced
      obtain ⟨hok, herr⟩ := ih (Function.update s k t)
      constructor
      · intro s' hs' i
        rw [component_cons step hr, hok s' hs' i, belonging_append]
      · intro h hh
        obtain ⟨⟨j, hj⟩, hpre⟩ := herr h hh
        refine ⟨⟨j, ?_⟩, fun i => ?_⟩
        · rw [component_cons step hr, hj, belonging_append]
        · rw [component_cons step hr, belonging_append]
          exact (List.prefix_append_right_inj _).mpr (hpre i)

end Proc

end CSem
