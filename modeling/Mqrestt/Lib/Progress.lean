import Mqrestt.Lib.Proc

/-!
# Progress under fair schedules

A step either leaves the state as it is or takes a measure down, and as long as the
measure is not zero, there is a party whose next step takes it down. Then every
schedule in rounds, in each of which every party has a turn, comes to the end after
as many rounds as the measure says, in whatever order the turns come.
-/

namespace CSem
namespace Proc
variable {ε η σ ι : Type}

/-- A machine whose inputs are turns of parties, some of which count. A turn goes through, keeps the invariant, and
changes nothing or gets closer; and someone who counts can get closer. -/
structure Progress (step : σ → ι → Proc ε η σ) {π : Type} (turn : ι → Option π) (counts : π → Prop) (I : σ → Prop)
    (measure : σ → Nat) : Prop where
  turns : ∀ s i p, I s → turn i = some p → ∃ s', (step s i).res = .ok s' ∧ I s' ∧ (s' = s ∨ measure s' < measure s)
  helpful : ∀ s, I s → measure s ≠ 0 → ∃ p, counts p ∧
    ∀ i s', turn i = some p → (step s i).res = .ok s' → measure s' < measure s

section
variable {step : σ → ι → Proc ε η σ} {π : Type} {turn : ι → Option π} {counts : π → Prop} {I : σ → Prop}
  {measure : σ → Nat} (hp : Progress step turn counts I measure)
include hp

theorem Progress.run {is : List ι} (hturns : ∀ i ∈ is, (turn i).isSome = true) {s : σ} (hs : I s) :
    ∃ s', (is.foldlM step s).res = .ok s' ∧ I s' ∧ (s' = s ∨ measure s' < measure s) := by
  induction is generalizing s with
  | nil => exact ⟨s, rfl, hs, Or.inl rfl⟩
  | cons i is ih =>
    obtain ⟨hi, his⟩ := List.forall_mem_cons.mp hturns
    obtain ⟨p, hpi⟩ := Option.isSome_iff_exists.mp hi
    obtain ⟨s₁, hs₁, hI₁, hcloser₁⟩ := hp.turns s i p hs hpi
    obtain ⟨s₂, hs₂, hI₂, hcloser₂⟩ := ih his hI₁
    refine ⟨s₂, ?_, hI₂, ?_⟩
    · rw [List.foldlM_cons, bind_of_ok hs₁, hs₂]
    · rcases hcloser₁ with rfl | hlt₁
      · exact hcloser₂
      · rcases hcloser₂ with rfl | hlt₂
        · exact Or.inr hlt₁
        · exact Or.inr (Nat.lt_trans hlt₂ hlt₁)

/-- A run in which each party has a turn gets closer. -/
theorem Progress.round {is : List ι} (hturns : ∀ i ∈ is, (turn i).isSome = true)
    (hall : ∀ p, counts p → ∃ i ∈ is, turn i = some p)
    {s : σ} (hs : I s) (h0 : measure s ≠ 0) : ∃ s', (is.foldlM step s).res = .ok s' ∧ I s' ∧ measure s' < measure s := by
  obtain ⟨p, hcounts, hhelp⟩ := hp.helpful s hs h0
  obtain ⟨i, hmem, hi⟩ := hall p hcounts
  obtain ⟨before, after, rfl⟩ := List.append_of_mem hmem
  have hbefore : ∀ j ∈ before, (turn j).isSome = true := fun j hj => hturns j (by simp [hj])
  have hafter : ∀ j ∈ after, (turn j).isSome = true := fun j hj => hturns j (by simp [hj])
  obtain ⟨s₁, hs₁, hI₁, hcloser₁⟩ := hp.run hbefore hs
  obtain ⟨s₂, hs₂, hI₂, hcloser₂⟩ := hp.turns s₁ i p hI₁ hi
  obtain ⟨s₃, hs₃, hI₃, hcloser₃⟩ := hp.run hafter hI₂
  -- the party has got no closer before its turn, or someone else has
  have hlt : measure s₂ < measure s := by
    rcases hcloser₁ with rfl | hlt₁
    · exact hhelp i s₂ hi hs₂
    · rcases hcloser₂ with rfl | hlt₂
      · exact hlt₁
      · exact Nat.lt_trans hlt₂ hlt₁
  refine ⟨s₃, ?_, hI₃, ?_⟩
  · rw [List.foldlM_append, bind_of_ok hs₁, List.foldlM_cons, bind_of_ok hs₂, hs₃]
  · rcases hcloser₃ with rfl | hlt₃
    · exact hlt
    · exact Nat.lt_trans hlt₃ hlt

/-- **Fair schedules come to the end.** -/
theorem Progress.rounds {rounds : List (List ι)} (hturns : ∀ r ∈ rounds, ∀ i ∈ r, (turn i).isSome = true)
    (hall : ∀ r ∈ rounds, ∀ p, counts p → ∃ i ∈ r, turn i = some p) {s : σ} (hs : I s)
    (hlen : measure s ≤ rounds.length) :
    ∃ s', (rounds.flatten.foldlM step s).res = .ok s' ∧ I s' ∧ measure s' = 0 := by
  induction rounds generalizing s with
  | nil => exact ⟨s, rfl, hs, Nat.le_zero.mp hlen⟩
  | cons r rounds ih =>
    obtain ⟨hr, hrs⟩ := List.forall_mem_cons.mp hturns
    obtain ⟨hallr, hallrs⟩ := List.forall_mem_cons.mp hall
    obtain ⟨s₁, hs₁, hI₁, hle⟩ : ∃ s', (r.foldlM step s).res = .ok s' ∧ I s' ∧ measure s' ≤ rounds.length := by
      by_cases h0 : measure s = 0
      · obtain ⟨s₁, hs₁, hI₁, rfl | hlt⟩ := hp.run hr hs
        · exact ⟨s₁, hs₁, hI₁, by omega⟩
        · omega
      · obtain ⟨s₁, hs₁, hI₁, hlt⟩ := hp.round hr hallr hs h0
        rw [List.length_cons] at hlen
        exact ⟨s₁, hs₁, hI₁, by omega⟩
    obtain ⟨s₂, hs₂, hI₂, h0⟩ := ih hrs hallrs hI₁ hle
    refine ⟨s₂, ?_, hI₂, h0⟩
    rw [List.flatten_cons, List.foldlM_append, bind_of_ok hs₁, hs₂]

end

end Proc

end CSem
