import Mathlib.Data.List.Basic
import Mathlib.Data.Option.Basic
import Mathlib.Logic.Function.Basic

/-!
# The descriptors of a process

A file that is opened gets the lowest number that is free, and there is a limit to the
numbers. Closing leaves the other numbers as they are.
-/

namespace CSem

/-- What each number stands for. -/
abbrev Fds (φ : Type) := Nat → Option φ

namespace Fds
variable {φ : Type}

def lowest (t : Fds φ) (limit : Nat) : Option Nat := (List.range limit).find? fun n => (t n).isNone

/-- The descriptor is `none` if there is none left. -/
def openFile (t : Fds φ) (limit : Nat) (f : φ) : Option Nat × Fds φ :=
  match t.lowest limit with
  | none => (none, t)
  | some n => (some n, Function.update t n (some f))

def close (t : Fds φ) (n : Nat) : Fds φ := Function.update t n none

/-- Closes all numbers from `n` down to 1. -/
def closeDown (t : Fds φ) : Nat → Fds φ
  | 0 => t
  | n + 1 => (t.close (n + 1)).closeDown n

theorem closeDown_apply (t : Fds φ) (n k : Nat) : t.closeDown n k = if 0 < k ∧ k ≤ n then none else t k := by
  induction n generalizing t with
  | zero =>
    rw [if_neg (by omega)]
    rfl
  | succ n ih =>
    rw [closeDown, ih]
    by_cases hk : k = n + 1
    · subst hk
      rw [if_neg (by omega), if_pos (by omega)]
      exact Function.update_self ..
    · rw [close, Function.update_of_ne hk]
      by_cases hin : 0 < k ∧ k ≤ n
      · rw [if_pos hin, if_pos (by omega)]
      · rw [if_neg hin, if_neg (by omega)]

theorem lowest_eq_some_iff {t : Fds φ} {limit n : Nat} :
    t.lowest limit = some n ↔ n < limit ∧ t n = none ∧ ∀ m < n, t m ≠ none := by
  simp only [lowest, List.find?_range_eq_some, List.mem_range, Option.isNone_iff_eq_none, Bool.not_eq_true',
    Option.isNone_eq_false_iff, Option.isSome_iff_ne_none]
  exact ⟨fun h => ⟨h.2.1, h.1, h.2.2⟩, fun h => ⟨h.2.1, h.1, h.2.2⟩⟩

/-- The numbers below `n` are taken, and no others. -/
def Packed (t : Fds φ) (n : Nat) : Prop := ∀ m, t m = none ↔ n ≤ m

theorem Packed.lowest {t : Fds φ} {n : Nat} (h : Packed t n) (limit : Nat) :
    t.lowest limit = if n < limit then some n else none := by
  split
  next hlt => exact lowest_eq_some_iff.mpr ⟨hlt, (h n).mpr (Nat.le_refl n), fun m hm hnone =>
    Nat.not_le.mpr hm ((h m).mp hnone)⟩
  next hge =>
    cases hl : t.lowest limit with
    | none => rfl
    | some m =>
      obtain ⟨hlt, hnone, -⟩ := lowest_eq_some_iff.mp hl
      exact absurd (Nat.lt_of_le_of_lt ((h m).mp hnone) hlt) hge

theorem Packed.openFile {t : Fds φ} {n limit : Nat} (h : Packed t n) (f : φ) :
    t.openFile limit f = if n < limit then (some n, Function.update t n (some f)) else (none, t) := by
  unfold Fds.openFile
  rw [h.lowest]
  by_cases hlt : n < limit
  · simp only [if_pos hlt]
  · simp only [if_neg hlt]

theorem Packed.update {t : Fds φ} {n : Nat} (h : Packed t n) (f : φ) : Packed (Function.update t n (some f)) (n + 1) := by
  intro m
  by_cases hm : m = n
  · subst hm
    rw [Function.update_self]
    exact ⟨fun hnone => absurd hnone (Option.some_ne_none f), fun hle => absurd hle (Nat.not_succ_le_self m)⟩
  · rw [Function.update_of_ne hm, h m]
    omega

/-- When all numbers above 0 are closed, at most 0 is left. -/
theorem packed_closeDown {t : Fds φ} {n : Nat} (h : ∀ m, n < m → t m = none) :
    Packed (t.closeDown n) (if (t 0).isSome then 1 else 0) := by
  intro m
  rw [closeDown_apply]
  by_cases hm : m = 0
  · subst hm
    cases t 0 <;> simp
  · have hle : (if (t 0).isSome then 1 else 0) ≤ m := by
      split <;> omega
    simp only [hle, iff_true]
    split
    · rfl
    · exact h m (by omega)

end Fds

end CSem
