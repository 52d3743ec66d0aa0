import Mqrestt.Utils
import Mqrestt.Lib.Integer

/-!
# What `parseInt` accepts

`parseInt` is meant to accept exactly the base-0 integers that fit an `int`. Its range test
looks at what `*val` held before the call instead of at the result of `strtol`, so it lets
every integer through, and `*val` gets the low 32 bits of the saturated result.
-/

namespace Mqrestt
open CSem

def FitsInt (v : Int) : Prop := -2 ^ 31 ≤ v ∧ v < 2 ^ 31

/-- `parseInt` does on `str` what it is for, whatever `*val` holds before the call. -/
structure ParsesInt (w : LongWidth) (str : CStr) : Prop where
  accepts : ∀ val, FitsInt val → ∃ rc res, parseInt w (some str.bytes) val = pure (rc, res) ∧
    (rc = true ↔ ∃ v, Denotes str.bytes v ∧ FitsInt v) ∧ (rc = true → Denotes str.bytes res)
  independent : ∀ val val', FitsInt val → FitsInt val' →
    parseInt w (some str.bytes) val = parseInt w (some str.bytes) val'

/-! ## One call -/

theorem FitsInt.long {v : Int} (h : FitsInt v) (w : LongWidth) : w.min ≤ v ∧ v ≤ w.max := by
  obtain ⟨h₁, h₂⟩ := h
  cases w <;> simp only [LongWidth.min, LongWidth.max, LongWidth.bits] <;> omega

theorem FitsInt.clamp {v : Int} (h : FitsInt v) (w : LongWidth) : w.clamp v = v := by
  obtain ⟨hmin, hmax⟩ := h.long w
  rw [LongWidth.clamp, if_neg (by omega), if_neg (by omega)]

theorem parseInt_of_denotes {str : CStr} {v : Int} (h : Denotes str.bytes v) (w : LongWidth) (val : Int) :
    parseInt w (some str.bytes) val =
      pure (!((val = w.min || val = w.max) && decide (v < w.min ∨ w.max < v)), toCInt (w.clamp v)) := by
  simp [parseInt, h.strtol w, cstr]

theorem parseInt_of_fits {str : CStr} {v : Int} (h : Denotes str.bytes v) (hv : FitsInt v) (w : LongWidth) (val : Int) :
    parseInt w (some str.bytes) val = pure (true, v) := by
  obtain ⟨hmin, hmax⟩ := hv.long w
  rw [parseInt_of_denotes h, hv.clamp, toCInt_of_small hv.1 hv.2]
  simp [not_lt.mpr hmin, not_lt.mpr hmax]

theorem parseInt_of_not_denotes {str : CStr} (h : ¬ ∃ v, Denotes str.bytes v) (w : LongWidth) (val : Int) :
    parseInt w (some str.bytes) val = pure (false, toCInt (strtol w str.bytes).value) := by
  unfold parseInt
  by_cases hm : (strtol w str.bytes).matched = true
  · have hrest : (strtol w str.bytes).rest ≠ [] := fun hr => h (denotes_of_strtol hm hr)
    have hnul : 0 ∉ (strtol w str.bytes).rest := fun h0 => str.noNul ((strtol_rest_suffix w _).subset h0)
    simp [cstr_eq_self_iff.mpr hnul, hrest]
  · simp [hm]

theorem parseInt_zero {str : CStr} {v : Int} (h : Denotes str.bytes v) (w : LongWidth) :
    parseInt w (some str.bytes) 0 = pure (true, toCInt (w.clamp v)) := by
  rw [parseInt_of_denotes h]
  cases w <;> rfl

/-! ## Every string -/

theorem ParsesInt.fits {w : LongWidth} {str : CStr} (hp : ParsesInt w str) {v : Int} (hv : Denotes str.bytes v) :
    FitsInt v := by
  obtain ⟨rc, res, hcall, hrc, -⟩ := hp.accepts 0 (by unfold FitsInt; omega)
  rw [parseInt_zero hv w] at hcall
  cases hcall
  obtain ⟨v', hv', hfits⟩ := hrc.mp rfl
  rwa [hv.unique hv']

/-- **`parseInt` is right exactly on the strings that denote an `int` or nothing.** -/
theorem parsesInt_iff (w : LongWidth) (str : CStr) :
    ParsesInt w str ↔ ∀ v, Denotes str.bytes v → FitsInt v := by
  refine ⟨fun hp v hv => hp.fits hv, fun hfits => ?_⟩
  by_cases h : ∃ v, Denotes str.bytes v
  · obtain ⟨v, hv⟩ := h
    have hcall := parseInt_of_fits hv (hfits v hv) w
    refine ⟨fun val _ => ⟨true, v, hcall val, ?_, fun _ => hv⟩, fun val val' _ _ => by rw [hcall, hcall]⟩
    exact iff_of_true rfl ⟨v, hv, hfits v hv⟩
  · have hcall := parseInt_of_not_denotes h w
    refine ⟨fun val _ => ⟨false, _, hcall val, ?_, ?_⟩, fun val val' _ _ => by rw [hcall, hcall]⟩
    · refine iff_of_false Bool.false_ne_true ?_
      rintro ⟨v, hv, -⟩
      exact h ⟨v, hv⟩
    · intro hrc
      cases hrc

def fourGigaOne : CStr := ⟨bytes "4294967297", by decide⟩

theorem denotes_fourGigaOne : Denotes fourGigaOne.bytes 4294967297 := by
  refine denotes_iff.mpr ⟨⟨?_, ?_⟩, ?_⟩
  · decide
  · decide +kernel
  · rfl

/-- The integer 2^32 + 1 is accepted as 1 with a 64-bit `long`, and as `INT_MAX` with a 32-bit one unless
`*val` already was `INT_MAX`. -/
theorem not_parsesInt_fourGigaOne :
    parseInt .long64 (some (bytes "4294967297")) 0 = pure (true, 1) ∧ ¬ ParsesInt .long64 fourGigaOne ∧
    parseInt .long32 (some (bytes "4294967297")) 0 = pure (true, 2147483647) ∧
    parseInt .long32 (some (bytes "4294967297")) 2147483647 = pure (false, 2147483647) ∧
    ¬ ParsesInt .long32 fourGigaOne := by
  have hfits : ¬ FitsInt 4294967297 := by
    rintro ⟨-, h⟩
    exact absurd h (by decide)
  refine ⟨rfl, ?_, rfl, rfl, ?_⟩
  · exact fun hp => hfits (hp.fits denotes_fourGigaOne)
  · exact fun hp => hfits (hp.fits denotes_fourGigaOne)

end Mqrestt
