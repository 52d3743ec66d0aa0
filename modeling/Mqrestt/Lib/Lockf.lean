import Mathlib.Data.List.Basic

/-!
# Advisory locks

`lockf` with size zero locks or unlocks a file from an offset on, and a descriptor's
`close` gives back all that its process holds of the file. A lock is refused as long as
another process holds anything from the offset on. The table of locks is a list, and what
it says is who holds which offset of which file.
-/

namespace CSem

structure Lock (π φ : Type) where
  owner : π
  file : φ
  lo : Nat
  -- `none` if the lock has no end
  hi : Option Nat
  deriving DecidableEq

namespace Lock
variable {π φ : Type}

def below (x : Nat) : Option Nat → Bool
  | none => true
  | some h => x < h

/-- An offset from `o` on is locked. -/
def reaches (o : Nat) (l : Lock π φ) : Bool := below (max o l.lo) l.hi

def cut (o : Nat) (l : Lock π φ) : Lock π φ := { l with hi := some (l.hi.elim o (min o)) }

theorem below_cut (x o : Nat) (l : Lock π φ) : below x (l.cut o).hi = true ↔ below x l.hi = true ∧ x < o := by
  cases h : l.hi with
  | none => simp [cut, below, h]
  | some b =>
    simp only [cut, below, h, Option.elim_some, decide_eq_true_eq, Nat.lt_min]
    exact And.comm

theorem reaches_iff {o : Nat} {l : Lock π φ} :
    l.reaches o = true ↔ ∃ x, o ≤ x ∧ l.lo ≤ x ∧ below x l.hi = true := by
  constructor
  · intro h
    exact ⟨max o l.lo, Nat.le_max_left _ _, Nat.le_max_right _ _, h⟩
  · rintro ⟨x, ho, hlo, hx⟩
    unfold reaches
    cases hh : l.hi with
    | none => rfl
    | some b =>
      simp only [hh, below, decide_eq_true_eq] at hx ⊢
      exact Nat.lt_of_le_of_lt (Nat.max_le.mpr ⟨ho, hlo⟩) hx

end Lock

/-! ## The table of locks -/

abbrev Locks (π φ : Type) := List (Lock π φ)

namespace Locks
variable {π φ : Type}

/-- What a table says. -/
def Holds (ls : Locks π φ) (p : π) (f : φ) (x : Nat) : Prop :=
  ∃ l ∈ ls, l.owner = p ∧ l.file = f ∧ l.lo ≤ x ∧ Lock.below x l.hi = true

@[simp] theorem not_holds_nil (p : π) (f : φ) (x : Nat) : ¬ Holds [] p f x := by
  rintro ⟨l, hl, -⟩
  cases hl

/-- No offset has two holders. -/
def Exclusive (ls : Locks π φ) : Prop := ∀ p q f x, Holds ls p f x → Holds ls q f x → p = q

theorem exclusive_nil : Exclusive ([] : Locks π φ) := fun p _ f x h _ => absurd h (not_holds_nil p f x)

theorem Exclusive.mono {ls ls' : Locks π φ} (h : Exclusive ls) (hsub : ∀ p f x, Holds ls' p f x → Holds ls p f x) :
    Exclusive ls' := fun p q f x hp hq => h p q f x (hsub p f x hp) (hsub q f x hq)

variable [DecidableEq π]

def releaseAll (ls : Locks π φ) (p : π) : Locks π φ := ls.filter fun l => !decide (l.owner = p)

theorem holds_releaseAll {ls : Locks π φ} {p q : π} {g : φ} {x : Nat} :
    Holds (releaseAll ls p) q g x ↔ Holds ls q g x ∧ q ≠ p := by
  simp only [Holds, releaseAll, List.mem_filter, Bool.not_eq_true', decide_eq_false_iff_not]
  constructor
  · rintro ⟨l, ⟨hl, hnot⟩, rfl, hrest⟩
    exact ⟨⟨l, hl, rfl, hrest⟩, hnot⟩
  · rintro ⟨⟨l, hl, rfl, hrest⟩, hnot⟩
    exact ⟨l, ⟨hl, hnot⟩, rfl, hrest⟩

variable [DecidableEq φ]

/-- `F_TLOCK`: `none` if it is refused. -/
def tlock (ls : Locks π φ) (p : π) (f : φ) (o : Nat) : Option (Locks π φ) :=
  if ls.any fun l => decide (l.owner ≠ p) && decide (l.file = f) && l.reaches o then none
  else some (⟨p, f, o, none⟩ :: ls)

/-- `F_ULOCK` -/
def ulock (ls : Locks π φ) (p : π) (f : φ) (o : Nat) : Locks π φ :=
  ls.map fun l => if l.owner = p ∧ l.file = f then l.cut o else l

def release (ls : Locks π φ) (p : π) (f : φ) : Locks π φ := ls.filter fun l => !decide (l.owner = p ∧ l.file = f)

theorem tlock_eq_none_iff {ls : Locks π φ} {p : π} {f : φ} {o : Nat} :
    tlock ls p f o = none ↔ ∃ q, q ≠ p ∧ ∃ x, o ≤ x ∧ Holds ls q f x := by
  unfold tlock
  constructor
  · intro h
    split at h
    next hany =>
      obtain ⟨l, hl, hp⟩ := List.any_eq_true.mp hany
      simp only [Bool.and_eq_true, decide_eq_true_eq] at hp
      obtain ⟨⟨hne, hf⟩, hreach⟩ := hp
      obtain ⟨x, ho, hlo, hx⟩ := Lock.reaches_iff.mp hreach
      exact ⟨l.owner, hne, x, ho, l, hl, rfl, hf, hlo, hx⟩
    next => cases h
  · rintro ⟨q, hne, x, ho, l, hl, rfl, hf, hlo, hx⟩
    refine if_pos (List.any_eq_true.mpr ⟨l, hl, ?_⟩)
    simp only [Bool.and_eq_true, decide_eq_true_eq]
    exact ⟨⟨hne, hf⟩, Lock.reaches_iff.mpr ⟨x, ho, hlo, hx⟩⟩

section
variable {ls ls' : Locks π φ} {p q : π} {f g : φ} {o x : Nat}

/-- A file that nobody has locked can be locked. -/
theorem tlock_of_free {ls : Locks π φ} {f : φ} (h : ∀ q x, ¬ Holds ls q f x) (p : π) (o : Nat) :
    tlock ls p f o = some (⟨p, f, o, none⟩ :: ls) := by
  have hnone : tlock ls p f o ≠ none := fun hn => by
    obtain ⟨q, -, x, -, hx⟩ := tlock_eq_none_iff.mp hn
    exact h q x hx
  unfold tlock at hnone ⊢
  split
  next hany => exact absurd (if_pos hany) hnone
  next => rfl

theorem holds_tlock (h : tlock ls p f o = some ls') : Holds ls' q g x ↔ Holds ls q g x ∨ (q = p ∧ g = f ∧ o ≤ x) := by
  unfold tlock at h
  split at h
  next => cases h
  next =>
    cases h
    simp only [Holds, List.exists_mem_cons_iff]
    constructor
    · rintro (⟨rfl, rfl, hle, -⟩ | hold)
      · exact Or.inr ⟨rfl, rfl, hle⟩
      · exact Or.inl hold
    · rintro (hold | ⟨rfl, rfl, hle⟩)
      · exact Or.inr hold
      · exact Or.inl ⟨rfl, rfl, hle, rfl⟩

theorem holds_ulock : Holds (ulock ls p f o) q g x ↔ Holds ls q g x ∧ ¬ (q = p ∧ g = f ∧ o ≤ x) := by
  constructor
  · rintro ⟨l', hl', rfl, rfl, hlo, hx⟩
    obtain ⟨l, hl, rfl⟩ := List.mem_map.mp hl'
    split at hlo
    next hown =>
      rw [if_pos hown] at hx ⊢
      obtain ⟨hx, hlt⟩ := (Lock.below_cut x o l).mp hx
      exact ⟨⟨l, hl, rfl, rfl, hlo, hx⟩, fun h => Nat.not_le.mpr hlt h.2.2⟩
    next hown =>
      rw [if_neg hown] at hx ⊢
      exact ⟨⟨l, hl, rfl, rfl, hlo, hx⟩, fun h => hown ⟨h.1, h.2.1⟩⟩
  · rintro ⟨⟨l, hl, rfl, rfl, hlo, hx⟩, hnot⟩
    by_cases hown : l.owner = p ∧ l.file = f
    · have hlt : x < o := Nat.not_le.mp fun hle => hnot ⟨hown.1, hown.2, hle⟩
      refine ⟨l.cut o, List.mem_map.mpr ⟨l, hl, if_pos hown⟩, rfl, rfl, hlo, ?_⟩
      exact (Lock.below_cut x o l).mpr ⟨hx, hlt⟩
    · exact ⟨l, List.mem_map.mpr ⟨l, hl, if_neg hown⟩, rfl, rfl, hlo, hx⟩

theorem holds_release : Holds (release ls p f) q g x ↔ Holds ls q g x ∧ ¬ (q = p ∧ g = f) := by
  simp only [Holds, release, List.mem_filter, Bool.not_eq_true', decide_eq_false_iff_not]
  constructor
  · rintro ⟨l, ⟨hl, hnot⟩, rfl, rfl, hrest⟩
    exact ⟨⟨l, hl, rfl, rfl, hrest⟩, hnot⟩
  · rintro ⟨⟨l, hl, rfl, rfl, hrest⟩, hnot⟩
    exact ⟨l, ⟨hl, hnot⟩, rfl, rfl, hrest⟩

end

theorem Exclusive.tlock {ls ls' : Locks π φ} {p : π} {f : φ} {o : Nat} (h : Exclusive ls)
    (hs : tlock ls p f o = some ls') : Exclusive ls' := by
  -- nobody else holds anything of what is new
  have hfree : ∀ q x, o ≤ x → Holds ls q f x → q = p := by
    intro q x hle hq
    by_contra hne
    have hnone := tlock_eq_none_iff.mpr ⟨q, hne, x, hle, hq⟩
    rw [hs] at hnone
    cases hnone
  intro q r g x hq hr
  rcases (holds_tlock hs).mp hq with hq | ⟨rfl, rfl, hle⟩
  · rcases (holds_tlock hs).mp hr with hr | ⟨rfl, rfl, hle⟩
    · exact h q r g x hq hr
    · exact hfree q x hle hq
  · rcases (holds_tlock hs).mp hr with hr | ⟨rfl, -, -⟩
    · exact (hfree r x hle hr).symm
    · rfl

end Locks

end CSem
