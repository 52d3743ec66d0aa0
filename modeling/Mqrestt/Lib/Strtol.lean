import Mqrestt.Lib.Mem

/-!
# Machine integers and `strtol`

`strtol` with base 0, as the C standard describes it: blanks, a sign, a prefix that
decides the base, the longest run of digits, and saturation at the ends of `long`.
-/

namespace CSem

inductive LongWidth where
  | long32
  | long64
  deriving DecidableEq, Repr

def LongWidth.bits : LongWidth → Nat
  | .long32 => 32
  | .long64 => 64

def LongWidth.min (w : LongWidth) : Int := -2 ^ (w.bits - 1)

def LongWidth.max (w : LongWidth) : Int := 2 ^ (w.bits - 1) - 1

def toCInt (n : Int) : Int := n.bmod (2 ^ 32)

theorem toCInt_of_small {n : Int} (h₁ : -2 ^ 31 ≤ n) (h₂ : n < 2 ^ 31) : toCInt n = n := by
  unfold toCInt
  apply Int.bmod_eq_of_le
  · simpa using h₁
  · simpa using h₂

theorem toCInt_le (n : Nat) : toCInt n ≤ n := by
  rw [toCInt, Int.bmod_def]
  split <;> omega

theorem toCInt_lt (n : Int) : toCInt n < 2 ^ 31 := by
  unfold toCInt
  have h : n.bmod (2 ^ 32) < ((2 ^ 32 : Nat) + 1) / 2 := Int.bmod_lt (by decide)
  simpa using h

/-- A size is kept as an `int` exactly below `2 ^ 31`. -/
theorem le_toCInt_iff {n : Nat} : (n : Int) ≤ toCInt n ↔ n < 2 ^ 31 := by
  constructor
  · intro h
    have := toCInt_lt n
    omega
  · intro h
    rw [toCInt_of_small (by omega) (by omega)]

def isSpace (b : Byte) : Bool := b = 32 || (9 ≤ b && b ≤ 13)

def digitVal (b : Byte) : Option Nat :=
  if 48 ≤ b ∧ b ≤ 57 then some (b.toNat - 48)
  else if 97 ≤ b ∧ b ≤ 122 then some (b.toNat - 87)
  else if 65 ≤ b ∧ b ≤ 90 then some (b.toNat - 55)
  else none

def isDigit (base : Nat) (b : Byte) : Bool :=
  match digitVal b with
  | some d => d < base
  | none => false

def numeral (base : Nat) (ds : List Byte) : Nat :=
  ds.foldl (fun n b => n * base + (digitVal b).getD 0) 0

def signOf : List Byte → Bool × List Byte
  | 45 :: s => (true, s)
  | 43 :: s => (false, s)
  | s => (false, s)

/-- The base that a base-0 conversion takes, and where its digits start. `0x` counts as a
prefix only before a hexadecimal digit. -/
def baseOf : List Byte → Nat × List Byte
  | 48 :: x :: d :: s =>
    if (x = 120 ∨ x = 88) ∧ isDigit 16 d then (16, d :: s) else (8, 48 :: x :: d :: s)
  | 48 :: s => (8, 48 :: s)
  | s => (10, s)

structure Strtol where
  value : Int
  -- what `endptr` points to
  rest : List Byte
  -- `endptr` has moved
  matched : Bool
  -- `errno` is `ERANGE`
  erange : Bool
  deriving DecidableEq, Repr

def strtol (w : LongWidth) (s : List Byte) : Strtol :=
  let signed := signOf (s.dropWhile isSpace)
  let based := baseOf signed.2
  let ds := based.2.takeWhile (isDigit based.1)
  if ds = [] then ⟨0, s, false, false⟩
  else
    let n : Int := numeral based.1 ds
    let v := if signed.1 then -n else n
    let rest := based.2.drop ds.length
    if v < w.min then ⟨w.min, rest, true, true⟩
    else if w.max < v then ⟨w.max, rest, true, true⟩
    else ⟨v, rest, true, false⟩

example : strtol .long64 (bytes " -0x1F,") = ⟨-31, bytes ",", true, false⟩ := by decide

example : strtol .long32 (bytes "2147483648") = ⟨2147483647, [], true, true⟩ := by decide

end CSem
