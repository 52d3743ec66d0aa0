import Mathlib
import Mqrestt.Lib.Strtol

/-!
# Formats

`printf`: a format is read into bytes that stand for themselves and conversions, and each
conversion takes its arguments from the list and gives a text. The texts of `%s`, `%d`, `%i`
and `%u` are as the C standard has them. Those of the other conversions, of `%s` for a null
pointer and of a conversion that takes its width or precision from the arguments are a parameter.
-/

namespace CSem

/-! ## Arguments and conversions -/

/-- An argument: an integer, or the string at a pointer, `none` for `NULL`. -/
inductive VaArg where
  | num (n : Int)
  | str (s : Option (List Byte))
  deriving DecidableEq, Repr

/-- A width or a precision: a number, or `*`. -/
inductive Amount where
  | lit (n : Nat)
  | arg
  deriving DecidableEq, Repr

/-- `%[flags][width][.precision][length]conv` -/
structure Conversion where
  flags : List Byte
  width : Option Amount
  precision : Option Amount
  length : List Byte
  conv : Byte
  deriving DecidableEq, Repr

inductive Piece where
  | lit (b : Byte)
  | conv (c : Conversion)
  deriving DecidableEq, Repr

/-! ## Reading a format -/

-- one of `-+ #0`
def isFlag (b : Byte) : Bool := b = 45 || b = 43 || b = 32 || b = 35 || b = 48

-- one of `hljztLq`
def isLength (b : Byte) : Bool := b = 104 || b = 108 || b = 106 || b = 122 || b = 116 || b = 76 || b = 113

def readAmount : List Byte → Option Amount × List Byte
  | 42 :: s => (some .arg, s)
  | s =>
    match s.takeWhile (isDigit 10) with
    | [] => (none, s)
    | ds => (some (.lit (numeral 10 ds)), s.dropWhile (isDigit 10))

def readPrecision : List Byte → Option Amount × List Byte
  | 46 :: s => (some ((readAmount s).1.getD (.lit 0)), (readAmount s).2)
  | s => (none, s)

/-- What follows a `%`; `none` where the format ends too early. -/
def readConversion (s : List Byte) : Option (Conversion × List Byte) :=
  let width := readAmount (s.dropWhile isFlag)
  let precision := readPrecision width.2
  match precision.2.dropWhile isLength with
  | [] => none
  | c :: rest => some (⟨s.takeWhile isFlag, width.1, precision.1, precision.2.takeWhile isLength, c⟩, rest)

/-- At most `fuel` pieces. -/
def readPieces : Nat → List Byte → List Piece
  | 0, _ => []
  | _ + 1, [] => []
  | fuel + 1, b :: s =>
    if b = 37 then
      match readConversion s with
      | none => []
      | some (c, rest) => (if c.conv = 37 then .lit 37 else .conv c) :: readPieces fuel rest
    else
      .lit b :: readPieces fuel s

def pieces (format : List Byte) : List Piece := readPieces format.length format

example : pieces (bytes "%s: 100%%") =
    .conv ⟨[], none, none, [], 115⟩ :: (bytes ": 100%").map .lit := by decide

/-! ## The texts -/

def decimal (n : Nat) : List Byte := (Nat.toDigits 10 n).map fun c => c.toNat.toUInt8

/-- The value of an integer argument for the length of its conversion. -/
def signedValue (w : LongWidth) (length : List Byte) (n : Int) : Int :=
  if length = [] then toCInt n
  else if length = [104] then n.bmod (2 ^ 16)
  else if length = [104, 104] then n.bmod (2 ^ 8)
  else if length = [108] ∨ length = [122] ∨ length = [116] then n.bmod (2 ^ w.bits)
  else n.bmod (2 ^ 64)

def unsignedValue (w : LongWidth) (length : List Byte) (n : Int) : Nat :=
  let bits :=
    if length = [] then 32
    else if length = [104] then 16
    else if length = [104, 104] then 8
    else if length = [108] ∨ length = [122] ∨ length = [116] then w.bits
    else 64
  (n % 2 ^ bits).toNat

def Amount.get : Option Amount → Nat
  | some (.lit n) => n
  | _ => 0

/-- A sign and digits, filled up to the width: with zeros behind the sign, or with blanks on one side. -/
def Conversion.pad (c : Conversion) (sign digits : List Byte) (zeros : Bool) : List Byte :=
  let fill := Amount.get c.width - (sign.length + digits.length)
  if 45 ∈ c.flags then sign ++ digits ++ List.replicate fill 32
  else if zeros ∧ 48 ∈ c.flags then sign ++ List.replicate fill 48 ++ digits
  else List.replicate fill 32 ++ sign ++ digits

/-- The digits of a number: as many as the precision asks for, and none for zero with precision zero. -/
def Conversion.digits (c : Conversion) (n : Nat) : List Byte :=
  match c.precision with
  | none => decimal n
  | some p =>
    if n = 0 ∧ Amount.get (some p) = 0 then []
    else List.replicate (Amount.get (some p) - (decimal n).length) 48 ++ decimal n

def Conversion.sign (c : Conversion) (n : Int) : List Byte :=
  if n < 0 then [45] else if 43 ∈ c.flags then [43] else if 32 ∈ c.flags then [32] else []

/-- What the C library decides. -/
structure Libc where
  width : LongWidth
  other : Conversion → List VaArg → List Byte

def Libc.text (libc : Libc) (c : Conversion) (args : List VaArg) : List Byte :=
  match args with
  | [.str (some s)] =>
    if c.conv = 115 then
      c.pad [] (match c.precision with | none => s | p => s.take (Amount.get p)) false
    else libc.other c args
  | [.num n] =>
    if c.conv = 100 ∨ c.conv = 105 then
      let v := signedValue libc.width c.length n
      c.pad (c.sign v) (c.digits v.natAbs) c.precision.isNone
    else if c.conv = 117 then
      c.pad [] (c.digits (unsignedValue libc.width c.length n)) c.precision.isNone
    else libc.other c args
  | _ => libc.other c args

/-- One argument, and one more for each `*`. -/
def Conversion.arity (c : Conversion) : Nat :=
  (if c.width = some .arg then 1 else 0) + (if c.precision = some .arg then 1 else 0) + 1

def render (libc : Libc) : List Piece → List VaArg → List Byte
  | [], _ => []
  | .lit b :: ps, args => b :: render libc ps args
  | .conv c :: ps, args => libc.text c (args.take c.arity) ++ render libc ps (args.drop c.arity)

/-- The text that `printf` gives. -/
def sprintf (libc : Libc) (format : List Byte) (args : List VaArg) : List Byte := render libc (pieces format) args

example : sprintf ⟨.long64, fun _ _ => []⟩ (bytes "%s.%03d|%-4d|%.2s") [.str (some (bytes "x")), .num 7, .num (-5),
    .str (some (bytes "abc"))] = bytes "x.007|-5  |ab" := by decide

/-! ## Plain conversions -/

def plainConversion (conv : Byte) : Conversion := ⟨[], none, none, [], conv⟩

def intText (n : Int) : List Byte := (if n < 0 then [45] else []) ++ decimal n.natAbs

section
variable (libc : Libc) (ps : List Piece) (args : List VaArg)

@[simp] theorem render_nil : render libc [] args = [] := rfl

@[simp] theorem render_lit (b : Byte) : render libc (.lit b :: ps) args = b :: render libc ps args := rfl

theorem render_lits (l : List Byte) : render libc (l.map .lit ++ ps) args = l ++ render libc ps args := by
  induction l with
  | nil => rfl
  | cons b l ih => exact congrArg (List.cons b) ih

@[simp] theorem render_str (s : List Byte) :
    render libc (.conv (plainConversion 115) :: ps) (.str (some s) :: args) = s ++ render libc ps args := by
  simp [render, Conversion.arity, Libc.text, plainConversion, Conversion.pad, Amount.get]

theorem render_signed (length : List Byte) (n : Int) :
    render libc (.conv ⟨[], none, none, length, 100⟩ :: ps) (.num n :: args) =
      intText (signedValue libc.width length n) ++ render libc ps args := by
  simp [render, Conversion.arity, Libc.text, Conversion.pad, Amount.get, Conversion.sign, Conversion.digits, intText]

@[simp] theorem render_int (n : Int) :
    render libc (.conv (plainConversion 100) :: ps) (.num n :: args) = intText (toCInt n) ++ render libc ps args :=
  render_signed libc ps args [] n

end

theorem noNul_decimal (n : Nat) : 0 ∉ decimal n := by
  intro h
  obtain ⟨c, hc, h0⟩ := List.mem_map.mp h
  have hd := Nat.isDigit_of_mem_toDigits (by decide) (by decide) hc
  have hge : 48 ≤ c.toNat ∧ c.toNat ≤ 57 := by
    simpa [Char.isDigit, UInt32.le_iff_toNat_le] using hd
  have hmod := congrArg UInt8.toNat h0
  simp at hmod
  omega

/-! ## Arguments that match -/

def VaArg.isStr : VaArg → Bool
  | .num _ => false
  | .str _ => true

def Conversion.kinds (c : Conversion) : List Bool := List.replicate (c.arity - 1) false ++ [decide (c.conv = 115)]

def kindsOf : List Piece → List Bool
  | [] => []
  | .lit _ :: ps => kindsOf ps
  | .conv c :: ps => c.kinds ++ kindsOf ps

/-- The arguments of the conversions come first, each of the kind that is asked for. -/
def Matches (ps : List Piece) (args : List VaArg) : Prop := kindsOf ps <+: args.map VaArg.isStr

def Conversion.Accepts (c : Conversion) (args : List VaArg) : Prop := args.map VaArg.isStr = c.kinds

theorem Conversion.Accepts.length {c : Conversion} {args : List VaArg} (h : c.Accepts args) : args.length = c.arity := by
  have hlen := congrArg List.length h
  simp only [List.length_map, Conversion.kinds, List.length_append, List.length_replicate, List.length_singleton] at hlen
  unfold Conversion.arity at hlen ⊢
  omega

theorem matches_conv {c : Conversion} {ps : List Piece} {args : List VaArg} :
    Matches (.conv c :: ps) args ↔ ∃ as rest, args = as ++ rest ∧ c.Accepts as ∧ Matches ps rest := by
  constructor
  · rintro ⟨t, ht⟩
    rw [kindsOf, List.append_assoc] at ht
    obtain ⟨as, rest, rfl, has, hrest⟩ := List.map_eq_append_iff.mp ht.symm
    exact ⟨as, rest, rfl, has, t, hrest.symm⟩
  · rintro ⟨as, rest, rfl, has, t, ht⟩
    refine ⟨t, ?_⟩
    rw [List.map_append, has, ← ht, kindsOf, List.append_assoc]

theorem exists_matches (ps : List Piece) : ∃ args, Matches ps args := by
  refine ⟨(kindsOf ps).map fun b => if b then .str none else .num 0, [], ?_⟩
  rw [List.append_nil, List.map_map]
  refine (List.map_id _).symm.trans (List.map_congr_left fun b _ => ?_)
  cases b <;> rfl

/-! ## Formats that show nothing of their arguments -/

section
variable (libc : Libc)

def Libc.Shows (c : Conversion) : Prop :=
  ∃ as as', c.Accepts as ∧ c.Accepts as' ∧ libc.text c as ≠ libc.text c as'

theorem render_conv {c : Conversion} {as : List VaArg} (h : c.Accepts as) (ps : List Piece) (rest : List VaArg) :
    render libc (.conv c :: ps) (as ++ rest) = libc.text c as ++ render libc ps rest := by
  rw [render, List.take_left' h.length, List.drop_left' h.length]

theorem exists_accepts (c : Conversion) : ∃ as, c.Accepts as := by
  obtain ⟨args, hm⟩ := exists_matches [.conv c]
  obtain ⟨as, _, _, has, _⟩ := matches_conv.mp hm
  exact ⟨as, has⟩

theorem render_const_conv (c : Conversion) (ps : List Piece) :
    (∀ args args', Matches (.conv c :: ps) args → Matches (.conv c :: ps) args' →
        render libc (.conv c :: ps) args = render libc (.conv c :: ps) args') ↔
      ¬ libc.Shows c ∧ ∀ args args', Matches ps args → Matches ps args' → render libc ps args = render libc ps args' := by
  constructor
  · intro h
    refine ⟨?_, fun args args' hargs hargs' => ?_⟩
    · rintro ⟨as, as', has, has', hne⟩
      obtain ⟨rest, hrest⟩ := exists_matches ps
      have heq := h (as ++ rest) (as' ++ rest) (matches_conv.mpr ⟨as, rest, rfl, has, hrest⟩)
        (matches_conv.mpr ⟨as', rest, rfl, has', hrest⟩)
      rw [render_conv libc has, render_conv libc has'] at heq
      exact hne (List.append_cancel_right heq)
    · obtain ⟨as, has⟩ := exists_accepts c
      have heq := h (as ++ args) (as ++ args') (matches_conv.mpr ⟨as, args, rfl, has, hargs⟩)
        (matches_conv.mpr ⟨as, args', rfl, has, hargs'⟩)
      rw [render_conv libc has, render_conv libc has] at heq
      exact List.append_cancel_left heq
  · rintro ⟨hc, hps⟩ args args' hargs hargs'
    obtain ⟨as, rest, rfl, has, hrest⟩ := matches_conv.mp hargs
    obtain ⟨as', rest', rfl, has', hrest'⟩ := matches_conv.mp hargs'
    have htext : libc.text c as = libc.text c as' := by
      by_contra hne
      exact hc ⟨as, as', has, has', hne⟩
    rw [render_conv libc has, render_conv libc has', htext, hps rest rest' hrest hrest']

/-- **The text is always the same exactly when no conversion shows its arguments.** -/
theorem render_const_iff (ps : List Piece) :
    (∀ args args', Matches ps args → Matches ps args' → render libc ps args = render libc ps args') ↔
      ∀ c, .conv c ∈ ps → ¬ libc.Shows c := by
  induction ps with
  | nil => simp [render]
  | cons p ps ih =>
    cases p with
    | lit b =>
      simp only [render, List.cons.injEq, true_and, List.mem_cons, reduceCtorEq, false_or]
      exact ih
    | conv c =>
      rw [render_const_conv, ih]
      simp only [List.mem_cons, Piece.conv.injEq, forall_eq_or_imp]

end

/-! ## `snprintf` -/

/-- The stores of `snprintf` and `vsnprintf`: as much of the text as there is room for, and a terminator. -/
def snprintf (dst : Int) (size : Nat) (text : List Byte) : Stores :=
  if size = 0 then [] else storesAt dst (text.take (size - 1) ++ [0])

/-- Their result: the length of the whole text, or -1 where that is no `int`. -/
def snprintfResult (text : List Byte) : Int := if text.length < 2 ^ 31 then text.length else -1

theorem mem_snprintf {dst i : Int} {size : Nat} {text : List Byte} :
    i ∈ (snprintf dst size text).map Prod.fst ↔
      size ≠ 0 ∧ dst ≤ i ∧ i ≤ dst + (min (size - 1) text.length : Nat) := by
  unfold snprintf
  split
  · rename_i h
    simp [h]
  · rename_i h
    rw [mem_storesAt]
    simp only [List.length_append, List.length_take, List.length_singleton]
    omega

theorem spells_snprintf {dst : Int} {size : Nat} (h : size ≠ 0) (text : List Byte) (m : Mem) :
    Spells (applyStores m (snprintf dst size text)) dst (text.take (size - 1) ++ [0]) := by
  rw [snprintf, if_neg h]
  exact spells_storesAt _ m dst

end CSem
