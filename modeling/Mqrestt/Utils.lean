import Mathlib
import Mqrestt.Effect
import Mqrestt.Lib.Heap

/-!
# `utils.c`
-/

namespace Mqrestt
open CSem

/-- `errno` and the old `*val` decide together whether a saturated result counts as an error;
`*val` is assigned in any case. -/
def parseInt (w : LongWidth) (str : Option (List Byte)) (val : Int) : Run (Bool × Int) :=
  match str with
  | none => Proc.halt (.nullString .strtol)
  | some s =>
    let r := strtol w s
    let rc := !(!r.matched || cstr r.rest ≠ [] || (val = w.min || val = w.max) && r.erange)
    pure (rc, toCInt r.value)

def outOfMemory {α : Type} (line n : Nat) : Run α := do
  Proc.emit (.stderr "[%s:%lu]Out of memory(%lu bytes)\n" [.str (some (bytes "utils.c")), .num line, .num n])
  Proc.halt (.exit 1)

def safeMalloc {α : Type} (h : Heap α) (offer : Option Addr) (v : α) (n line : Nat) : Run (Addr × Heap α) :=
  match h.malloc offer v with
  | some r => pure r
  | none => outOfMemory line n

def deref {α : Type} (h : Heap α) (a : Addr) : Run α :=
  match h.lookup a with
  | some v => pure v
  | none => Proc.halt .freedPointer

def safeRealloc (h : Heap Block) (offer : Option Addr) (fill : Mem) (ptr : Option Addr) (n line : Nat) :
    Run (Addr × Heap Block) :=
  match h.realloc offer fill ptr n with
  | some r => pure r
  | none => outOfMemory line n

end Mqrestt
