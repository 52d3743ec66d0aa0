import Mathlib
import Mqrestt.Lib.Mem

/-!
# The allocator

A heap is the finite map of its live blocks. What the allocator does is decided
outside the program: it refuses (`none`), or it offers an address, which is used
unless a live block sits there. So every placement a real allocator could choose,
reuse of freed addresses included, is some sequence of offers.
-/

namespace CSem

abbrev Addr := Nat

abbrev Heap (α : Type) := AList fun _ : Addr => α

namespace Heap
variable {α : Type}

/-- The offered address, or one above all live blocks where the offer is taken. -/
def fresh (h : Heap α) (offer : Addr) : Addr :=
  if offer ∈ h then h.keys.foldr max 0 + 1 else offer

theorem fresh_notMem (h : Heap α) (offer : Addr) : h.fresh offer ∉ h := by
  unfold fresh
  split
  · intro hm
    have : h.keys.foldr max 0 + 1 ≤ h.keys.foldr max 0 :=
      List.le_max_of_le (AList.mem_keys.mp hm) (le_refl _)
    exact Nat.not_succ_le_self _ this
  · assumption

def malloc (h : Heap α) (offer : Option Addr) (v : α) : Option (Addr × Heap α) :=
  offer.map fun o => (h.fresh o, h.insert (h.fresh o) v)

theorem malloc_spec {h h' : Heap α} {offer : Option Addr} {v : α} {a : Addr}
    (hm : h.malloc offer v = some (a, h')) :
    h.lookup a = none ∧ h'.lookup a = some v ∧ ∀ b, b ≠ a → h'.lookup b = h.lookup b := by
  cases offer with
  | none => cases hm
  | some o =>
    obtain ⟨rfl, rfl⟩ := Prod.mk.injEq .. ▸ Option.some.inj hm
    exact ⟨AList.lookup_eq_none.mpr (fresh_notMem h o), AList.lookup_insert h, fun b hb => AList.lookup_insert_ne hb⟩

end Heap

structure Block where
  size : Nat
  bytes : Mem

/-- What `realloc` returns memory with: the old bytes as far as both sizes reach, and whatever
the allocator hands out elsewhere. -/
def Block.grown (old : Option Block) (n : Nat) (fill : Mem) : Block where
  size := n
  bytes i :=
    match old with
    | some b => if 0 ≤ i ∧ i < min b.size n then b.bytes i else fill i
    | none => fill i

namespace Heap

/-- `realloc(p, n)`: the block at `p` is given up, and a block of `n` bytes that starts with its
contents comes back, there or elsewhere. -/
def realloc (h : Heap Block) (offer : Option Addr) (fill : Mem) (p : Option Addr) (n : Nat) :
    Option (Addr × Heap Block) :=
  let rest : Heap Block := match p with
    | some a => h.erase a
    | none => h
  rest.malloc offer (Block.grown (p.bind h.lookup) n fill)

theorem realloc_spec {h h' : Heap Block} {offer : Option Addr} {fill : Mem} {p : Option Addr} {n : Nat}
    {a : Addr} (hr : h.realloc offer fill p n = some (a, h')) :
    h'.lookup a = some (Block.grown (p.bind h.lookup) n fill) ∧
      (∀ b, h.lookup b ≠ none → some b ≠ p → b ≠ a) ∧
      (∀ b, b ≠ a → some b ≠ p → h'.lookup b = h.lookup b) ∧
      ∀ b, b ≠ a → some b = p → h'.lookup b = none := by
  obtain ⟨hn, hl, hne⟩ := malloc_spec hr
  have hrest : ∀ b, some b ≠ p → (match p with | some a => h.erase a | none => h).lookup b = h.lookup b := by
    intro b hb
    cases p with
    | none => rfl
    | some c => exact AList.lookup_erase_ne fun e => hb (congrArg some e)
  refine ⟨hl, ?_, ?_, ?_⟩
  · rintro b hlive hb rfl
    exact hlive ((hrest b hb).symm.trans hn)
  · intro b hba hbp
    exact (hne b hba).trans (hrest b hbp)
  · rintro b hba rfl
    exact (hne b hba).trans (AList.lookup_erase b h)

end Heap

theorem Block.spells_grown {b : Block} {n : Nat} {fill : Mem} {s : List Byte} (h : Spells b.bytes 0 s)
    (hs : s.length ≤ b.size) (hn : b.size ≤ n) : Spells (Block.grown (some b) n fill).bytes 0 s := by
  refine h.frame fun i h₁ h₂ => ?_
  have : i < min b.size n := by omega
  simp only [Block.grown]
  rw [if_pos ⟨h₁, this⟩]

end CSem
