import Mathlib

/-!
# Memory and C strings

A string argument is the list of bytes from its pointer on; `cstr` is the string
a C function reads there. An object that is written is a `Mem`, the bytes seen
from its start at any offset, inside the object or not: an access is not checked,
its offset is recorded with it (`Stores`), so that what the code computes and
whether it stays inside its buffer are two separate statements.
-/

namespace CSem

abbrev Byte := UInt8

def bytes (s : String) : List Byte := s.toList.map fun c => c.toNat.toUInt8

/-! ## Strings read through a pointer -/

/-- The string at the start of a stretch of memory: the bytes before the first NUL. -/
def cstr (l : List Byte) : List Byte := l.takeWhile (· ≠ 0)

theorem noNul_cstr (l : List Byte) : 0 ∉ cstr l := by
  intro h
  simpa using List.mem_takeWhile_imp h

theorem cstr_append_of_noNul {a : List Byte} (h : 0 ∉ a) (b : List Byte) : cstr (a ++ b) = a ++ cstr b :=
  List.takeWhile_append_of_pos fun x hx => by simpa using fun e : x = 0 => h (e ▸ hx)

theorem cstr_append_nul {s : List Byte} (h : 0 ∉ s) (rest : List Byte) : cstr (s ++ 0 :: rest) = s := by
  rw [cstr_append_of_noNul h]
  exact List.append_nil s

theorem cstr_eq_self_iff {s : List Byte} : cstr s = s ↔ 0 ∉ s := by
  refine ⟨fun h => h ▸ noNul_cstr s, fun h => ?_⟩
  have := cstr_append_of_noNul h []
  rw [List.append_nil] at this
  exact this.trans (List.append_nil s)

theorem length_cstr_le (l : List Byte) : (cstr l).length ≤ l.length :=
  (List.takeWhile_prefix _).length_le

theorem length_cstr_lt {l : List Byte} (h : 0 ∈ l) : (cstr l).length < l.length := by
  refine lt_of_le_of_ne (length_cstr_le l) fun e => ?_
  exact cstr_eq_self_iff.mp ((List.takeWhile_prefix _).eq_of_length e) h

theorem take_cstr (n : Nat) (l : List Byte) : (cstr l).take n = cstr (l.take n) := List.take_takeWhile

theorem cstr_append_of_nul {a : List Byte} (h : 0 ∈ a) (b : List Byte) : cstr (a ++ b) = cstr a := by
  rw [cstr, List.takeWhile_append]
  exact if_neg (length_cstr_lt h).ne

structure CStr where
  bytes : List Byte
  noNul : 0 ∉ bytes
  deriving DecidableEq

@[ext] theorem CStr.ext {s t : CStr} (h : s.bytes = t.bytes) : s = t := by
  cases s; cases t; simp_all

/-- A string in memory: its terminator follows, and behind it lies what the owner of the
memory put there. -/
structure CStrAt where
  str : CStr
  beyond : List Byte

def CStrAt.mem (s : CStrAt) : List Byte := s.str.bytes ++ 0 :: s.beyond

/-! ## Objects that are written -/

abbrev Mem := Int → Byte

abbrev Stores := List (Int × Byte)

def applyStores (m : Mem) (ss : Stores) : Mem := ss.foldl (fun m s => Function.update m s.1 s.2) m

def storesAt : Int → List Byte → Stores
  | _, [] => []
  | o, b :: bs => (o, b) :: storesAt (o + 1) bs

def Spells (m : Mem) : Int → List Byte → Prop
  | _, [] => True
  | o, b :: bs => m o = b ∧ Spells m (o + 1) bs

/-- The string at offset `o`, looked for in the `n` bytes from there on. -/
def scan (m : Mem) : Nat → Int → List Byte
  | 0, _ => []
  | n + 1, o => if m o = 0 then [] else m o :: scan m n (o + 1)

@[simp] theorem applyStores_nil (m : Mem) : applyStores m [] = m := rfl

@[simp] theorem applyStores_cons (m : Mem) (s : Int × Byte) (ss : Stores) :
    applyStores m (s :: ss) = applyStores (Function.update m s.1 s.2) ss := rfl

theorem applyStores_append (m : Mem) (as bs : Stores) : applyStores m (as ++ bs) = applyStores (applyStores m as) bs :=
  List.foldl_append

theorem applyStores_of_notMem {i : Int} {ss : Stores} (m : Mem) (h : i ∉ ss.map Prod.fst) :
    applyStores m ss i = m i := by
  induction ss generalizing m with
  | nil => rfl
  | cons s ss ih =>
    simp only [List.map_cons, List.mem_cons, not_or] at h
    rw [applyStores_cons, ih _ h.2, Function.update_of_ne h.1]

theorem mem_storesAt {i : Int} (bs : List Byte) (o : Int) :
    i ∈ (storesAt o bs).map Prod.fst ↔ o ≤ i ∧ i < o + bs.length := by
  induction bs generalizing o with
  | nil => simp [storesAt]
  | cons b bs ih =>
    simp only [storesAt, List.map_cons, List.mem_cons, ih, List.length_cons]
    omega

theorem storesAt_outside {i o : Int} {bs : List Byte} (m : Mem) (h : i < o ∨ o + bs.length ≤ i) :
    applyStores m (storesAt o bs) i = m i := by
  apply applyStores_of_notMem
  rw [mem_storesAt]
  omega

theorem Spells.frame {m m' : Mem} : ∀ {bs : List Byte} {o : Int}, Spells m o bs →
    (∀ i, o ≤ i → i < o + bs.length → m' i = m i) → Spells m' o bs
  | [], _, _, _ => trivial
  | b :: bs, o, ⟨hb, hs⟩, h => by
    simp only [List.length_cons] at h
    exact ⟨by rw [h o (by omega) (by omega)]; exact hb, hs.frame fun i h₁ h₂ => h i (by omega) (by omega)⟩

theorem Spells.ne_zero {m : Mem} : ∀ {bs : List Byte} {o i : Int}, Spells m o bs → 0 ∉ bs → o ≤ i →
    i < o + bs.length → m i ≠ 0
  | [], _, _, _, _, h₁, h₂ => by simp only [List.length_nil] at h₂; omega
  | b :: bs, o, i, ⟨hb, hs⟩, h0, h₁, h₂ => by
    simp only [List.mem_cons, not_or, List.length_cons] at h0 h₂
    by_cases hi : i = o
    · rw [hi, hb]
      exact fun e => h0.1 e.symm
    · exact hs.ne_zero h0.2 (by omega) (by omega)

theorem Spells.getElem? {m : Mem} : ∀ {bs : List Byte} {o : Int} {k : Nat}, Spells m o bs → k < bs.length →
    bs[k]? = some (m (o + k))
  | b :: bs, o, 0, ⟨hb, _⟩, _ => by simp [hb]
  | b :: bs, o, k + 1, ⟨_, hs⟩, hk => by
    have e : o + ((k + 1 : Nat) : Int) = o + 1 + k := by push_cast; ring
    rw [List.getElem?_cons_succ, hs.getElem? (by simpa using hk), e]

theorem spells_append {m : Mem} (as bs : List Byte) (o : Int) :
    Spells m o (as ++ bs) ↔ Spells m o as ∧ Spells m (o + as.length) bs := by
  induction as generalizing o with
  | nil => simp [Spells]
  | cons a as ih =>
    have e : o + 1 + (as.length : Int) = o + ((as.length : Int) + 1) := by omega
    simp only [List.cons_append, Spells, ih, List.length_cons, and_assoc, Nat.cast_add, Nat.cast_one, e]

theorem spells_singleton {m : Mem} {o : Int} {b : Byte} : Spells m o [b] ↔ m o = b := by
  simp [Spells]

theorem spells_storesAt (bs : List Byte) (m : Mem) (o : Int) : Spells (applyStores m (storesAt o bs)) o bs := by
  induction bs generalizing m o with
  | nil => trivial
  | cons b bs ih =>
    refine ⟨?_, ?_⟩
    · rw [storesAt, applyStores_cons, storesAt_outside _ (by omega), Function.update_self]
    · apply ih

theorem scan_of_spells {m : Mem} : ∀ {s : List Byte} {n : Nat} {o : Int}, Spells m o (s ++ [0]) → 0 ∉ s →
    s.length ≤ n → scan m n o = s
  | [], 0, _, _, _, _ => rfl
  | [], n + 1, _, ⟨h, _⟩, _, _ => by rw [scan, if_pos h]
  | b :: s, 0, _, _, _, h => absurd h (by simp)
  | b :: s, n + 1, o, ⟨hb, hs⟩, h0, hn => by
    have hne : m o ≠ 0 := fun e => h0 (by rw [← hb, e]; simp)
    rw [scan, if_neg hne, scan_of_spells hs (fun hm => h0 (List.mem_cons_of_mem _ hm)) (by simpa using hn), hb]

theorem scan_congr {m m' : Mem} : ∀ {n : Nat} {o : Int}, (∀ i, o ≤ i → i < o + n → m' i = m i) → scan m' n o = scan m n o
  | 0, _, _ => rfl
  | n + 1, o, h => by
    rw [scan, scan, h o (by omega) (by omega), scan_congr fun i h₁ h₂ => h i (by omega) (by omega)]

theorem spells_cstr {m : Mem} {o : Int} {l : List Byte} (h : Spells m o (l ++ [0])) : Spells m o (cstr l ++ [0]) := by
  by_cases h0 : 0 ∈ l
  · obtain ⟨s, t, rfl, hs⟩ := List.eq_append_cons_of_mem h0
    rw [cstr_append_nul hs]
    rw [List.append_assoc, spells_append] at h
    rw [spells_append]
    exact ⟨h.1, h.2.1, trivial⟩
  · rw [cstr_eq_self_iff.mpr h0]
    exact h

theorem scan_eq_cstr {m : Mem} {n : Nat} {o : Int} {l : List Byte} (h : Spells m o (l ++ [0])) (hn : l.length ≤ n) :
    scan m n o = cstr l :=
  scan_of_spells (spells_cstr h) (noNul_cstr l) ((length_cstr_le l).trans hn)

theorem length_scan_le {m : Mem} : ∀ {n k : Nat} {o : Int}, m (o + k) = 0 → (scan m n o).length ≤ k
  | 0, _, _, _ => by simp [scan]
  | n + 1, 0, o, h => by simp [scan, show m o = 0 by simpa using h]
  | n + 1, k + 1, o, h => by
    rw [scan]
    split
    · simp
    · have hk : m (o + 1 + k) = 0 := by rw [← h]; congr 1; push_cast; ring
      simpa using length_scan_le hk

theorem le_length_scan {m : Mem} : ∀ {k n : Nat} {o : Int}, (∀ i, o ≤ i → i < o + k → m i ≠ 0) → k ≤ n →
    k ≤ (scan m n o).length
  | 0, _, _, _, _ => Nat.zero_le _
  | k + 1, 0, _, _, hn => absurd hn (by omega)
  | k + 1, n + 1, o, h, hn => by
    rw [scan, if_neg (h o (by omega) (by omega)), List.length_cons]
    exact Nat.succ_le_succ (le_length_scan (fun i h₁ h₂ => h i (by omega) (by omega)) (by omega))

/-! ## Copying into an object -/

/-- The stores of `strncat(dst, src, n)`: from the end of the string at `dst` on, at most `n`
bytes of `src`, and a terminator in any case. -/
def strncat (m : Mem) (fuel : Nat) (dst : Int) (src : List Byte) (n : Nat) : Stores :=
  storesAt (dst + (scan m fuel dst).length) ((cstr src).take n ++ [0])

def scanReads (m : Mem) (fuel : Nat) (dst : Int) : List Int :=
  (List.range ((scan m fuel dst).length + 1)).map fun k => dst + k

/-- The stores of `strncpy(dst, src, n)`: `n` bytes, padded with NULs, without a terminator
where `src` fills them all. -/
def strncpy (dst : Int) (src : List Byte) (n : Nat) : Stores :=
  storesAt dst ((cstr src).take n ++ List.replicate (n - (cstr src).length) 0)

theorem spells_strncat {m : Mem} {fuel : Nat} {dst : Int} {s : List Byte} (src : List Byte) (n : Nat)
    (hs : Spells m dst (s ++ [0])) (h0 : 0 ∉ s) (hf : s.length ≤ fuel) :
    Spells (applyStores m (strncat m fuel dst src n)) dst (s ++ ((cstr src).take n ++ [0])) := by
  rw [strncat, scan_of_spells hs h0 hf, spells_append]
  refine ⟨?_, spells_storesAt _ _ _⟩
  rw [spells_append] at hs
  exact hs.1.frame fun i _ h => storesAt_outside _ (Or.inl h)

theorem strncat_terminated (m : Mem) (fuel : Nat) (dst : Int) (src : List Byte) (n : Nat) :
    applyStores m (strncat m fuel dst src n) (dst + (scan m fuel dst).length + ((cstr src).take n).length) = 0 := by
  have hs := spells_storesAt ((cstr src).take n ++ [0]) m (dst + (scan m fuel dst).length)
  rw [spells_append, spells_singleton] at hs
  exact hs.2

theorem mem_strncat {m : Mem} {fuel : Nat} {dst i : Int} {src : List Byte} {n : Nat} :
    i ∈ (strncat m fuel dst src n).map Prod.fst ↔
      dst + (scan m fuel dst).length ≤ i ∧ i ≤ dst + (scan m fuel dst).length + ((cstr src).take n).length := by
  rw [strncat, mem_storesAt, List.length_append, List.length_singleton]
  omega

theorem mem_scanReads {m : Mem} {fuel : Nat} {dst i : Int} :
    i ∈ scanReads m fuel dst ↔ dst ≤ i ∧ i ≤ dst + (scan m fuel dst).length := by
  simp only [scanReads, List.mem_map, List.bind_eq_flatMap, List.mem_flatMap, List.mem_range, List.pure_def,
    List.mem_singleton]
  constructor
  · rintro ⟨_, ⟨k, hk, rfl⟩, rfl⟩
    omega
  · intro h
    exact ⟨i - dst, ⟨(i - dst).toNat, by omega, by omega⟩, by omega⟩

theorem mem_strncpy {src : List Byte} {n : Nat} {dst i : Int} :
    i ∈ (strncpy dst src n).map Prod.fst ↔ dst ≤ i ∧ i < dst + n := by
  rw [strncpy, mem_storesAt, List.length_append, List.length_take, List.length_replicate]
  omega

theorem spells_strncpy_take (src : List Byte) (n : Nat) (m : Mem) (dst : Int) :
    Spells (applyStores m (strncpy dst src n)) dst ((cstr src).take n) := by
  have hs := spells_storesAt ((cstr src).take n ++ List.replicate (n - (cstr src).length) 0) m dst
  exact ((spells_append _ _ _).mp hs).1

theorem spells_strncpy {src : List Byte} {n : Nat} (h : (cstr src).length < n) (m : Mem) (dst : Int) :
    Spells (applyStores m (strncpy dst src n)) dst (cstr src ++ [0]) := by
  have hr : List.replicate (n - (cstr src).length) (0 : Byte) =
      [0] ++ List.replicate (n - (cstr src).length - 1) 0 := by
    rw [show n - (cstr src).length = n - (cstr src).length - 1 + 1 by omega, List.replicate_succ]
    rfl
  have hs := spells_storesAt ((cstr src).take n ++ List.replicate (n - (cstr src).length) 0) m dst
  rw [List.take_of_length_le h.le, hr, ← List.append_assoc, spells_append] at hs
  unfold strncpy
  rw [List.take_of_length_le h.le, hr, ← List.append_assoc]
  exact hs.1

end CSem
