import Mathlib
import Mqrestt.Lib.Mem

/-!
# Paths, MQTT topic names and filters

A topic is read as its levels, the parts between the slashes, empty ones included.
A filter matches level by level: `+` stands for one level, and a final `#` for the
levels that are left, of which there may be none. Below a base, a path is appended
with one slash in between.
-/

namespace Mqtt
open CSem

def slash : Byte := 47

def plus : Byte := 43

def hash : Byte := 35

def dollar : Byte := 36

def levels (t : List Byte) : List (List Byte) := t.splitOn slash

def join (ls : List (List Byte)) : List Byte := [slash].intercalate ls

theorem join_levels (t : List Byte) : join (levels t) = t := List.intercalate_splitOn slash

theorem levels_ne_nil (t : List Byte) : levels t ≠ [] := List.splitOn_ne_nil _ _

theorem levels_append (a b : List Byte) : levels (a ++ slash :: b) = levels a ++ levels b :=
  List.splitOn_append_cons_self a b

theorem join_append : ∀ {as bs : List (List Byte)}, as ≠ [] → bs ≠ [] →
    join (as ++ bs) = join as ++ slash :: join bs
  | [], _, h, _ => absurd rfl h
  | [a], bs, _, hb => by
    simp [join, List.intercalate_cons_of_ne_nil hb]
  | a :: b :: as, bs, _, hb => by
    have ih := join_append (List.cons_ne_nil b as) hb
    unfold join at *
    rw [List.cons_append, List.intercalate_cons_of_ne_nil (by simp), ih,
      List.intercalate_cons_of_ne_nil (List.cons_ne_nil b as)]
    simp

theorem split_levels {t : List Byte} {n : Nat} (h0 : 0 < n) (hn : n < (levels t).length) :
    t = join ((levels t).take n) ++ slash :: join ((levels t).drop n) := by
  have h₁ : (levels t).take n ≠ [] := by simpa [levels_ne_nil] using h0.ne'
  have h₂ : (levels t).drop n ≠ [] := by simpa using hn
  rw [← join_append h₁ h₂, List.take_append_drop, join_levels]

def validLevel (l : List Byte) : Bool :=
  l = [plus] ∨ l = [hash] ∨ plus ∉ l ∧ hash ∉ l

def levelsMatch : List (List Byte) → List (List Byte) → Bool
  | [], [] => true
  | [], _ :: _ => false
  | f :: fs, ts =>
    if f = [hash] then fs.isEmpty
    else match ts with
      | [] => false
      | t :: ts => (f = [plus] || f = t) && levelsMatch fs ts

/-- The matching rules for a filter and a topic name. A filter that starts with a wildcard
matches no name that starts with `$`. -/
def topicMatches (filter topic : List Byte) : Bool :=
  (levels filter).all validLevel &&
    !((filter.head? = some plus || filter.head? = some hash) && topic.head? = some dollar) &&
    levelsMatch (levels filter) (levels topic)

theorem levelsMatch_of_topicMatches {f t : List Byte} (h : topicMatches f t = true) :
    levelsMatch (levels f) (levels t) = true := by
  unfold topicMatches at h
  exact (Bool.and_eq_true_iff.mp h).2

theorem length_le_of_match {fs ts : List (List Byte)} (h : levelsMatch (fs ++ [[hash]]) ts = true) :
    fs.length ≤ ts.length := by
  induction fs generalizing ts with
  | nil => exact Nat.zero_le _
  | cons f fs ih =>
    simp only [List.cons_append, levelsMatch] at h
    by_cases hf : f = [hash]
    · simp [hf] at h
    · rw [if_neg hf] at h
      cases ts with
      | nil => cases h
      | cons t ts =>
        have := ih (Bool.and_eq_true_iff.mp h).2
        simpa using this

/-! ## Names below a base without wildcards -/

theorem subset_join {ls : List (List Byte)} {l : List Byte} (hl : l ∈ ls) : l ⊆ join ls := by
  induction ls with
  | nil => cases hl
  | cons a ls ih =>
    by_cases hls : ls = []
    · subst hls
      obtain rfl := List.mem_singleton.mp hl
      simp [join]
    · have hcons : join (a :: ls) = a ++ [slash] ++ join ls := List.intercalate_cons_of_ne_nil hls
      rw [hcons]
      intro x hx
      rcases List.mem_cons.mp hl with rfl | hl
      · simp [hx]
      · exact List.mem_append_right _ (ih hl hx)

theorem level_subset {t l : List Byte} (hl : l ∈ levels t) : l ⊆ t := by
  have := subset_join hl
  rwa [join_levels] at this

theorem levelsMatch_below {fs : List (List Byte)} (hfs : ∀ f ∈ fs, f ≠ [hash]) (ts : List (List Byte)) :
    levelsMatch (fs ++ [[hash]]) (fs ++ ts) = true := by
  induction fs with
  | nil => simp [levelsMatch]
  | cons f fs ih =>
    obtain ⟨hf, hfs⟩ := List.forall_mem_cons.mp hfs
    simp [levelsMatch, hf, ih hfs]

theorem topicMatches_below {p : List Byte} (hplus : plus ∉ p) (hhash : hash ∉ p) (r : List Byte) :
    topicMatches (p ++ slash :: [hash]) (p ++ slash :: r) = true := by
  have hfree : ∀ l ∈ levels p, plus ∉ l ∧ hash ∉ l := fun l hl =>
    ⟨fun h => hplus (level_subset hl h), fun h => hhash (level_subset hl h)⟩
  have hlast : levels [hash] = [[hash]] := by decide
  have hvalid : ∀ l ∈ levels (p ++ slash :: [hash]), validLevel l = true := by
    intro l hl
    rw [levels_append, hlast] at hl
    rcases List.mem_append.mp hl with hl | hl
    · simp [validLevel, hfree l hl]
    · obtain rfl := List.mem_singleton.mp hl
      decide
  have hmatch : levelsMatch (levels (p ++ slash :: [hash])) (levels (p ++ slash :: r)) = true := by
    rw [levels_append, levels_append, hlast]
    apply levelsMatch_below
    intro f hf e
    subst e
    exact (hfree _ hf).2 (by simp)
  have hhead : ∀ b, b ∉ p → b ≠ slash → (p ++ slash :: [hash]).head? ≠ some b := by
    intro b hb hs
    cases p with
    | nil => simpa using hs.symm
    | cons a p => intro h; exact hb (by simp_all)
  have h₁ := hhead plus hplus (by decide)
  have h₂ := hhead hash hhash (by decide)
  unfold topicMatches
  rw [hmatch, List.all_eq_true.mpr hvalid]
  simp only [h₁, h₂, decide_false, Bool.or_self, Bool.false_and, Bool.not_false, Bool.and_self]

/-! ## A path below a base -/

def joinSlash (base path : List Byte) : List Byte :=
  if base.getLast? = some slash then base ++ path else base ++ slash :: path

theorem joinSlash_append (base path : List Byte) : joinSlash base path = joinSlash base [] ++ path := by
  unfold joinSlash
  split <;> simp

theorem joinSlash_injective (base : List Byte) : Function.Injective (joinSlash base) := by
  intro p q h
  rw [joinSlash_append, joinSlash_append base q] at h
  exact List.append_cancel_left h

theorem noNul_joinSlash {base path : List Byte} (hb : 0 ∉ base) (hp : 0 ∉ path) : 0 ∉ joinSlash base path := by
  unfold joinSlash
  split <;> simp [hb, hp, slash]

theorem length_joinSlash (base path : List Byte) :
    (joinSlash base path).length = base.length + (if base.getLast? = some slash then 0 else 1) + path.length := by
  unfold joinSlash
  split
  · simp
  · simp only [List.length_append, List.length_cons]
    omega

theorem length_lt_joinSlash (base path : List Byte) : path.length < (joinSlash base path).length := by
  unfold joinSlash
  by_cases hb : base.getLast? = some slash
  · have : base ≠ [] := by
      intro h
      subst h; cases hb
    have := List.length_pos_iff.mpr this
    rw [if_pos hb, List.length_append]
    omega
  · rw [if_neg hb, List.length_append, List.length_cons]
    omega

end Mqtt
