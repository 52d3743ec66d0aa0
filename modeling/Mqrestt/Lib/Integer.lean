import Mqrestt.Lib.Strtol

/-!
# The integers that `strtol` accepts

The grammar of a base-0 integer, independent of how `strtol` scans it: blanks, a sign,
and a decimal, octal or hexadecimal magnitude. `strtol` reads a whole string exactly when
the string denotes an integer, and its result is that integer cut off at the ends of `long`.
-/

namespace CSem

inductive Magnitude : List Byte → Nat → Prop
  | decimal {d : Byte} {ds : List Byte} (hd : d ≠ 48) (h : ∀ b ∈ d :: ds, isDigit 10 b = true) :
      Magnitude (d :: ds) (numeral 10 (d :: ds))
  | octal {ds : List Byte} (h : ∀ b ∈ ds, isDigit 8 b = true) : Magnitude (48 :: ds) (numeral 8 ds)
  | hexadecimal {x d : Byte} {ds : List Byte} (hx : x = 120 ∨ x = 88) (h : ∀ b ∈ d :: ds, isDigit 16 b = true) :
      Magnitude (48 :: x :: d :: ds) (numeral 16 (d :: ds))

inductive Sign : List Byte → Bool → Prop
  | none : Sign [] false
  | plus : Sign [43] false
  | minus : Sign [45] true

def negateIf (neg : Bool) (n : Nat) : Int := if neg then -n else n

/-- The whole string `s` is a base-0 integer constant for `v`. -/
def Denotes (s : List Byte) (v : Int) : Prop :=
  ∃ blanks sign body neg n, s = blanks ++ (sign ++ body) ∧ (∀ b ∈ blanks, isSpace b = true) ∧
    Sign sign neg ∧ Magnitude body n ∧ v = negateIf neg n

/-! ## Digits -/

theorem ge_of_isDigit {base : Nat} {b : Byte} (h : isDigit base b = true) : 48 ≤ b := by
  by_contra hb
  have h₁ : ¬ 97 ≤ b := fun h => hb (UInt8.le_trans (by decide) h)
  have h₂ : ¬ 65 ≤ b := fun h => hb (UInt8.le_trans (by decide) h)
  simp [isDigit, digitVal, hb, h₁, h₂] at h

theorem isSpace_of_ge {b : Byte} (h : 48 ≤ b) : isSpace b = false := by
  have h₁ : b ≠ 32 := by rintro rfl; exact absurd h (by decide)
  have h₂ : ¬ b ≤ 13 := fun h' => absurd (UInt8.le_trans h h') (by decide)
  simp [isSpace, h₁, h₂]

theorem Magnitude.head {body : List Byte} {n : Nat} (h : Magnitude body n) :
    ∃ d ds, body = d :: ds ∧ 48 ≤ d := by
  cases h with
  | decimal _ h => exact ⟨_, _, rfl, ge_of_isDigit (h _ List.mem_cons_self)⟩
  | octal => exact ⟨_, _, rfl, by decide⟩
  | hexadecimal => exact ⟨_, _, rfl, by decide⟩

/-! ## Where the digits start -/

def AllDigits (body : List Byte) : Prop :=
  (baseOf body).2 ≠ [] ∧ ∀ b ∈ (baseOf body).2, isDigit (baseOf body).1 b = true

theorem baseOf_decimal {d : Byte} (hd : d ≠ 48) (ds : List Byte) : baseOf (d :: ds) = (10, d :: ds) := by
  unfold baseOf
  split
  · rename_i h; exact absurd (List.cons.inj h).1 hd
  · rename_i h; exact absurd (List.cons.inj h).1 hd
  · rfl

theorem baseOf_octal {ds : List Byte} (h : ∀ b ∈ ds, isDigit 8 b = true) : baseOf (48 :: ds) = (8, 48 :: ds) := by
  match ds, h with
  | [], _ => rfl
  | [x], _ => rfl
  | x :: d :: s, h =>
    have hx : ¬ (x = 120 ∨ x = 88) := by
      rintro (rfl | rfl) <;> exact absurd (h _ List.mem_cons_self) (by decide)
    exact if_neg fun c => hx c.1

theorem baseOf_hexadecimal {x d : Byte} (hx : x = 120 ∨ x = 88) (hd : isDigit 16 d = true) (ds : List Byte) :
    baseOf (48 :: x :: d :: ds) = (16, d :: ds) :=
  if_pos ⟨hx, hd⟩

theorem baseOf_cases (body : List Byte) :
    (∃ x d ds, body = 48 :: x :: d :: ds ∧ (x = 120 ∨ x = 88) ∧ baseOf body = (16, d :: ds)) ∨
    (∃ ds, body = 48 :: ds ∧ baseOf body = (8, 48 :: ds)) ∨
    ((∀ ds, body ≠ 48 :: ds) ∧ baseOf body = (10, body)) := by
  unfold baseOf
  split
  · rename_i x d ds
    split
    · rename_i h; exact .inl ⟨x, d, ds, rfl, h.1, rfl⟩
    · exact .inr (.inl ⟨_, rfl, rfl⟩)
  · exact .inr (.inl ⟨_, rfl, rfl⟩)
  · rename_i h; exact .inr (.inr ⟨h, rfl⟩)

theorem magnitude_iff {body : List Byte} {n : Nat} :
    Magnitude body n ↔ AllDigits body ∧ n = numeral (baseOf body).1 (baseOf body).2 := by
  constructor
  · intro h
    cases h with
    | decimal hd h =>
      rw [AllDigits, baseOf_decimal hd]
      exact ⟨⟨List.cons_ne_nil _ _, h⟩, rfl⟩
    | octal h =>
      rw [AllDigits, baseOf_octal h]
      exact ⟨⟨List.cons_ne_nil _ _, List.forall_mem_cons.mpr ⟨rfl, h⟩⟩, rfl⟩
    | hexadecimal hx h =>
      rw [AllDigits, baseOf_hexadecimal hx (h _ List.mem_cons_self)]
      exact ⟨⟨List.cons_ne_nil _ _, h⟩, rfl⟩
  · rintro ⟨⟨hne, hall⟩, rfl⟩
    obtain ⟨x, d, ds, rfl, hx, hb⟩ | ⟨ds, rfl, hb⟩ | ⟨h48, hb⟩ := baseOf_cases body <;>
      rw [hb] at hne hall ⊢
    · exact .hexadecimal hx hall
    · exact .octal (List.forall_mem_cons.mp hall).2
    · cases body with
      | nil => exact absurd rfl hne
      | cons d ds => exact .decimal (fun e => h48 ds (by rw [e])) hall

/-! ## The sign -/

theorem signOf_append {sign body : List Byte} {neg : Bool} {d : Byte} {ds : List Byte} (hs : Sign sign neg)
    (hb : body = d :: ds) (hd : 48 ≤ d) : signOf (sign ++ body) = (neg, body) := by
  subst hb
  cases hs with
  | plus => rfl
  | minus => rfl
  | none =>
    unfold signOf
    split
    · rename_i h; exact absurd ((List.cons.inj h).1 ▸ hd) (by decide)
    · rename_i h; exact absurd ((List.cons.inj h).1 ▸ hd) (by decide)
    · rfl

theorem signOf_split (s : List Byte) : ∃ sign, Sign sign (signOf s).1 ∧ s = sign ++ (signOf s).2 := by
  unfold signOf
  split
  · exact ⟨[45], .minus, rfl⟩
  · exact ⟨[43], .plus, rfl⟩
  · exact ⟨[], .none, rfl⟩

/-! ## The whole string -/

def LongWidth.clamp (w : LongWidth) (v : Int) : Int := if v < w.min then w.min else if w.max < v then w.max else v

def bodyOf (s : List Byte) : List Byte := (signOf (s.dropWhile isSpace)).2

def valueOf (s : List Byte) : Int :=
  negateIf (signOf (s.dropWhile isSpace)).1 (numeral (baseOf (bodyOf s)).1 (baseOf (bodyOf s)).2)

theorem signOf_blanks {blanks sign : List Byte} {neg : Bool} {d : Byte} (hb : ∀ b ∈ blanks, isSpace b = true)
    (hs : Sign sign neg) (hd : 48 ≤ d) (ds : List Byte) :
    signOf ((blanks ++ (sign ++ d :: ds)).dropWhile isSpace) = (neg, d :: ds) := by
  have hdrop : (blanks ++ (sign ++ d :: ds)).dropWhile isSpace = sign ++ d :: ds := by
    rw [List.dropWhile_append_of_pos hb]
    cases hs with
    | plus => rfl
    | minus => rfl
    | none => exact List.dropWhile_cons_of_neg (by simp [isSpace_of_ge hd])
  rw [hdrop]
  exact signOf_append hs rfl hd

theorem denotes_iff {s : List Byte} {v : Int} : Denotes s v ↔ AllDigits (bodyOf s) ∧ v = valueOf s := by
  constructor
  · rintro ⟨blanks, sign, body, neg, n, rfl, hb, hs, hm, rfl⟩
    have hsign : signOf ((blanks ++ (sign ++ body)).dropWhile isSpace) = (neg, body) := by
      obtain ⟨d, ds, rfl, hd⟩ := hm.head
      exact signOf_blanks hb hs hd ds
    obtain ⟨hall, rfl⟩ := magnitude_iff.mp hm
    rw [bodyOf, valueOf, bodyOf, hsign]
    exact ⟨hall, rfl⟩
  · rintro ⟨hall, rfl⟩
    obtain ⟨sign, hs, hsplit⟩ := signOf_split (s.dropWhile isSpace)
    refine ⟨s.takeWhile isSpace, sign, bodyOf s, _, _, ?_, ?_, hs, magnitude_iff.mpr ⟨hall, rfl⟩, rfl⟩
    · rw [bodyOf, ← hsplit, List.takeWhile_append_dropWhile]
    · intro b hb
      exact List.mem_takeWhile_imp hb

theorem Denotes.unique {s : List Byte} {v v' : Int} (h : Denotes s v) (h' : Denotes s v') : v = v' :=
  (denotes_iff.mp h).2.trans (denotes_iff.mp h').2.symm

/-! ## `strtol` -/

def digitsOf (s : List Byte) : List Byte := (baseOf (bodyOf s)).2.takeWhile (isDigit (baseOf (bodyOf s)).1)

theorem saturated_eq (w : LongWidth) (v : Int) (rest : List Byte) :
    (if v < w.min then ⟨w.min, rest, true, true⟩
      else if w.max < v then ⟨w.max, rest, true, true⟩
      else ⟨v, rest, true, false⟩ : Strtol) =
      ⟨w.clamp v, rest, true, decide (v < w.min ∨ w.max < v)⟩ := by
  unfold LongWidth.clamp
  split
  · rename_i hv; simp [hv]
  · rename_i hv
    split
    · rename_i hv'; simp [hv']
    · rename_i hv'; simp [hv, hv']

theorem strtol_eq (w : LongWidth) (s : List Byte) :
    strtol w s =
      let v := negateIf (signOf (s.dropWhile isSpace)).1 (numeral (baseOf (bodyOf s)).1 (digitsOf s))
      if digitsOf s = [] then ⟨0, s, false, false⟩
      else ⟨w.clamp v, (baseOf (bodyOf s)).2.drop (digitsOf s).length, true, decide (v < w.min ∨ w.max < v)⟩ := by
  simp only [← saturated_eq]
  rfl

theorem suffix_body (s : List Byte) : (baseOf (bodyOf s)).2 <:+ s := by
  have hbase : (baseOf (bodyOf s)).2 <:+ bodyOf s := by
    obtain ⟨x, d, ds, hs, -, hb⟩ | ⟨ds, hs, hb⟩ | ⟨-, hb⟩ := baseOf_cases (bodyOf s)
    · rw [hb, hs]
      exact ⟨[48, x], rfl⟩
    · rw [hb, hs]
    · rw [hb]
  have hbody : bodyOf s <:+ s.dropWhile isSpace := by
    obtain ⟨sign, -, hsplit⟩ := signOf_split (s.dropWhile isSpace)
    exact ⟨sign, hsplit.symm⟩
  exact hbase.trans (hbody.trans (List.dropWhile_suffix _))

theorem strtol_rest_suffix (w : LongWidth) (s : List Byte) : (strtol w s).rest <:+ s := by
  rw [strtol_eq]
  by_cases hds : digitsOf s = []
  · simp [hds]
  · simp only [hds, if_false]
    exact (List.drop_suffix _ _).trans (suffix_body s)

theorem digitsOf_eq_iff {s : List Byte} :
    digitsOf s = (baseOf (bodyOf s)).2 ↔ ∀ b ∈ (baseOf (bodyOf s)).2, isDigit (baseOf (bodyOf s)).1 b = true :=
  List.takeWhile_eq_self_iff

/-- **A denoted integer is read whole**, cut off at the ends of `long`. -/
theorem Denotes.strtol {s : List Byte} {v : Int} (h : Denotes s v) (w : LongWidth) :
    strtol w s = ⟨w.clamp v, [], true, decide (v < w.min ∨ w.max < v)⟩ := by
  obtain ⟨⟨hne, hall⟩, rfl⟩ := denotes_iff.mp h
  have hds := digitsOf_eq_iff.mpr hall
  rw [strtol_eq, hds]
  simp only [hne, if_false, List.drop_length]
  rfl

/-- **What is read whole denotes an integer.** -/
theorem denotes_of_strtol {s : List Byte} {w : LongWidth} (hm : (CSem.strtol w s).matched = true)
    (hr : (CSem.strtol w s).rest = []) : ∃ v, Denotes s v := by
  rw [strtol_eq] at hm hr
  by_cases hds : digitsOf s = []
  · simp [hds] at hm
  · simp only [hds, if_false] at hr
    have hle : (baseOf (bodyOf s)).2.length ≤ (digitsOf s).length := List.drop_eq_nil_iff.mp hr
    have heq : digitsOf s = (baseOf (bodyOf s)).2 := (List.takeWhile_prefix _).eq_of_length_le hle
    exact ⟨valueOf s, denotes_iff.mpr ⟨⟨heq ▸ hds, digitsOf_eq_iff.mp heq⟩, rfl⟩⟩

/-! ## The leading integer -/

/-- `v` is denoted by the longest start of `s` that denotes an integer. -/
def Leads (s : List Byte) (v : Int) : Prop :=
  ∃ u, u <+: s ∧ Denotes u v ∧ ∀ u', u' <+: s → (∃ v', Denotes u' v') → u'.length ≤ u.length

theorem Leads.unique {s : List Byte} {v v' : Int} (h : Leads s v) (h' : Leads s v') : v = v' := by
  obtain ⟨u, hu, hd, hmax⟩ := h
  obtain ⟨u', hu', hd', hmax'⟩ := h'
  have hlen : u.length = u'.length := le_antisymm (hmax' u hu ⟨v, hd⟩) (hmax u' hu' ⟨v', hd'⟩)
  have heq : u = u' := (List.prefix_of_prefix_length_le hu hu' hlen.le).eq_of_length hlen
  subst heq
  exact hd.unique hd'

theorem Denotes.leads {s : List Byte} {v : Int} (h : Denotes s v) : Leads s v :=
  ⟨s, List.prefix_rfl, h, fun _ hu _ => hu.length_le⟩

def restOf (s : List Byte) : List Byte := (baseOf (bodyOf s)).2.dropWhile (isDigit (baseOf (bodyOf s)).1)

theorem magnitude_digits {body : List Byte} (h : (baseOf body).2.takeWhile (isDigit (baseOf body).1) ≠ []) :
    ∃ mag, body = mag ++ (baseOf body).2.dropWhile (isDigit (baseOf body).1) ∧
      Magnitude mag (numeral (baseOf body).1 ((baseOf body).2.takeWhile (isDigit (baseOf body).1))) := by
  have hall : ∀ {base : Nat} {l : List Byte}, ∀ b ∈ l.takeWhile (isDigit base), isDigit base b = true :=
    fun b hb => List.mem_takeWhile_imp hb
  obtain ⟨x, d, ds, rfl, hx, hb⟩ | ⟨ds, rfl, hb⟩ | ⟨h48, hb⟩ := baseOf_cases body
  · rw [hb] at h ⊢
    obtain ⟨d', ds', hds⟩ := List.exists_cons_of_ne_nil h
    refine ⟨48 :: x :: (d :: ds).takeWhile (isDigit 16), ?_, ?_⟩
    · rw [List.cons_append, List.cons_append, List.takeWhile_append_dropWhile]
    · have hd' := @hall 16 (d :: ds)
      rw [hds] at hd' ⊢
      exact .hexadecimal hx hd'
  · rw [hb]
    refine ⟨48 :: ds.takeWhile (isDigit 8), ?_, ?_⟩
    · rw [List.dropWhile_cons_of_pos rfl, List.cons_append, List.takeWhile_append_dropWhile]
    · rw [List.takeWhile_cons_of_pos rfl]
      exact .octal hall
  · rw [hb] at h ⊢
    obtain ⟨d, ds, hds⟩ := List.exists_cons_of_ne_nil h
    refine ⟨body.takeWhile (isDigit 10), List.takeWhile_append_dropWhile.symm, ?_⟩
    have hd := @hall 10 body
    have hne : d ≠ 48 := by
      rintro rfl
      obtain ⟨t, ht⟩ := List.takeWhile_prefix (l := body) (isDigit 10)
      rw [hds] at ht
      exact h48 (ds ++ t) ht.symm
    rw [hds] at hd ⊢
    exact .decimal hne hd

theorem digits_append {base : Nat} {d : Byte} {ds : List Byte} (hall : ∀ b ∈ d :: ds, isDigit base b = true)
    (t : List Byte) :
    (d :: ds ++ t).takeWhile (isDigit base) ≠ [] ∧ ((d :: ds ++ t).dropWhile (isDigit base)).length ≤ t.length := by
  refine ⟨?_, ?_⟩
  · rw [List.cons_append, List.takeWhile_cons_of_pos (hall d List.mem_cons_self)]
    exact List.cons_ne_nil _ _
  · rw [List.dropWhile_append_of_pos hall]
    exact (List.dropWhile_suffix _).length_le

/-- `strtol` does not stop before the end of a magnitude. -/
theorem Magnitude.read {mag : List Byte} {n : Nat} (h : Magnitude mag n) (t : List Byte) :
    (baseOf (mag ++ t)).2.takeWhile (isDigit (baseOf (mag ++ t)).1) ≠ [] ∧
      ((baseOf (mag ++ t)).2.dropWhile (isDigit (baseOf (mag ++ t)).1)).length ≤ t.length := by
  cases h with
  | decimal hd hall =>
    rw [List.cons_append, baseOf_decimal hd]
    exact digits_append hall t
  | @hexadecimal x d ds hx hall =>
    rw [List.cons_append, List.cons_append, List.cons_append, baseOf_hexadecimal hx (hall d List.mem_cons_self)]
    exact digits_append hall t
  | @octal ds hall =>
    obtain ⟨x, d, ds', hs, hx, hb⟩ | ⟨ds', hs, hb⟩ | ⟨h48, -⟩ := baseOf_cases (48 :: ds ++ t)
    · -- the zero is read as the start of a hexadecimal prefix: then `ds` is empty
      rw [hb]
      cases ds with
      | nil =>
        obtain rfl : t = x :: d :: ds' := (List.cons.inj hs).2
        have hd : isDigit 16 d = true := by
          by_contra hd
          simp [baseOf, hd] at hb
        refine ⟨?_, ?_⟩
        · rw [List.takeWhile_cons_of_pos hd]
          exact List.cons_ne_nil _ _
        · exact (List.dropWhile_suffix _).length_le.trans (Nat.le_succ _)
      | cons o ds =>
        obtain rfl : o = x := (List.cons.inj (List.cons.inj hs).2).1
        rcases hx with rfl | rfl
        · exact absurd (hall _ List.mem_cons_self) (by decide)
        · exact absurd (hall _ List.mem_cons_self) (by decide)
    · rw [hb]
      rw [List.cons_append] at hs
      rw [← hs]
      exact digits_append (List.forall_mem_cons.mpr ⟨rfl, hall⟩) t
    · exact absurd rfl (h48 (ds ++ t))

theorem bodyOf_append {u : List Byte} {v : Int} (h : Denotes u v) (t : List Byte) :
    bodyOf (u ++ t) = bodyOf u ++ t ∧ ∃ n, Magnitude (bodyOf u) n := by
  obtain ⟨blanks, sign, body, neg, n, rfl, hb, hs, hm, rfl⟩ := h
  obtain ⟨d, ds, rfl, hd⟩ := hm.head
  have hbody : ∀ r : List Byte, bodyOf (blanks ++ (sign ++ d :: (ds ++ r))) = d :: (ds ++ r) := by
    intro r
    rw [bodyOf, signOf_blanks hb hs hd]
  have hu := hbody []
  rw [List.append_nil] at hu
  refine ⟨?_, n, by rw [hu]; exact hm⟩
  rw [hu, List.append_assoc, List.append_assoc]
  exact hbody t

theorem Denotes.read {u : List Byte} {v : Int} (h : Denotes u v) (t : List Byte) :
    digitsOf (u ++ t) ≠ [] ∧ (restOf (u ++ t)).length ≤ t.length := by
  obtain ⟨hbody, n, hm⟩ := bodyOf_append h t
  rw [digitsOf, restOf, hbody]
  exact hm.read t

/-- **What `strtol` reads is the leading integer.** -/
theorem leads_of_digits {s : List Byte} (h : digitsOf s ≠ []) :
    Leads s (negateIf (signOf (s.dropWhile isSpace)).1 (numeral (baseOf (bodyOf s)).1 (digitsOf s))) := by
  obtain ⟨sign, hs, hsplit⟩ := signOf_split (s.dropWhile isSpace)
  obtain ⟨mag, hbody, hm⟩ := magnitude_digits h
  have hsplit : s = s.takeWhile isSpace ++ (sign ++ mag) ++ restOf s := by
    conv_lhs => rw [← List.takeWhile_append_dropWhile (p := isSpace) (l := s), hsplit]
    rw [List.append_assoc, List.append_assoc, restOf, ← hbody]
    rfl
  refine ⟨s.takeWhile isSpace ++ (sign ++ mag), ⟨_, hsplit.symm⟩, ?_, ?_⟩
  · exact ⟨_, sign, mag, _, _, rfl, fun b hb => List.mem_takeWhile_imp hb, hs, hm, rfl⟩
  · rintro u' ⟨t, rfl⟩ ⟨v', hv'⟩
    have hrest := (hv'.read t).2
    have hlen := congrArg List.length hsplit
    simp only [List.length_append] at hlen ⊢
    omega

theorem strtol_of_leads {s : List Byte} {v : Int} (h : Leads s v) (w : LongWidth) : (strtol w s).value = w.clamp v := by
  have hds : digitsOf s ≠ [] := by
    obtain ⟨u, ⟨t, rfl⟩, hd, -⟩ := h
    exact (hd.read t).1
  rw [strtol_eq, h.unique (leads_of_digits hds)]
  simp [hds]

theorem strtol_of_not_leads {s : List Byte} (h : ¬ ∃ v, Leads s v) (w : LongWidth) : (strtol w s).value = 0 := by
  have hds : digitsOf s = [] := by
    by_contra hds
    exact h ⟨_, leads_of_digits hds⟩
  rw [strtol_eq]
  simp [hds]

end CSem
