import Mqrestt.UnitsSound

/-!
# What `rest_post` does with its buffer and its results

The URL goes through a buffer of fixed size that is filled by bounded copies. Whether the
accesses stay inside the buffer, whether the URL arrives whole, and whether the result tells
what became of the message are three questions with three different answers.
-/

namespace Mqrestt
open CSem Mqtt

section
variable (w : LongWidth) (config : Mqtt2RestUnitConfiguration) (url : List Byte)

/-! ## The length of the URL -/

theorem slashed_eq_zero {m : Mem} {len i : Int} (h : m i = 0) (hi : i ≠ len) : slashed m len i = 0 := by
  unfold slashed
  split
  · simp only [applyStores_cons, applyStores_nil]
    by_cases h1 : i = len + 1
    · rw [h1, Function.update_self]
    · rw [Function.update_of_ne h1, Function.update_of_ne hi, h]
  · exact h

theorem length_urlString_le {env : CurlEnv} {k : Nat} (h : baseMem config env k = 0) :
    (urlString w config url env).length ≤ k + ((cstr url).take (catSize w config)).length := by
  have hbase : (scan (baseMem config env) env.mapped 0).length ≤ k := length_scan_le (by rwa [zero_add])
  have hend : finalMem w config url env _ = 0 := strncat_terminated _ _ _ _ _
  rw [add_assoc, ← Nat.cast_add] at hend
  calc (urlString w config url env).length
      ≤ (scan (baseMem config env) env.mapped 0).length + ((cstr url).take (catSize w config)).length :=
        length_scan_le hend
    _ ≤ k + ((cstr url).take (catSize w config)).length := Nat.add_le_add_right hbase _

theorem le_length_urlString {env : CurlEnv} {k : Nat} (hk : k ≤ env.mapped)
    (h : ∀ i : Int, 0 ≤ i → i < k → baseMem config env i ≠ 0) : k ≤ (urlString w config url env).length := by
  have hbase : k ≤ (scan (baseMem config env) env.mapped 0).length :=
    le_length_scan (fun i h₁ h₂ => h i h₁ (by omega)) hk
  rw [urlString_eq_scan]
  apply le_length_scan _ hk
  intro i h₁ h₂
  rw [finalMem, catStores, strncat, storesAt_outside _ (Or.inl (by omega))]
  exact h i h₁ (by omega)

/-! ## The whole URL -/

def PostsWhole : Prop :=
  ∀ payload env, ∀ p ∈ performs (restPost w config url payload env).out,
    p.1.url = joinSlash config.webserviceBaseurl.bytes (cstr url)

/-- The buffer holds the URL. A base URL with its own slash needs the terminator that `strncpy` pads
with; behind an appended slash the last terminator goes one past the end unnoticed. -/
def HoldsWhole (base suffix : List Byte) : Prop :=
  if base.getLast? = some slash then base.length ≤ urlMaxSize - 2 ∧ base.length + suffix.length ≤ urlMaxSize - 1
  else base.length + 1 + suffix.length ≤ urlMaxSize

instance (base suffix : List Byte) : Decidable (HoldsWhole base suffix) :=
  inferInstanceAs (Decidable (ite _ _ _))

theorem postRequest_url (u : List Byte) (payload : Option (List Byte)) : (postRequest u payload).url = u := by
  cases payload <;> rfl

theorem postsWhole_iff_urlString : PostsWhole w config url ↔
    ∀ env, urlString w config url env = joinSlash config.webserviceBaseurl.bytes (cstr url) := by
  unfold PostsWhole
  constructor
  · intro h env
    have hp := h none { env with init := true }
    rw [performs_restPost, if_pos rfl] at hp
    exact hp _ List.mem_cons_self
  · intro h payload env p hp
    rw [performs_restPost] at hp
    split at hp
    · rw [List.mem_singleton.mp hp, postRequest_url, h]
    · cases hp

/-! ## Base URLs that fill the buffer -/

def copiedMem (env : CurlEnv) : Mem :=
  applyStores env.stack (strncpy 0 config.webserviceBaseurl.bytes (urlMaxSize - 1))

theorem baseMem_eq (env : CurlEnv) :
    baseMem config env = slashed (copiedMem config env) (toCInt config.webserviceBaseurl.bytes.length) := rfl

theorem copiedMem_outside {env : CurlEnv} {i : Int} (h : (urlMaxSize - 1 : Nat) ≤ i) :
    copiedMem config env i = env.stack i := by
  apply applyStores_of_notMem
  rw [mem_strncpy]
  omega

theorem spells_copiedMem (env : CurlEnv) :
    Spells (copiedMem config env) 0 (config.webserviceBaseurl.bytes.take (urlMaxSize - 1)) := by
  have hs := spells_strncpy_take config.webserviceBaseurl.bytes (urlMaxSize - 1) env.stack 0
  rwa [cstr_eq_self_iff.mpr config.webserviceBaseurl.noNul] at hs

theorem copiedMem_ne_zero {env : CurlEnv} (hb : urlMaxSize - 1 ≤ config.webserviceBaseurl.bytes.length) {i : Int}
    (h₀ : 0 ≤ i) (h : i < (urlMaxSize - 1 : Nat)) : copiedMem config env i ≠ 0 := by
  apply (spells_copiedMem config env).ne_zero
  · exact fun hmem => config.webserviceBaseurl.noNul (List.mem_of_mem_take hmem)
  · exact h₀
  · rw [List.length_take, Nat.min_eq_left hb]
    omega

def filledEnv (b : Byte) : CurlEnv := ⟨true, .ok, fun _ => b, urlMaxSize, le_refl _⟩

theorem urlString_of_long (hb : urlMaxSize ≤ config.webserviceBaseurl.bytes.length) :
    urlString w config url (filledEnv 0) ≠ joinSlash config.webserviceBaseurl.bytes (cstr url) := by
  intro heq
  have hmax : urlMaxSize = 2048 := rfl
  have hlen := congrArg List.length heq
  rw [length_joinSlash] at hlen
  have htake : ((cstr url).take (catSize w config)).length ≤ (cstr url).length := by
    rw [List.length_take]
    exact Nat.min_le_right _ _
  have hzero (i : Int) (hi : 2047 ≤ i) : copiedMem config (filledEnv 0) i = 0 := copiedMem_outside config (by omega)
  by_cases hwrap : toCInt config.webserviceBaseurl.bytes.length = 2047
  -- an overlong length that wraps to 2047
  · have hne : config.webserviceBaseurl.bytes.length ≠ 2048 := by
      intro h
      rw [h] at hwrap
      exact absurd hwrap (by decide)
    have hend : baseMem config (filledEnv 0) (2048 : Nat) = 0 :=
      slashed_eq_zero (hzero _ (by omega)) (by rw [hwrap]; decide)
    have := length_urlString_le w config url hend
    omega
  · have hend : baseMem config (filledEnv 0) (2047 : Nat) = 0 :=
      slashed_eq_zero (hzero _ (by omega)) (fun h => hwrap h.symm)
    have := length_urlString_le w config url hend
    omega

theorem baseMem_of_slash (hb : config.webserviceBaseurl.bytes.length = urlMaxSize - 1)
    (hend : config.webserviceBaseurl.bytes.getLast? = some slash) (env : CurlEnv) :
    baseMem config env = copiedMem config env := by
  have hint : toCInt config.webserviceBaseurl.bytes.length = config.webserviceBaseurl.bytes.length :=
    toCInt_of_small (by omega) (by rw [hb]; decide)
  have hs := spells_copiedMem config env
  rw [List.take_of_length_le hb.le] at hs
  have hne : config.webserviceBaseurl.bytes ≠ [] := by
    intro h
    rw [h] at hend
    cases hend
  have hlast := spells_last hs hne
  rw [List.getLast?_eq_getLast_of_ne_nil hne, Option.some.injEq] at hend
  rw [baseMem_eq, hint, slashed, hlast, hend, if_neg (not_not.mpr rfl)]

/-- A base URL that ends in its slash at the last byte `strncpy` copies has no terminator of its own. -/
theorem urlString_of_tight (hb : config.webserviceBaseurl.bytes.length = urlMaxSize - 1)
    (hend : config.webserviceBaseurl.bytes.getLast? = some slash) :
    ∃ env, urlString w config url env ≠ joinSlash config.webserviceBaseurl.bytes (cstr url) := by
  have hmax : urlMaxSize = 2048 := rfl
  have hint : toCInt config.webserviceBaseurl.bytes.length = config.webserviceBaseurl.bytes.length :=
    toCInt_of_small (by omega) (by omega)
  have hlen : (joinSlash config.webserviceBaseurl.bytes (cstr url)).length = 2047 + (cstr url).length := by
    rw [length_joinSlash, if_pos hend, hb]
    rfl
  by_cases hs : cstr url = []
  -- the string runs on over what the stack holds
  · refine ⟨filledEnv 97, fun heq => ?_⟩
    have hlong : 2048 ≤ (urlString w config url (filledEnv 97)).length := by
      refine le_length_urlString w config url (le_refl 2048) ?_
      intro i h₁ h₂
      rw [baseMem_of_slash config hb hend]
      by_cases hi : i < 2047
      · exact copiedMem_ne_zero config hb.ge h₁ hi
      · rw [copiedMem_outside config (by omega)]
        show (97 : Byte) ≠ 0
        decide
    rw [heq, hlen, hs] at hlong
    exact absurd hlong (by decide)
  -- the size passed to `strncat` is zero
  · refine ⟨filledEnv 0, fun heq => ?_⟩
    have hzero : baseMem config (filledEnv 0) (2047 : Nat) = 0 := by
      rw [baseMem_of_slash config hb hend]
      exact copiedMem_outside config (le_refl _)
    have hcat : catSize w config = 0 := by
      rw [catSize, hint, hb, catSize_eq w (by omega) (by omega)]
      omega
    have hshort := length_urlString_le w config url hzero
    rw [heq, hlen, hcat, List.take_zero, List.length_nil] at hshort
    have := List.length_pos_iff.mpr hs
    omega

end

theorem holdsWhole_iff {base suffix : List Byte} (hb : base.length ≤ urlMaxSize - 1)
    (hend : base.getLast? = some slash → base.length ≤ urlMaxSize - 2) :
    HoldsWhole base suffix ↔ suffix.length ≤ urlMaxSize - 1 - base.length := by
  have hmax : urlMaxSize = 2048 := rfl
  unfold HoldsWhole
  split
  · rename_i h
    have := hend h
    omega
  · omega

theorem urlString_whole_iff (w : LongWidth) {config : Mqtt2RestUnitConfiguration}
    (hne : config.webserviceBaseurl.bytes ≠ []) (url : List Byte)
    (hb : config.webserviceBaseurl.bytes.length ≤ urlMaxSize - 1)
    (hend : config.webserviceBaseurl.bytes.getLast? = some slash →
      config.webserviceBaseurl.bytes.length ≤ urlMaxSize - 2) :
    (∀ env, urlString w config url env = joinSlash config.webserviceBaseurl.bytes (cstr url)) ↔
      HoldsWhole config.webserviceBaseurl.bytes (cstr url) := by
  have hcut (env : CurlEnv) := urlString_cut w url env hne hb hend
  rw [holdsWhole_iff hb hend, ← List.take_eq_self_iff, ← (joinSlash_injective _).eq_iff]
  constructor
  · intro h
    exact (hcut (filledEnv 0)).symm.trans (h _)
  · intro h env
    exact (hcut env).trans h

theorem postsWhole_iff_holdsWhole (w : LongWidth) {config : Mqtt2RestUnitConfiguration}
    (hne : config.webserviceBaseurl.bytes ≠ []) (url : List Byte) :
    PostsWhole w config url ↔ HoldsWhole config.webserviceBaseurl.bytes (cstr url) := by
  have hmax : urlMaxSize = 2048 := rfl
  rw [postsWhole_iff_urlString]
  by_cases hlong : urlMaxSize ≤ config.webserviceBaseurl.bytes.length
  · refine iff_of_false (fun h => urlString_of_long w config url hlong (h _)) ?_
    unfold HoldsWhole
    split <;> omega
  by_cases hend : config.webserviceBaseurl.bytes.getLast? = some slash
  · by_cases htight : config.webserviceBaseurl.bytes.length = urlMaxSize - 1
    · obtain ⟨env, henv⟩ := urlString_of_tight w config url htight hend
      refine iff_of_false (fun h => henv (h env)) ?_
      rw [HoldsWhole, if_pos hend]
      omega
    · exact urlString_whole_iff w hne url (by omega) fun _ => by omega
  · exact urlString_whole_iff w hne url (by omega) fun h => absurd h hend

/-- **A URL arrives whole exactly if the buffer holds it**, and then different suffixes have
different URLs. A store outside the buffer, should there be one, is taken to do no harm. -/
theorem postsWhole_iff (w : LongWidth) {config : Mqtt2RestUnitConfiguration}
    (hne : config.webserviceBaseurl.bytes ≠ []) (url : List Byte) :
    (PostsWhole w config url ↔ HoldsWhole config.webserviceBaseurl.bytes (cstr url)) ∧
    ∀ url', cstr url' ≠ cstr url → HoldsWhole config.webserviceBaseurl.bytes (cstr url) →
      HoldsWhole config.webserviceBaseurl.bytes (cstr url') → ∀ payload payload' env env',
      ∀ p ∈ performs (restPost w config url payload env).out,
      ∀ p' ∈ performs (restPost w config url' payload' env').out, p.1.url ≠ p'.1.url := by
  refine ⟨postsWhole_iff_holdsWhole w hne url, ?_⟩
  intro url' hdiff hfits hfits' payload payload' env env' p hp p' hp' heq
  rw [(postsWhole_iff_holdsWhole w hne url).mpr hfits _ _ p hp,
    (postsWhole_iff_holdsWhole w hne url').mpr hfits' _ _ p' hp'] at heq
  exact hdiff (joinSlash_injective _ heq).symm

theorem postsWhole_lamp : PostsWhole .long64 sampleMqtt2Rest (bytes "lamp") :=
  (postsWhole_iff .long64 (by decide) (bytes "lamp")).1.mpr (by decide)

def longSuffix (b : Byte) : List Byte := List.replicate urlMaxSize 97 ++ [b]

theorem cstr_longSuffix {b : Byte} (hb : b ≠ 0) : cstr (longSuffix b) = longSuffix b := by
  rw [cstr_eq_self_iff, longSuffix, List.mem_append, List.mem_replicate, List.mem_singleton]
  rintro (⟨-, h⟩ | h)
  · exact absurd h (by decide)
  · exact hb h.symm

/-- A base URL with its own slash, so that no store leaves the buffer whatever the suffix is. -/
def slashBase : Mqtt2RestUnitConfiguration :=
  { sampleMqtt2Rest with webserviceBaseurl := ⟨bytes "http://localhost:8000/api/", by decide⟩ }

theorem urlString_longSuffix {b : Byte} (hb : b ≠ 0) (env : CurlEnv) :
    urlString .long64 slashBase (longSuffix b) env =
      joinSlash slashBase.webserviceBaseurl.bytes
        (List.replicate (urlMaxSize - 1 - slashBase.webserviceBaseurl.bytes.length) 97) := by
  have hmax : urlMaxSize = 2048 := rfl
  rw [urlString_cut .long64 (longSuffix b) env (by decide) (by decide) (by decide), cstr_longSuffix hb, longSuffix,
    List.take_append_of_le_length, List.take_replicate, Nat.min_eq_left (by omega)]
  rw [List.length_replicate]
  omega

/-- Two topics that differ only behind the part that fits are posted to one URL. -/
theorem not_postsWhole_longSuffix :
    ¬ PostsWhole .long64 slashBase (longSuffix 98) ∧ longSuffix 98 ≠ longSuffix 99 ∧
    ∃ p p', performs (restPost .long64 slashBase (longSuffix 98) none (filledEnv 0)).out = [p] ∧
      performs (restPost .long64 slashBase (longSuffix 99) none (filledEnv 0)).out = [p'] ∧
      p.1.url = p'.1.url := by
  refine ⟨?_, ?_, ?_⟩
  · rw [postsWhole_iff_holdsWhole .long64 (by decide), cstr_longSuffix (by decide), HoldsWhole, if_pos (by decide),
      longSuffix, List.length_append, List.length_replicate]
    decide
  · intro h
    exact absurd (List.append_cancel_left h) (by decide)
  · rw [performs_restPost, performs_restPost, urlString_longSuffix (by decide), urlString_longSuffix (by decide)]
    exact ⟨_, _, rfl, rfl, rfl⟩

/-! ## Inside the buffer -/

section
variable (w : LongWidth) (config : Mqtt2RestUnitConfiguration) (url : List Byte)

def baseLen : Int := toCInt config.webserviceBaseurl.bytes.length

structure StaysInside : Prop where
  accesses : ∀ payload env, ∀ i ∈ accesses .fullUrl (restPost w config url payload env).out, 0 ≤ i ∧ i < urlMaxSize
  size : (toSizeT w (toCInt (urlMaxSize - baseLen config - 1)) : Int) = urlMaxSize - baseLen config - 1
  terminated : ∀ env, ∃ m, (fullUrl w config url env).res = .ok m ∧ ∃ i : Int, 0 ≤ i ∧ i < urlMaxSize ∧ m i = 0

/-- What keeps the accesses inside. With a slash at the end the terminator of `strncpy` has to be
there; without, both the slash and all of the suffix need room. -/
def FitsBuffer (base suffix : List Byte) : Prop :=
  let len := toCInt base.length
  1 ≤ len ∧ if base[(len - 1).toNat]? = some slash then base.length ≤ urlMaxSize - 2
    else len + 1 + suffix.length ≤ urlMaxSize - 1

instance (base suffix : List Byte) : Decidable (FitsBuffer base suffix) :=
  inferInstanceAs (Decidable (_ ∧ ite _ _ _))

theorem fits_of_joinSlash {base suffix : List Byte} (hne : base ≠ []) (hb : base.length ≤ urlMaxSize - 2)
    (hj : (joinSlash base suffix).length ≤ urlMaxSize - 1) : FitsBuffer base suffix := by
  have hmax : urlMaxSize = 2048 := rfl
  have hpos := List.length_pos_iff.mpr hne
  have hlen : toCInt base.length = base.length := toCInt_of_small (by omega) (by omega)
  have hlast : base[((base.length : Int) - 1).toNat]? = base.getLast? := by
    rw [List.getLast?_eq_getElem?, show ((base.length : Int) - 1).toNat = base.length - 1 by omega]
  unfold FitsBuffer
  simp only [hlen, hlast]
  unfold joinSlash at hj
  refine ⟨by omega, ?_⟩
  split
  · exact hb
  · rename_i hslash
    rw [if_neg hslash, List.length_append, List.length_cons] at hj
    omega

theorem accesses_appendSlash (m : Mem) (len : Int) : accesses .fullUrl (appendSlash m len).out =
    (len - 1) :: if m (len - 1) ≠ slash then [len, len + 1] else [] := by
  unfold appendSlash
  by_cases h : m (len - 1) ≠ slash
  · simp [h, debug]
  · simp [h]

theorem accesses_fullUrl (env : CurlEnv) : accesses .fullUrl (fullUrl w config url env).out =
    (strncpy 0 config.webserviceBaseurl.bytes (urlMaxSize - 1)).map Prod.fst ++
      ((baseLen config - 1) ::
        (if copiedMem config env (baseLen config - 1) ≠ slash then [baseLen config, baseLen config + 1] else []) ++
        (scanReads (baseMem config env) env.mapped 0 ++ (catStores w config url env).map Prod.fst)) := by
  unfold fullUrl
  simp only [Proc.emits_bind, Proc.bind_of_ok (appendSlash_res _ _), accesses_append, accesses_writes, accesses_reads,
    accesses_appendSlash, Proc.pure_out, List.append_nil]
  rfl

theorem accesses_restPost (payload : Option (List Byte)) (env : CurlEnv) :
    accesses .fullUrl (restPost w config url payload env).out =
      accesses .fullUrl (fullUrl w config url env).out := by
  rw [restPost_eq, accesses_log, accesses_append, accesses_log]
  unfold performed
  by_cases hi : env.init = true
  · by_cases hp : env.perform = .ok
    · simp [hi, hp]
    · simp [hi, hp]
  · simp [hi]

def catEnd (env : CurlEnv) : Nat :=
  (scan (baseMem config env) env.mapped 0).length + ((cstr url).take (catSize w config)).length

theorem inside_iff (env : CurlEnv) :
    (∀ i ∈ accesses .fullUrl (fullUrl w config url env).out, 0 ≤ i ∧ i < urlMaxSize) ↔
      (1 ≤ baseLen config ∧ baseLen config ≤ urlMaxSize) ∧
      (copiedMem config env (baseLen config - 1) ≠ slash → baseLen config ≤ urlMaxSize - 2) ∧
      catEnd w config url env < urlMaxSize := by
  have hmax : urlMaxSize = 2048 := rfl
  rw [accesses_fullUrl]
  simp only [List.mem_append, List.mem_cons, mem_strncpy, mem_scanReads, catStores, mem_strncat, catEnd]
  constructor
  · intro h
    have hread := h (baseLen config - 1) (Or.inr (Or.inl (Or.inl rfl)))
    have hcat := h (catEnd w config url env) (by right; right; right; unfold catEnd; omega)
    refine ⟨by omega, fun hne => ?_, by unfold catEnd at hcat; omega⟩
    have hterm := h (baseLen config + 1) (Or.inr (Or.inl (Or.inr ?_)))
    · omega
    · rw [if_pos hne]
      exact List.mem_cons_of_mem _ List.mem_cons_self
  · rintro ⟨hlen, hslash, hcat⟩ i (hi | (hi | hi) | hi | hi)
    · omega
    · omega
    · by_cases hne : copiedMem config env (baseLen config - 1) ≠ slash
      · have := hslash hne
        rw [if_pos hne, List.mem_cons, List.mem_singleton] at hi
        omega
      · rw [if_neg hne] at hi
        cases hi
    · omega
    · omega

end

/-! ## Where the terminator of the base URL stands -/

theorem length_scan_slashed {m : Mem} {base : List Byte} {n : Nat} (k fuel : Nat) (hs : Spells m 0 (base.take n))
    (h0 : 0 ∉ base) (hkn : k ≤ n) (hkb : k ≤ base.length) (hne : m (k - 1) ≠ slash) (hfuel : k + 1 ≤ fuel) :
    (scan (slashed m k) fuel 0).length = k + 1 := by
  have hlen : (base.take k).length = k := by rw [List.length_take, Nat.min_eq_left hkb]
  have htake : Spells m 0 (base.take k) := by
    rw [← List.take_append_drop k (base.take n), List.take_take, Nat.min_eq_left hkn, spells_append] at hs
    exact hs.1
  have hend := spells_slashed_of_ne htake (by rwa [hlen])
  have h0' : 0 ∉ base.take k ++ [slash] := by
    rw [List.mem_append, List.mem_singleton]
    rintro (h | h)
    · exact h0 (List.mem_of_mem_take h)
    · exact absurd h (by decide)
  have hall : (base.take k ++ [slash]).length = k + 1 := by rw [List.length_append, hlen, List.length_singleton]
  rw [hlen] at hend
  rw [scan_of_spells hend h0' (by rwa [hall]), hall]

section
variable (w : LongWidth) {config : Mqtt2RestUnitConfiguration} (url : List Byte)

theorem copiedMem_at (h₁ : 1 ≤ baseLen config) (h₂ : baseLen config ≤ urlMaxSize - 1) (env : CurlEnv) :
    config.webserviceBaseurl.bytes[(baseLen config - 1).toNat]? = some (copiedMem config env (baseLen config - 1)) := by
  have hmax : urlMaxSize = 2048 := rfl
  have hle : baseLen config ≤ config.webserviceBaseurl.bytes.length := toCInt_le _
  have hk : (baseLen config - 1).toNat < (config.webserviceBaseurl.bytes.take (urlMaxSize - 1)).length := by
    rw [List.length_take]
    omega
  have hget := (spells_copiedMem config env).getElem? hk
  rwa [List.getElem?_take_of_lt (by omega), zero_add, Int.toNat_of_nonneg (by omega)] at hget

theorem scan_of_ne (h₁ : 1 ≤ baseLen config) (h₂ : baseLen config ≤ urlMaxSize - 2) {env : CurlEnv}
    (hne : copiedMem config env (baseLen config - 1) ≠ slash) :
    ((scan (baseMem config env) env.mapped 0).length : Int) = baseLen config + 1 := by
  have hmax : urlMaxSize = 2048 := rfl
  have hle : baseLen config ≤ config.webserviceBaseurl.bytes.length := toCInt_le _
  have hcov := env.covers
  have hk : ((baseLen config).toNat : Int) = baseLen config := Int.toNat_of_nonneg (by omega)
  have hlen := length_scan_slashed (baseLen config).toNat env.mapped (spells_copiedMem config env)
    config.webserviceBaseurl.noNul (by omega) (by omega) (by rwa [hk]) (by omega)
  rw [hk] at hlen
  rw [baseMem_eq, ← baseLen, hlen]
  omega

theorem scan_of_slash (hb : config.webserviceBaseurl.bytes.length ≤ urlMaxSize - 2)
    (hend : config.webserviceBaseurl.bytes.getLast? = some slash) (env : CurlEnv) :
    (scan (baseMem config env) env.mapped 0).length = config.webserviceBaseurl.bytes.length := by
  have hmax : urlMaxSize = 2048 := rfl
  have hcov := env.covers
  have hne : config.webserviceBaseurl.bytes ≠ [] := by
    intro h
    rw [h] at hend
    cases hend
  have hs := spells_baseMem env hne (by omega) fun _ => hb
  rw [joinSlash, if_pos hend, List.append_nil] at hs
  rw [scan_of_spells hs config.webserviceBaseurl.noNul (by omega)]

theorem catSize_cast (h₁ : 1 ≤ baseLen config) (h₂ : baseLen config ≤ urlMaxSize - 1) :
    (catSize w config : Int) = urlMaxSize - 1 - baseLen config := by
  have hmax : urlMaxSize = 2048 := rfl
  rw [catSize, ← baseLen, catSize_eq w (by omega) h₂]
  omega

theorem inside_of_fits (h : FitsBuffer config.webserviceBaseurl.bytes (cstr url)) (env : CurlEnv) :
    (1 ≤ baseLen config ∧ baseLen config ≤ urlMaxSize - 1) ∧
      (copiedMem config env (baseLen config - 1) ≠ slash → baseLen config ≤ urlMaxSize - 2) ∧
      catEnd w config url env < urlMaxSize := by
  have hmax : urlMaxSize = 2048 := rfl
  obtain ⟨h₁, hroom⟩ := h
  change 1 ≤ baseLen config at h₁
  rw [← baseLen] at hroom
  split at hroom
  · rename_i hslash
    have hlen : baseLen config = config.webserviceBaseurl.bytes.length := toCInt_of_small (by omega) (by omega)
    have hat := copiedMem_at h₁ (by omega) env
    rw [hslash, Option.some.injEq] at hat
    have hidx : (baseLen config - 1).toNat = config.webserviceBaseurl.bytes.length - 1 := by omega
    have hend : config.webserviceBaseurl.bytes.getLast? = some slash := by
      rw [List.getLast?_eq_getElem?, ← hidx, hslash]
    have hsize := catSize_cast w h₁ (by omega)
    refine ⟨by omega, fun hne => absurd hat.symm hne, ?_⟩
    rw [catEnd, scan_of_slash hroom hend, List.length_take]
    omega
  · rename_i hslash
    have hat := copiedMem_at h₁ (by omega) env
    have hne : copiedMem config env (baseLen config - 1) ≠ slash := fun e => hslash (by rw [hat, e])
    have hscan := scan_of_ne h₁ (by omega) hne
    refine ⟨by omega, fun _ => by omega, ?_⟩
    rw [catEnd, List.length_take]
    omega

theorem fits_of_inside (h₁ : 1 ≤ baseLen config) (h₂ : baseLen config ≤ urlMaxSize)
    (hslash : copiedMem config (filledEnv 97) (baseLen config - 1) ≠ slash → baseLen config ≤ urlMaxSize - 2)
    (hcat : catEnd w config url (filledEnv 97) < urlMaxSize) :
    FitsBuffer config.webserviceBaseurl.bytes (cstr url) := by
  have hmax : urlMaxSize = 2048 := rfl
  have hlt : baseLen config ≤ urlMaxSize - 1 := by
    by_contra hge
    have hout : copiedMem config (filledEnv 97) (baseLen config - 1) = 97 := copiedMem_outside config (by omega)
    have := hslash (by rw [hout]; decide)
    omega
  have hat := copiedMem_at h₁ hlt (filledEnv 97)
  refine ⟨h₁, ?_⟩
  rw [← baseLen, hat]
  split
  · rename_i hend
    rw [Option.some.injEq] at hend
    by_contra hlong
    have hbase : baseMem config (filledEnv 97) = copiedMem config (filledEnv 97) := by
      rw [baseMem_eq, ← baseLen, slashed, if_neg (not_not.mpr hend)]
    have hscan : urlMaxSize ≤ (scan (baseMem config (filledEnv 97)) urlMaxSize 0).length := by
      refine le_length_scan (fun i hi₁ hi₂ => ?_) (le_refl _)
      rw [hbase]
      by_cases hi : i < 2047
      · exact copiedMem_ne_zero config (by omega) hi₁ hi
      · rw [copiedMem_outside config (by omega)]
        show (97 : Byte) ≠ 0
        decide
    unfold catEnd at hcat
    change (scan _ urlMaxSize 0).length + _ < _ at hcat
    omega
  · rename_i hne
    rw [Option.some.injEq] at hne
    have hle := hslash hne
    have hscan := scan_of_ne h₁ hle hne
    have hsize := catSize_cast w h₁ hlt
    rw [catEnd, List.length_take] at hcat
    omega

theorem StaysInside.fits (h : StaysInside w config url) : FitsBuffer config.webserviceBaseurl.bytes (cstr url) := by
  have hacc := h.accesses none (filledEnv 97)
  rw [accesses_restPost, inside_iff] at hacc
  obtain ⟨⟨h₁, h₂⟩, hslash, hcat⟩ := hacc
  exact fits_of_inside w url h₁ h₂ hslash hcat

theorem staysInside_of_fits (h : FitsBuffer config.webserviceBaseurl.bytes (cstr url)) : StaysInside w config url := by
  have hmax : urlMaxSize = 2048 := rfl
  have hin := inside_of_fits w url h
  obtain ⟨⟨h₁, h₂⟩, -⟩ := hin (filledEnv 0)
  refine ⟨fun payload env => ?_, ?_, fun env => ⟨_, fullUrl_res w config url env, catEnd w config url env, ?_⟩⟩
  · rw [accesses_restPost, inside_iff]
    obtain ⟨-, hslash, hcat⟩ := hin env
    exact ⟨⟨h₁, by omega⟩, hslash, hcat⟩
  · have hsize := catSize_cast w h₁ h₂
    rw [catSize, ← baseLen] at hsize
    omega
  · have hterm := strncat_terminated (baseMem config env) env.mapped 0 url (catSize w config)
    obtain ⟨-, -, hcat⟩ := hin env
    refine ⟨by omega, by omega, ?_⟩
    rw [zero_add, ← Nat.cast_add] at hterm
    exact hterm

variable (config)

/-- **The accesses stay inside the buffer exactly if the base URL and its suffix fit.** -/
theorem staysInside_iff : StaysInside w config url ↔ FitsBuffer config.webserviceBaseurl.bytes (cstr url) :=
  ⟨StaysInside.fits w url, staysInside_of_fits w url⟩

end

theorem not_staysInside_empty_longSuffix :
    ¬ StaysInside .long64 { sampleMqtt2Rest with webserviceBaseurl := emptyStr } (bytes "lamp") ∧
    ¬ StaysInside .long64 sampleMqtt2Rest (longSuffix 98) := by
  constructor
  · intro h
    exact absurd (StaysInside.fits _ _ h) (by decide)
  · intro h
    have hfits := StaysInside.fits _ _ h
    rw [cstr_longSuffix (by decide)] at hfits
    obtain ⟨-, hroom⟩ := hfits
    rw [if_neg (by decide), longSuffix, List.length_append, List.length_replicate] at hroom
    exact absurd hroom (by decide)

/-! ## Messages in order -/

theorem postRequest_payload (url : List Byte) (msg : MosqMessage) :
    postRequest url msg.payloadPtr = ⟨"POST", url, cstr msg.payload⟩ := by
  unfold MosqMessage.payloadPtr
  by_cases hp : msg.payload = []
  · rw [if_pos hp, hp]
    rfl
  · rw [if_neg hp]
    have hbody : cstr (msg.payload ++ 0 :: msg.beyond) = cstr msg.payload := by
      by_cases h0 : 0 ∈ msg.payload
      · exact cstr_append_of_nul h0 _
      · rw [cstr_append_nul h0, cstr_eq_self_iff.mpr h0]
    show HttpRequest.mk "POST" url (cstr (msg.payload ++ 0 :: msg.beyond)) = _
    rw [hbody]

section
variable (w : LongWidth) (u : Mqtt2RestUnitConfiguration)

def translated (x : MosqMessage × CurlEnv) : HttpRequest :=
  postRequest (urlString w u (urlOf u.mqttTopic x.1.topic) x.2) x.1.payloadPtr

def postOf (x : MosqMessage × CurlEnv) : Run Int := restPost w u (urlOf u.mqttTopic x.1.topic) x.1.payloadPtr x.2

def receivedLog (x : MosqMessage × CurlEnv) : List Effect :=
  .log .info "Got MQTT msg on topic %s" [.str (some x.1.topic.str.bytes)] ::
    match x.1.payloadPtr with
    | none => []
    | some m => [.log .debug "Payload: %s" [.str (some (cstr m))]]

def deliverAll (config : Configuration) (ms : List (MosqMessage × CurlEnv)) : Run Unit :=
  ms.forM fun x => mqttCbMsg w (mqtt2restClient u config) x.1 x.2

def Reported (x : MosqMessage × CurlEnv) : Prop :=
  (∃ req, performs (postOf w u x).out = [(req, .ok)] ∧ (postOf w u x).res = .ok 0) ∨
  ((postOf w u x).res = .ok (-1) ∧ ∃ f as, Effect.log .error f as ∈ (postOf w u x).out)

/-- A store outside `full_url` can end the process before the POST, so that each message also has to
stay inside it. -/
structure ForwardsInOrder (config : Configuration) (ms : List (MosqMessage × CurlEnv)) : Prop where
  inside : ∀ x ∈ ms, StaysInside w u (urlOf u.mqttTopic x.1.topic)
  returns : (deliverAll w u config ms).res = .ok ()
  -- each message has the effects it has alone
  unaffected : (deliverAll w u config ms).out = ms.flatMap fun x => receivedLog x ++ (postOf w u x).out
  attempts : performs (deliverAll w u config ms).out =
    (ms.filter fun x => x.2.init).map fun x => (translated w u x, x.2.perform)
  translation : ∀ x ∈ ms, u.webserviceBaseurl.bytes ≠ [] →
    HoldsWhole u.webserviceBaseurl.bytes (cstr (urlOf u.mqttTopic x.1.topic)) →
    translated w u x = ⟨"POST", joinSlash u.webserviceBaseurl.bytes (cstr (urlOf u.mqttTopic x.1.topic)),
      cstr x.1.payload⟩
  reported : ∀ x ∈ ms, Reported w u x

theorem onMqttMsg_eq (x : MosqMessage × CurlEnv) :
    onMqttMsg w x.1.topic x.1.payloadPtr (some u) x.2 = ⟨receivedLog x ++ (postOf w u x).out, .ok ()⟩ := by
  have hr : (postOf w u x).res = .ok (postResult x.2) := by rw [postOf, restPost_eq]
  unfold onMqttMsg receivedLog
  cases hp : x.1.payloadPtr with
  | none =>
    rw [postOf, hp] at hr
    simp [info, Proc.bind_of_ok hr, postOf, hp]
  | some m =>
    rw [postOf, hp] at hr
    simp [info, debug, Proc.bind_of_ok hr, postOf, hp]

theorem deliverAll_eq (config : Configuration) (ms : List (MosqMessage × CurlEnv)) :
    deliverAll w u config ms = ⟨ms.flatMap fun x => receivedLog x ++ (postOf w u x).out, .ok ()⟩ := by
  have hx (x : MosqMessage × CurlEnv) : mqttCbMsg w (mqtt2restClient u config) x.1 x.2 = _ := onMqttMsg_eq w u x
  unfold deliverAll
  rw [Proc.forM_of_ok (fun x => by rw [hx])]
  simp only [hx]

theorem performs_received (x : MosqMessage × CurlEnv) : performs (receivedLog x ++ (postOf w u x).out) =
    if x.2.init then [(translated w u x, x.2.perform)] else [] := by
  have hlog : performs (receivedLog x) = [] := by
    unfold receivedLog
    split <;> rfl
  rw [performs_append, hlog, List.nil_append, postOf, performs_restPost]
  rfl

theorem performs_received_all (ms : List (MosqMessage × CurlEnv)) :
    performs (ms.flatMap fun x => receivedLog x ++ (postOf w u x).out) =
      (ms.filter fun x => x.2.init).map fun x => (translated w u x, x.2.perform) := by
  induction ms with
  | nil => rfl
  | cons x ms ih =>
    rw [List.flatMap_cons, performs_append, performs_received, ih, List.filter_cons]
    split
    · rfl
    · rfl

theorem reported_iff (x : MosqMessage × CurlEnv) : Reported w u x ↔ x.2.init = true := by
  have hres : (postOf w u x).res = .ok (postResult x.2) := by rw [postOf, restPost_eq]
  have hperf : performs (postOf w u x).out = if x.2.init then [(translated w u x, x.2.perform)] else [] :=
    performs_restPost w u _ x.2 _
  unfold Reported
  rw [hres, hperf, postResult]
  by_cases hi : x.2.init = true
  · refine iff_of_true ?_ hi
    by_cases hp : x.2.perform = .ok
    · left
      exact ⟨translated w u x, by rw [if_pos hi, hp], by rw [if_neg (fun h => h.2 hp)]⟩
    · right
      refine ⟨by rw [if_pos ⟨hi, hp⟩], "curl_easy_perform() failed: %s", [.curlStrerror x.2.perform], ?_⟩
      rw [postOf, restPost_eq, performed, if_pos hi, if_pos hp]
      exact List.mem_cons_of_mem _ (List.mem_append_right _ (List.mem_cons_of_mem _ (List.mem_cons_of_mem _
        List.mem_cons_self)))
  -- no handle: nothing is sent, and the result is that of a success
  · refine iff_of_false ?_ hi
    rintro (⟨_, h, _⟩ | ⟨h, _⟩)
    · rw [if_neg hi] at h
      cases h
    · rw [if_neg (fun h => hi h.1)] at h
      cases h

/-- **Messages are forwarded in order, once each and with a true result, exactly if there is a handle
for each** and the base URL and its suffix fit the buffer. -/
theorem forwardsInOrder_iff (config : Configuration) (ms : List (MosqMessage × CurlEnv)) :
    ForwardsInOrder w u config ms ↔ ∀ x ∈ ms, x.2.init = true ∧
      FitsBuffer u.webserviceBaseurl.bytes (cstr (urlOf u.mqttTopic x.1.topic)) := by
  constructor
  · intro h x hx
    exact ⟨(reported_iff w u x).mp (h.reported x hx), (h.inside x hx).fits⟩
  · intro h
    refine ⟨fun x hx => staysInside_of_fits w _ (h x hx).2, ?_, ?_, ?_, fun x _ hne hfits => ?_,
      fun x hx => (reported_iff w u x).mpr (h x hx).1⟩
    · rw [deliverAll_eq]
    · rw [deliverAll_eq]
    · rw [deliverAll_eq, performs_received_all]
    · have hwhole := (postsWhole_iff_urlString w u _).mp ((postsWhole_iff_holdsWhole w hne _).mpr hfits)
      rw [translated, postRequest_payload, hwhole]

end

def curlEnv : CurlEnv := ⟨true, .ok, fun _ => 170, urlMaxSize, le_refl _⟩

def messageOf (payload : List Byte) : MosqMessage := ⟨⟨⟨bytes "unit1/lamp", by decide⟩, []⟩, payload, []⟩

def unsent : MosqMessage × CurlEnv := (messageOf (bytes "on"), { curlEnv with init := false })

theorem not_forwardsInOrder_unsent :
    (postOf .long64 sampleMqtt2Rest unsent).res = .ok 0 ∧ performs (postOf .long64 sampleMqtt2Rest unsent).out = [] ∧
      ¬ ForwardsInOrder .long64 sampleMqtt2Rest sampleConfiguration [unsent] := by
  refine ⟨?_, ?_, fun h => ?_⟩
  · rw [postOf, restPost_eq]
    rfl
  · rw [postOf, performs_restPost]
    rfl
  · have := (reported_iff .long64 sampleMqtt2Rest unsent).mp (h.reported unsent List.mem_cons_self)
    exact absurd this (by decide)

end Mqrestt
