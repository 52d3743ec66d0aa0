import Mqrestt.RequestSound

/-!
# Many requests at a time

Seen from outside, a request goes through three phases: nothing has happened, a
part of its body is there, its body is complete. `Tracks` ties the phases of all
requests to the one heap they share: a request that is receiving owns a record and
a buffer that no other such request owns, and what was published for a request is
what its phase says. Every call keeps this, in whatever order the calls come.
-/

namespace Mqrestt
open CSem Mqtt

/-! ## The phases of a request -/

inductive Phase where
  | idle
  | receiving (body : List Byte)
  | finished (body : List Byte)
  deriving DecidableEq

def Phase.next : Phase → List Byte → Phase
  | .idle, _ => .receiving []
  | .receiving b, chunk => if chunk = [] then .finished b else .receiving (b ++ chunk)
  | .finished b, _ => .finished b

def phaseOf (chunks : List (List Byte)) : Phase := chunks.foldl Phase.next .idle

/-- The data of the calls that libmicrohttpd makes for a POST request with this body: none, the
chunks of the body, none. -/
def callSequence (body : List (List Byte)) : List (List Byte) := [] :: body ++ [[]]

def Protocol (chunks : List (List Byte)) : Prop :=
  ∃ body : List (List Byte), (∀ c ∈ body, c ≠ []) ∧ chunks <+: callSequence body

theorem foldl_receiving {body : List (List Byte)} (b : List Byte) (h : ∀ c ∈ body, c ≠ []) :
    body.foldl Phase.next (.receiving b) = .receiving (b ++ body.flatten) := by
  induction body generalizing b with
  | nil => simp
  | cons c body ih =>
    obtain ⟨hc, hbody⟩ := List.forall_mem_cons.mp h
    rw [List.foldl_cons, Phase.next, if_neg hc, ih _ hbody]
    simp

theorem phaseOf_snoc (chunks : List (List Byte)) (chunk : List Byte) :
    phaseOf (chunks ++ [chunk]) = (phaseOf chunks).next chunk :=
  List.foldl_concat _ _ _ _

theorem phaseOf_started {body : List (List Byte)} (h : ∀ c ∈ body, c ≠ []) :
    phaseOf ([] :: body) = .receiving body.flatten := by
  rw [phaseOf, List.foldl_cons]
  exact foldl_receiving [] h

theorem phaseOf_completed {body : List (List Byte)} (h : ∀ c ∈ body, c ≠ []) :
    phaseOf (callSequence body) = .finished body.flatten := by
  rw [callSequence, phaseOf_snoc, phaseOf_started h]
  rfl

def Completed (chunks body : List (List Byte)) : Prop := (∀ c ∈ body, c ≠ []) ∧ chunks = callSequence body

theorem started_cases {chunks body : List (List Byte)} (hne : ∀ c ∈ body, c ≠ []) (h : chunks <+: [] :: body) :
    chunks = [] ∨ ∃ body, (∀ c ∈ body, c ≠ []) ∧ chunks = [] :: body := by
  cases chunks with
  | nil => exact Or.inl rfl
  | cons a chunks =>
    obtain ⟨rfl, hb⟩ := List.cons_prefix_cons.mp h
    exact Or.inr ⟨chunks, fun c hc => hne c (hb.subset hc), rfl⟩

theorem Protocol.cases {chunks : List (List Byte)} (h : Protocol chunks) :
    (chunks = [] ∨ ∃ body, (∀ c ∈ body, c ≠ []) ∧ chunks = [] :: body) ∨ ∃ body, Completed chunks body := by
  obtain ⟨body, hne, hp⟩ := h
  rcases List.prefix_concat_iff.mp hp with heq | hpre
  · exact Or.inr ⟨body, hne, heq⟩
  · exact Or.inl (started_cases hne hpre)

theorem Protocol.mono {as bs : List (List Byte)} (h : as <+: bs) (hb : Protocol bs) : Protocol as := by
  obtain ⟨body, hne, hp⟩ := hb
  exact ⟨body, hne, h.trans hp⟩

theorem Completed.maximal {as bs body : List (List Byte)} (ha : Completed as body) (hb : Protocol bs)
    (h : as <+: bs) : Completed bs body := by
  obtain ⟨body', hne, hp⟩ := hb
  rcases List.prefix_concat_iff.mp (h.trans hp) with heq | hpre
  · have heq : as = callSequence body' := heq
    have hlen : (callSequence body').length ≤ bs.length := by
      rw [← heq]; exact h.length_le
    rw [hp.eq_of_length_le hlen, ← heq]
    exact ha
  · -- the empty call would be one of the chunks
    have hnil : [] ∈ body' := by
      rw [ha.2, callSequence, List.cons_append] at hpre
      exact (List.cons_prefix_cons.mp hpre).2.subset (by simp)
    exact absurd rfl (hne [] hnil)

/-- The calls made so far for a request that gets another one: none, or some that carried data
after the first. -/
theorem Protocol.of_snoc {chunks : List (List Byte)} {c : List Byte} (h : Protocol (chunks ++ [c])) :
    chunks = [] ∨ ∃ body, (∀ c ∈ body, c ≠ []) ∧ chunks = [] :: body := by
  obtain ⟨body, hne, hp⟩ := h
  apply started_cases hne
  rcases List.prefix_concat_iff.mp hp with heq | hpre
  · rw [(List.append_inj' heq rfl).1]
  · exact (List.prefix_append _ _).trans hpre

/-! ## Calls and effects of one request -/

section
variable {ι : Type} [DecidableEq ι]

def callsOf (i : ι) (es : List (ι × Call)) : List (List Byte) :=
  es.filterMap fun e => if e.1 = i then some e.2.chunk else none

def publishesOf (i : ι) (out : List (ι × Effect)) : List Publish :=
  out.filterMap fun e => if e.1 = i then e.2.publish? else none

theorem callsOf_append (i : ι) (es fs : List (ι × Call)) : callsOf i (es ++ fs) = callsOf i es ++ callsOf i fs :=
  List.filterMap_append

@[simp] theorem callsOf_snoc_self (i : ι) (es : List (ι × Call)) (c : Call) :
    callsOf i (es ++ [(i, c)]) = callsOf i es ++ [c.chunk] := by
  simp [callsOf]

theorem callsOf_snoc_ne {i k : ι} (h : i ≠ k) (es : List (ι × Call)) (c : Call) :
    callsOf i (es ++ [(k, c)]) = callsOf i es := by
  simp [callsOf, h.symm]

theorem callsOf_mono (i : ι) {es fs : List (ι × Call)} (h : es <+: fs) : callsOf i es <+: callsOf i fs :=
  h.filterMap _

theorem publishesOf_append (i : ι) (a b : List (ι × Effect)) :
    publishesOf i (a ++ b) = publishesOf i a ++ publishesOf i b := List.filterMap_append

@[simp] theorem publishesOf_map_self (i : ι) (out : List Effect) :
    publishesOf i (out.map (Prod.mk i)) = publishes out := by
  simp [publishesOf, publishes, List.filterMap_map]

theorem publishesOf_map_ne {i k : ι} (h : i ≠ k) (out : List Effect) :
    publishesOf i (out.map (Prod.mk k)) = [] := by
  simp [publishesOf, List.filterMap_map, h.symm]

/-! ## The invariant -/

variable (w : LongWidth) (req : ι → Request)

structure OwnedBy (done : List (ι × Call)) (s : Server ι) (i : ι) (q : Addr) (b : List Byte)
    (e : Option Addr) : Prop where
  post : (req i).method = postMethod
  phase : phaseOf (callsOf i done) = .receiving b
  conCls : s.conCls i = some q
  owns : Owns s.store q b e

/-- What has been published for a POST request in a phase: nothing until it is finished, then one
message, with as much of the body as is handed over. -/
def Told (r : Request) : Phase → List Publish → Prop
  | .finished b, ps => b ≠ [] ∧ ∃ v rc, mhdLookupConnectionValue r.qos = some v ∧
      ps = [⟨topicOf r, handedOver b, qosOf w v, rc⟩]
  | _, ps => ps = []

structure Tracks (done : List (ι × Call)) (out : List (ι × Effect)) (s : Server ι) : Prop where
  idle : ∀ i, (req i).method = postMethod → phaseOf (callsOf i done) = .idle → s.conCls i = none
  owned : ∀ i b, (req i).method = postMethod → phaseOf (callsOf i done) = .receiving b →
    ∃ q e, OwnedBy req done s i q b e
  apart : ∀ i j q b e q' b' e', i ≠ j → OwnedBy req done s i q b e → OwnedBy req done s j q' b' e' →
    q ≠ q' ∧ ∀ x, e = some x → e' ≠ some x
  told : ∀ i, (req i).method = postMethod → Told w (req i) (phaseOf (callsOf i done)) (publishesOf i out)
  silent : ∀ i, (req i).method ≠ postMethod → publishesOf i out = []

/-- No block is left over: each record and each buffer belongs to a request that is receiving. -/
structure Covered (done : List (ι × Call)) (s : Server ι) : Prop where
  records : ∀ q, s.store.records.lookup q ≠ none → ∃ i b e, OwnedBy req done s i q b e
  buffers : ∀ x, s.store.buffers.lookup x ≠ none → ∃ i q b, OwnedBy req done s i q b (some x)

theorem Owns.data_unique {st : Store} {p : Addr} {b b' : List Byte} {d d' : Option Addr} (h : Owns st p b d)
    (h' : Owns st p b' d') : d = d' := by
  have := h.record.symm.trans h'.record
  simp only [Option.some.injEq, IncomingData.mk.injEq] at this
  exact this.2

variable {w req}

theorem OwnedBy.unique_record {done : List (ι × Call)} {s : Server ι} {k : ι} {q q' : Addr} {b b' : List Byte}
    {e e' : Option Addr} (h : OwnedBy req done s k q b e) (h' : OwnedBy req done s k q' b' e') : q = q' :=
  Option.some.inj (h.conCls.symm.trans h'.conCls)

theorem OwnedBy.unique_buffer {done : List (ι × Call)} {s : Server ι} {k : ι} {q q' : Addr} {b b' : List Byte}
    {e e' : Option Addr} (h : OwnedBy req done s k q b e) (h' : OwnedBy req done s k q' b' e') : e = e' := by
  obtain rfl := h.unique_record h'
  exact h.owns.data_unique h'.owns

/-- The heap that a call for request `k` leaves: the blocks of the others are still there, and the
record `k` goes on with is none of theirs. -/
structure Leaves (req : ι → Request) (done : List (ι × Call)) (s : Server ι) (k : ι) (c : Call) (st : Store)
    (p : Addr) : Prop where
  others : ∀ i q b e, i ≠ k → OwnedBy req done s i q b e → Owns st q b e
  new : ∀ b, phaseOf (callsOf k (done ++ [(k, c)])) = .receiving b → ∃ d, Owns st p b d ∧
    ∀ i q b' e, i ≠ k → OwnedBy req done s i q b' e → p ≠ q ∧ ∀ x, d = some x → e ≠ some x

/-- What is in the heap after a call for request `k`: a block that `k` goes on with, or one that was
there before and that `k` did not own. -/
structure Sweeps (req : ι → Request) (done : List (ι × Call)) (s : Server ι) (k : ι) (c : Call) (st : Store)
    (p : Addr) : Prop where
  records : ∀ q, st.records.lookup q ≠ none →
    (∃ b e, OwnedBy req (done ++ [(k, c)]) ⟨st, Function.update s.conCls k (some p)⟩ k q b e) ∨
      s.store.records.lookup q ≠ none ∧ ∀ b e, ¬ OwnedBy req done s k q b e
  buffers : ∀ x, st.buffers.lookup x ≠ none →
    (∃ q b, OwnedBy req (done ++ [(k, c)]) ⟨st, Function.update s.conCls k (some p)⟩ k q b (some x)) ∨
      s.store.buffers.lookup x ≠ none ∧ ∀ q b, ¬ OwnedBy req done s k q b (some x)

section
variable {done : List (ι × Call)} {out : List (ι × Effect)} {s : Server ι} (h : Tracks w req done out s) {k : ι}
  {c : Call} {st : Store} {p : Addr} (hl : Leaves req done s k c st p)
include hl

theorem Leaves.keeps {i : ι} {q : Addr} {b : List Byte} {e : Option Addr} (hi : i ≠ k)
    (ho : OwnedBy req done s i q b e) :
    OwnedBy req (done ++ [(k, c)]) ⟨st, Function.update s.conCls k (some p)⟩ i q b e :=
  ⟨ho.post, by rw [callsOf_snoc_ne hi]; exact ho.phase, by simpa [Function.update_of_ne hi] using ho.conCls,
    hl.others i q b e hi ho⟩

theorem Leaves.covered (hsweep : Sweeps req done s k c st p) (hcov : Covered req done s) :
    Covered req (done ++ [(k, c)]) ⟨st, Function.update s.conCls k (some p)⟩ := by
  constructor
  · intro q hq
    rcases hsweep.records q hq with ⟨b, e, ho⟩ | ⟨hold, hnot⟩
    · exact ⟨k, b, e, ho⟩
    · obtain ⟨i, b, e, ho⟩ := hcov.records q hold
      have hi : i ≠ k := by rintro rfl; exact hnot b e ho
      exact ⟨i, b, e, hl.keeps hi ho⟩
  · intro x hx
    rcases hsweep.buffers x hx with ⟨q, b, ho⟩ | ⟨hold, hnot⟩
    · exact ⟨k, q, b, ho⟩
    · obtain ⟨i, q, b, ho⟩ := hcov.buffers x hold
      have hi : i ≠ k := by rintro rfl; exact hnot q b ho
      exact ⟨i, q, b, hl.keeps hi ho⟩

theorem Leaves.own_apart {q : Addr} {b : List Byte} {e : Option Addr}
    (ho : OwnedBy req (done ++ [(k, c)]) ⟨st, Function.update s.conCls k (some p)⟩ k q b e) :
    q = p ∧ ∀ i q' b' e', i ≠ k → OwnedBy req done s i q' b' e' → p ≠ q' ∧ ∀ x, e = some x → e' ≠ some x := by
  have hq : q = p := by simpa using ho.conCls.symm
  subst hq
  obtain ⟨d, hd, hsep⟩ := hl.new b ho.phase
  obtain rfl := hd.data_unique ho.owns
  exact ⟨rfl, hsep⟩

include h

theorem Tracks.owned_before {i : ι} {q : Addr} {b : List Byte} {e : Option Addr} (hi : i ≠ k)
    (ho : OwnedBy req (done ++ [(k, c)]) ⟨st, Function.update s.conCls k (some p)⟩ i q b e) :
    OwnedBy req done s i q b e := by
  have hph := ho.phase
  rw [callsOf_snoc_ne hi] at hph
  obtain ⟨q', e', ho'⟩ := h.owned i b ho.post hph
  have hq : s.conCls i = some q := by simpa [Function.update_of_ne hi] using ho.conCls
  obtain rfl : q' = q := Option.some.inj (ho'.conCls.symm.trans hq)
  obtain rfl := (hl.others i q' b e' hi ho').data_unique ho.owns
  exact ho'

theorem Tracks.owned_after {i : ι} {b : List Byte} (hi : (req i).method = postMethod)
    (hph : phaseOf (callsOf i (done ++ [(k, c)])) = .receiving b) :
    ∃ q e, OwnedBy req (done ++ [(k, c)]) ⟨st, Function.update s.conCls k (some p)⟩ i q b e := by
  by_cases hik : i = k
  · subst hik
    obtain ⟨d, hd, _⟩ := hl.new b hph
    exact ⟨p, d, hi, hph, by simp, hd⟩
  · have hph' := hph
    rw [callsOf_snoc_ne hik] at hph'
    obtain ⟨q, e, ho⟩ := h.owned i b hi hph'
    exact ⟨q, e, hl.keeps hik ho⟩

theorem Tracks.apart_after {i j : ι} {q q' : Addr} {b b' : List Byte} {e e' : Option Addr} (hij : i ≠ j)
    (ho : OwnedBy req (done ++ [(k, c)]) ⟨st, Function.update s.conCls k (some p)⟩ i q b e)
    (ho' : OwnedBy req (done ++ [(k, c)]) ⟨st, Function.update s.conCls k (some p)⟩ j q' b' e') :
    q ≠ q' ∧ ∀ x, e = some x → e' ≠ some x := by
  by_cases hik : i = k
  · subst hik
    obtain ⟨rfl, hsep⟩ := hl.own_apart ho
    exact hsep j q' b' e' hij.symm (h.owned_before hl hij.symm ho')
  · by_cases hjk : j = k
    · subst hjk
      obtain ⟨rfl, hsep⟩ := hl.own_apart ho'
      obtain ⟨hne, hd⟩ := hsep i q b e hij (h.owned_before hl hij ho)
      exact ⟨hne.symm, fun x hx hx' => hd x hx' hx⟩
    · exact h.apart i j q b e q' b' e' hij (h.owned_before hl hik ho) (h.owned_before hl hjk ho')

theorem Tracks.step (hk : (req k).method = postMethod) {o : List Effect}
    (hphase : phaseOf (callsOf k (done ++ [(k, c)])) ≠ .idle)
    (hpub : Told w (req k) (phaseOf (callsOf k (done ++ [(k, c)]))) (publishesOf k out ++ publishes o)) :
    Tracks w req (done ++ [(k, c)]) (out ++ o.map (Prod.mk k))
      ⟨st, Function.update s.conCls k (some p)⟩ := by
  refine ⟨?_, fun i b => h.owned_after hl, fun i j q b e q' b' e' => h.apart_after hl, ?_, ?_⟩
  · intro i hi hph
    by_cases hik : i = k
    · subst hik; exact absurd hph hphase
    · rw [callsOf_snoc_ne hik] at hph
      simpa [Function.update_of_ne hik] using h.idle i hi hph
  · intro i hi
    rw [publishesOf_append]
    by_cases hik : i = k
    · subst hik; rw [publishesOf_map_self]; exact hpub
    · rw [publishesOf_map_ne hik, List.append_nil, callsOf_snoc_ne hik]; exact h.told i hi
  · intro i hi
    have hik : i ≠ k := fun e => hi (e ▸ hk)
    rw [publishesOf_append, publishesOf_map_ne hik, List.append_nil]
    exact h.silent i hi

end

/-! ## Every call keeps it -/

variable (cls : MqttClientHandle)

theorem serve_of_ok {s : Server ι} {k : ι} {c : Call} {a : Answer}
    (h : (answerToConnection w cls (req k) c s.store (s.conCls k)).res = .ok a) :
    serve w cls req s (k, c) =
      ⟨(answerToConnection w cls (req k) c s.store (s.conCls k)).out.map (Prod.mk k),
        .ok ⟨a.store, Function.update s.conCls k a.conCls⟩⟩ := by
  have hm : ((answerToConnection w cls (req k) c s.store (s.conCls k)).mapOut (Prod.mk k)).res = .ok a := h
  rw [serve, Proc.bind_of_ok hm]
  simp

theorem serve_of_error {s : Server ι} {k : ι} {c : Call} {e : Halt}
    (h : (answerToConnection w cls (req k) c s.store (s.conCls k)).res = .error e) :
    serve w cls req s (k, c) =
      ⟨(answerToConnection w cls (req k) c s.store (s.conCls k)).out.map (Prod.mk k), .error e⟩ := by
  have hm : ((answerToConnection w cls (req k) c s.store (s.conCls k)).mapOut (Prod.mk k)).res = .error e := h
  rw [serve, Proc.bind_of_error hm]
  rfl

def Dies (p : Run Answer) : Prop := (∃ e, p.res = .error e) ∧ publishes p.out = []

theorem serve_of_dies {s : Server ι} {k : ι} {c : Call}
    (h : Dies (answerToConnection w cls (req k) c s.store (s.conCls k))) :
    (∃ e, (serve w cls req s (k, c)).res = .error e) ∧
      ∀ i, publishesOf i (serve w cls req s (k, c)).out = [] := by
  obtain ⟨⟨e, he⟩, hp⟩ := h
  rw [serve_of_error cls he]
  refine ⟨⟨e, rfl⟩, fun i => ?_⟩
  by_cases hik : i = k
  · subst hik; rw [publishesOf_map_self, hp]
  · rw [publishesOf_map_ne hik]

def GoesOn (w : LongWidth) (req : ι → Request) (done : List (ι × Call)) (out : List (ι × Effect)) (s : Server ι)
    (k : ι) (c : Call) : Prop :=
  ∃ s', (serve w cls req s (k, c)).res = .ok s' ∧
    Tracks w req (done ++ [(k, c)]) (out ++ (serve w cls req s (k, c)).out) s' ∧
    (Covered req done s → Covered req (done ++ [(k, c)]) s')

def Quits (p : Run Answer) : Prop := Dies p ∧ p.res ≠ .error .freedPointer

theorem quits_of_error {p : Run Answer} {e : Halt} (hr : p.res = .error e) (he : e ≠ .freedPointer)
    (hp : publishes p.out = []) : Quits p := by
  refine ⟨⟨⟨e, hr⟩, hp⟩, ?_⟩
  rw [hr]
  exact fun h => he (Except.error.inj h)

section
variable {done : List (ι × Call)} {out : List (ι × Effect)} {s : Server ι} (h : Tracks w req done out s)
  {k : ι} (c : Call)
include h

theorem Tracks.other (hk : (req k).method ≠ postMethod) : GoesOn cls w req done out s k c := by
  have ha := answer_other w cls hk c s.store (s.conCls k)
  have hs : serve w cls req s (k, c) = ⟨[connectLine (req k)].map (Prod.mk k), .ok s⟩ := by
    rw [serve_of_ok cls (by rw [ha]), ha, Function.update_eq_self]
  have hik : ∀ i, (req i).method = postMethod → i ≠ k := by
    rintro i hi rfl; exact hk hi
  have hown : ∀ i q b e, OwnedBy req (done ++ [(k, c)]) s i q b e ↔ OwnedBy req done s i q b e := by
    intro i q b e
    constructor
    · exact fun ho => ⟨ho.post, by rw [← callsOf_snoc_ne (hik i ho.post) done c]; exact ho.phase, ho.conCls, ho.owns⟩
    · exact fun ho => ⟨ho.post, by rw [callsOf_snoc_ne (hik i ho.post)]; exact ho.phase, ho.conCls, ho.owns⟩
  have hpub : ∀ i, publishesOf i (out ++ [connectLine (req k)].map (Prod.mk k)) = publishesOf i out := by
    intro i
    rw [publishesOf_append]
    by_cases hi : i = k
    · subst hi; rw [publishesOf_map_self]; exact List.append_nil _
    · rw [publishesOf_map_ne hi, List.append_nil]
  unfold GoesOn
  rw [hs]
  refine ⟨s, rfl, ⟨?_, ?_, ?_, ?_, ?_⟩, fun hcov => ?_⟩
  · intro i hi hph
    rw [callsOf_snoc_ne (hik i hi)] at hph
    exact h.idle i hi hph
  · intro i b hi hph
    have hph' := hph
    rw [callsOf_snoc_ne (hik i hi)] at hph'
    obtain ⟨q, e, ho⟩ := h.owned i b hi hph'
    exact ⟨q, e, hi, hph, ho.conCls, ho.owns⟩
  · intro i j q b e q' b' e' hij ho ho'
    exact h.apart i j q b e q' b' e' hij ((hown _ _ _ _).mp ho) ((hown _ _ _ _).mp ho')
  · intro i hi
    rw [hpub, callsOf_snoc_ne (hik i hi)]; exact h.told i hi
  · intro i hi
    rw [hpub]; exact h.silent i hi
  · constructor
    · intro q hq
      simp only [hown]
      exact hcov.records q hq
    · intro x hx
      simp only [hown]
      exact hcov.buffers x hx

theorem Tracks.first (hk : (req k).method = postMethod) (hph : callsOf k done = []) :
    Quits (answerToConnection w cls (req k) c s.store (s.conCls k)) ∨ GoesOn cls w req done out s k c := by
  have hidle : s.conCls k = none := h.idle k hk (by rw [hph]; rfl)
  have ha := answer_post w cls hk c s.store (s.conCls k)
  rw [hidle, answerPost_first] at ha
  have hquiet := (quiet_firstCall w c s.store).publishes
  cases hal : c.env.alloc with
  | none =>
    rw [hidle, ha]
    exact Or.inl (quits_of_error (firstCall_refused w s.store hal).1 (by simp) hquiet)
  | some o =>
    obtain ⟨p, records, hr, _, hnew, hfresh, hframe⟩ := firstCall_returns w s.store hal
    right
    unfold GoesOn
    rw [serve_of_ok cls (by rw [hidle, ha, hr]), hidle, ha]
    have hnext : phaseOf (callsOf k (done ++ [(k, c)])) = .receiving [] := by
      rw [callsOf_snoc_self, hph]; rfl
    have hne : ∀ i q b e, OwnedBy req done s i q b e → q ≠ p := by
      rintro i q b e ho rfl
      rw [ho.owns.record] at hfresh; cases hfresh
    have hl : Leaves req done s k c { s.store with records } p := by
      refine ⟨fun i q b e _ ho => ho.owns.frame (hframe q (hne i q b e ho)) fun x _ => rfl, fun b hb => ?_⟩
      rw [hnext] at hb
      obtain rfl := Phase.receiving.inj hb
      exact ⟨none, hnew, fun i q b' e _ ho => ⟨(hne i q b' e ho).symm, fun x hx => by cases hx⟩⟩
    have hnot : ∀ q b e, ¬ OwnedBy req done s k q b e := by
      intro q b e ho
      have := ho.phase
      rw [hph] at this
      cases this
    refine ⟨_, rfl, h.step hl hk (by rw [hnext]; simp) ?_, hl.covered ⟨?_, fun x hx => .inr ⟨hx, fun q b => hnot q b _⟩⟩⟩
    · have htold := h.told k hk
      rw [hph] at htold
      rw [hnext, publishes_connectLine, hquiet, List.append_nil]
      exact htold
    · intro q hq
      by_cases hqp : q = p
      · subst hqp
        exact .inl ⟨[], none, hk, hnext, by simp, hnew⟩
      · exact .inr ⟨hframe q hqp ▸ hq, hnot q⟩

theorem Tracks.chunk (hk : (req k).method = postMethod) {b : List Byte}
    (hph : phaseOf (callsOf k done) = .receiving b) (hc : c.chunk ≠ []) :
    Quits (answerToConnection w cls (req k) c s.store (s.conCls k)) ∨ GoesOn cls w req done out s k c := by
  obtain ⟨p, d, ho⟩ := h.owned k b hk hph
  have ha := answer_post w cls hk c s.store (s.conCls k)
  rw [ho.conCls, answerPost_chunk w cls _ hc] at ha
  have hquiet := (quiet_continuation c s.store p).publishes
  cases hal : c.env.alloc with
  | none =>
    rw [ho.conCls, ha]
    exact Or.inl (quits_of_error (continuation_refused ho.owns hal).1 (by simp) hquiet)
  | some o =>
    obtain ⟨st, d', hr, _, hnew, hrec, hbuf, hold⟩ := continuation_returns ho.owns hc hal
    right
    unfold GoesOn
    rw [serve_of_ok cls (by rw [ho.conCls, ha, hr]), ho.conCls, ha]
    have hnext : phaseOf (callsOf k (done ++ [(k, c)])) = .receiving (b ++ c.chunk) := by
      rw [callsOf_snoc_self, phaseOf_snoc, hph]
      simp [Phase.next, hc]
    -- the buffers of the others are live and none of them is `d`
    have hother : ∀ i q b' e, i ≠ k → OwnedBy req done s i q b' e → ∀ x, e = some x →
        x ≠ d' ∧ st.buffers.lookup x = s.store.buffers.lookup x := by
      rintro i q b' e hi ho' x rfl
      exact hbuf x ho'.owns.buffer_live ((h.apart i k q b' (some x) p b d hi ho' ho).2 x rfl).symm
    have hl : Leaves req done s k c st p := by
      constructor
      · intro i q b' e hi ho'
        have hq := (h.apart i k q b' e p b d hi ho' ho).1
        exact ho'.owns.frame (hrec q hq) fun x hx => (hother i q b' e hi ho' x hx).2
      · intro b' hb'
        rw [hnext] at hb'
        obtain rfl := Phase.receiving.inj hb'
        refine ⟨some d', hnew, fun i q b' e hi ho' => ⟨(h.apart i k q b' e p b d hi ho' ho).1.symm, ?_⟩⟩
        rintro x hx rfl
        exact (hother i q b' _ hi ho' x rfl).1 (Option.some.inj hx).symm
    refine ⟨_, rfl, h.step hl hk (by rw [hnext]; simp) ?_, hl.covered ⟨?_, ?_⟩⟩
    · have htold := h.told k hk
      rw [hph] at htold
      rw [hnext, publishes_connectLine, hquiet, List.append_nil]
      exact htold
    · intro q hq
      by_cases hqp : q = p
      · subst hqp
        exact .inl ⟨_, _, hk, hnext, by simp, hnew⟩
      · exact .inr ⟨hrec q hqp ▸ hq, fun b' e ho' => hqp (ho'.unique_record ho)⟩
    · intro x hx
      by_cases hxd : x = d'
      · subst hxd
        exact .inl ⟨p, _, hk, hnext, by simp, hnew⟩
      · obtain ⟨hlive, hne⟩ := hold x hxd hx
        exact .inr ⟨hlive, fun q b' ho' => hne (ho'.unique_buffer ho)⟩

/-- The last call of a request with a `qos` value and a body: the message goes out, and the blocks
that are given back are the request's own. -/
theorem Tracks.last_returns (hk : (req k).method = postMethod) {b : List Byte}
    (hph : phaseOf (callsOf k done) = .receiving b) (hc : c.chunk = []) {v : CStr}
    (hq : mhdLookupConnectionValue (req k).qos = some v) (hb : b ≠ []) :
    GoesOn cls w req done out s k c := by
  obtain ⟨p, d, ho⟩ := h.owned k b hk hph
  have ha := answer_post w cls hk c s.store (s.conCls k)
  rw [ho.conCls, answerPost_last w cls _ hc] at ha
  unfold GoesOn
  obtain ⟨st, hr, hp, _, hrec, hbuf, hgone, hfreed⟩ := finalCall_returns (c := c) w cls ho.owns hq hb
  rw [serve_of_ok cls (by rw [ho.conCls, ha, hr]), ho.conCls, ha]
  have hnext : phaseOf (callsOf k (done ++ [(k, c)])) = .finished b := by
    rw [callsOf_snoc_self, phaseOf_snoc, hph]
    simp [Phase.next, hc]
  have hl : Leaves req done s k c st p := by
    constructor
    · intro i q b' e hi ho'
      obtain ⟨hne, hd⟩ := h.apart i k q b' e p b d hi ho' ho
      exact ho'.owns.frame (hrec q hne) fun x hx => hbuf x fun e' => hd x hx e'.symm
    · intro b' hb'
      rw [hnext] at hb'; cases hb'
  refine ⟨_, rfl, h.step hl hk (by rw [hnext]; simp) ?_, hl.covered ⟨?_, ?_⟩⟩
  · have htold := h.told k hk
    rw [hph] at htold
    rw [hnext, publishes_connectLine, hp, show publishesOf k out = [] from htold, List.nil_append]
    exact ⟨hb, v, c.env.publish, hq, rfl⟩
  · intro q hq
    have hqp : q ≠ p := fun e => hq (e ▸ hgone)
    exact .inr ⟨hrec q hqp ▸ hq, fun b' e ho' => hqp (ho'.unique_record ho)⟩
  · intro x hx
    have hxd : some x ≠ d := fun e => hx (hfreed x e)
    exact .inr ⟨hbuf x hxd ▸ hx, fun q b' ho' => hxd (ho'.unique_buffer ho)⟩

theorem Tracks.last (hk : (req k).method = postMethod) {b : List Byte}
    (hph : phaseOf (callsOf k done) = .receiving b) (hc : c.chunk = []) :
    Quits (answerToConnection w cls (req k) c s.store (s.conCls k)) ∨ GoesOn cls w req done out s k c := by
  obtain ⟨p, d, ho⟩ := h.owned k b hk hph
  have ha := answer_post w cls hk c s.store (s.conCls k)
  rw [ho.conCls, answerPost_last w cls _ hc] at ha
  cases hq : mhdLookupConnectionValue (req k).qos with
  | none =>
    obtain ⟨he, hquiet⟩ := finalCall_noQos w cls c s.store p hq
    rw [ho.conCls, ha]
    exact Or.inl (quits_of_error he (by simp) hquiet.publishes)
  | some v =>
    by_cases hb : b = []
    · subst hb
      obtain ⟨he, hquiet⟩ := finalCall_noBody (c := c) w cls ho.owns hq
      rw [ho.conCls, ha]
      exact Or.inl (quits_of_error he (by simp) hquiet.publishes)
    · exact Or.inr (h.last_returns cls c hk hph hc hq hb)

theorem Tracks.serve (hp : (req k).method = postMethod → Protocol (callsOf k (done ++ [(k, c)]))) :
    Quits (answerToConnection w cls (req k) c s.store (s.conCls k)) ∨ GoesOn cls w req done out s k c := by
  by_cases hk : (req k).method = postMethod
  · have hpr := hp hk
    rw [callsOf_snoc_self] at hpr
    rcases hpr.of_snoc with hnil | ⟨body, hne, hbody⟩
    · exact h.first cls c hk hnil
    · have hph : phaseOf (callsOf k done) = .receiving body.flatten := by rw [hbody, phaseOf_started hne]
      by_cases hc : c.chunk = []
      · exact h.last cls c hk hph hc
      · exact h.chunk cls c hk hph hc
  · exact Or.inr (h.other cls c hk)

theorem Tracks.quiet {o : List (ι × Effect)} (ho : ∀ i, publishesOf i o = []) : Tracks w req done (out ++ o) s := by
  have hpub : ∀ i, publishesOf i (out ++ o) = publishesOf i out := fun i => by
    rw [publishesOf_append, ho, List.append_nil]
  exact ⟨h.idle, h.owned, h.apart, fun i hi => by rw [hpub]; exact h.told i hi,
    fun i hi => by rw [hpub]; exact h.silent i hi⟩

end

/-! ## Whole runs -/

theorem Tracks.init (st : Store) : Tracks w req [] [] (freshServer st) where
  idle _ _ _ := rfl
  owned _ _ _ h := by cases h
  apart _ _ _ _ _ _ _ _ _ h := by cases h.phase
  told _ _ := rfl
  silent _ _ := rfl

theorem serveAll_tracks (st : Store) {es : List (ι × Call)}
    (hp : ∀ i, (req i).method = postMethod → Protocol (callsOf i es)) :
    ∃ s, Tracks w req (answered w cls req st es) (serveAll w cls req (freshServer st) es).out s ∧
      (made w cls req st es = answered w cls req st es ∨ ∃ k c out e,
        made w cls req st es = answered w cls req st es ++ [(k, c)] ∧ Tracks w req (answered w cls req st es) out s ∧
          (serve w cls req s (k, c)).res = .error e) := by
  have hpre : ∀ {done : List (ι × Call)} {k c}, done ++ [(k, c)] <+: es → (req k).method = postMethod →
      Protocol (callsOf k (done ++ [(k, c)])) := fun hd hk => (hp _ hk).mono (callsOf_mono _ hd)
  have hstep : ∀ (done : List (ι × Call)) out s e s', done ++ [e] <+: es → Tracks w req done out s →
      (serve w cls req s e).res = .ok s' → Tracks w req (done ++ [e]) (out ++ (serve w cls req s e).out) s' := by
    rintro done out s ⟨k, c⟩ s' hd h hs
    rcases h.serve cls c (hpre hd) with ⟨hdies, -⟩ | ⟨t, ht, hT, -⟩
    · obtain ⟨e, he⟩ := (serve_of_dies cls hdies).1
      rw [he] at hs; cases hs
    · rw [ht] at hs
      cases hs; exact hT
  obtain ⟨out, s, hI, hE⟩ := Proc.run_inv (serve w cls req) (Tracks w req) (Tracks.init st) hstep
  refine ⟨s, ?_⟩
  cases hE with
  | all hdone hrun =>
    refine ⟨by rw [serveAll, hrun]; exact hI, Or.inl ?_⟩
    have hall : answered w cls req st es = es := hdone
    rw [made, hall]
    exact List.take_of_length_le (Nat.le_succ _)
  | halted e rest x his herr hrun =>
    obtain ⟨k, c⟩ := e
    have hd : answered w cls req st es ++ [(k, c)] <+: es := ⟨rest, by rw [List.append_assoc]; exact his.symm⟩
    have hmade : made w cls req st es = answered w cls req st es ++ [(k, c)] := by
      have := List.prefix_iff_eq_take.mp hd
      rw [List.length_append, List.length_singleton] at this
      exact this.symm
    refine ⟨?_, Or.inr ⟨k, c, out, x, hmade, hI, herr⟩⟩
    -- the call that ended the process published nothing
    rw [serveAll, hrun]
    refine hI.quiet ?_
    rcases hI.serve cls c (hpre hd) with ⟨hdies, -⟩ | ⟨t, ht, _⟩
    · exact (serve_of_dies cls hdies).2
    · rw [ht] at herr; cases herr

theorem finished_of_made (st : Store) {es : List (ι × Call)}
    (hp : ∀ i, (req i).method = postMethod → Protocol (callsOf i es)) {i : ι} (hi : (req i).method = postMethod)
    {body : List (List Byte)} (hbody : Completed (callsOf i (made w cls req st es)) body) (hne : body.flatten ≠ [])
    {v : CStr} (hq : mhdLookupConnectionValue (req i).qos = some v) :
    ∃ rc, publishesOf i (serveAll w cls req (freshServer st) es).out =
      [⟨topicOf (req i), handedOver body.flatten, qosOf w v, rc⟩] := by
  obtain ⟨s, hT, hmade⟩ := serveAll_tracks (w := w) cls st hp
  have hfin : phaseOf (callsOf i (answered w cls req st es)) = .finished body.flatten := by
    rcases hmade with heq | ⟨k, c, out, e, heq, hI, herr⟩
    · rw [← heq, hbody.2, phaseOf_completed hbody.1]
    · have hcalls := hbody.2
      rw [heq] at hcalls
      by_cases hik : i = k
      · -- it would be the last call of `i` that ended the process
        subst hik
        rw [callsOf_snoc_self] at hcalls
        obtain ⟨hstarted, hlast⟩ := List.append_inj' hcalls rfl
        have hph : phaseOf (callsOf i (answered w cls req st es)) = .receiving body.flatten := by
          rw [hstarted, phaseOf_started hbody.1]
        obtain ⟨s', hs', _⟩ := hI.last_returns cls c hi hph (List.singleton_inj.mp hlast) hq hne
        rw [hs'] at herr; cases herr
      · rw [callsOf_snoc_ne hik] at hcalls
        rw [hcalls, phaseOf_completed hbody.1]
  have htold := hT.told i hi
  rw [hfin] at htold
  obtain ⟨_, v', rc, hv', hps⟩ := htold
  obtain rfl := Option.some.inj (hv'.symm.trans hq)
  exact ⟨rc, hps⟩

theorem silent_of_made (st : Store) {es : List (ι × Call)}
    (hp : ∀ i, (req i).method = postMethod → Protocol (callsOf i es)) {i : ι} (hi : (req i).method = postMethod)
    (hnot : ¬ ∃ body, Completed (callsOf i (made w cls req st es)) body) :
    publishesOf i (serveAll w cls req (freshServer st) es).out = [] := by
  obtain ⟨s, hT, hmade⟩ := serveAll_tracks (w := w) cls st hp
  have htold := hT.told i hi
  have hsub : answered w cls req st es <+: made w cls req st es := by
    rcases hmade with heq | ⟨_, _, _, _, heq, _⟩
    · rw [heq]
    · rw [heq]; exact List.prefix_append _ _
  have hpr : Protocol (callsOf i (made w cls req st es)) := (hp i hi).mono (callsOf_mono i (List.take_prefix _ _))
  rcases (hpr.mono (callsOf_mono i hsub)).cases with (hnil | ⟨body, hne, hbody⟩) | ⟨body, hbody⟩
  · rw [hnil] at htold; exact htold
  · rw [hbody, phaseOf_started hne] at htold; exact htold
  · exact absurd ⟨body, hbody.maximal hpr (callsOf_mono i hsub)⟩ hnot

end

/-! ## Each completed request gives one message -/

section
variable {ι : Type} [DecidableEq ι]

/-- What is to become of the requests: a POST request with a body and a `qos` argument has published
once when all its calls were made, and what it published is a function of its own body; a POST
request that lacks a call and a request with another method have published nothing. -/
structure PublishesOnce (payloadOf : List Byte → List Byte) (w : LongWidth) (cls : MqttClientHandle) (req : ι → Request)
    (st : Store) (es : List (ι × Call)) : Prop where
  completed : ∀ i body, (req i).method = postMethod → Completed (callsOf i (made w cls req st es)) body →
    body.flatten ≠ [] → (mhdLookupConnectionValue (req i).qos).isSome →
    ∃ p, publishesOf i (serveAll w cls req (freshServer st) es).out = [p] ∧ p.payload = payloadOf body.flatten
  incomplete : ∀ i, (req i).method = postMethod → (¬ ∃ body, Completed (callsOf i (made w cls req st es)) body) →
    publishesOf i (serveAll w cls req (freshServer st) es).out = []
  other : ∀ i, (req i).method ≠ postMethod → publishesOf i (serveAll w cls req (freshServer st) es).out = []

/-- The same, and a body without a NUL is published as it is. -/
structure PublishesBodies (payloadOf : List Byte → List Byte) (w : LongWidth) (cls : MqttClientHandle)
    (req : ι → Request) (st : Store) (es : List (ι × Call)) : Prop extends PublishesOnce payloadOf w cls req st es where
  whole : ∀ i body, (req i).method = postMethod → Completed (callsOf i (made w cls req st es)) body →
    body.flatten ≠ [] → (mhdLookupConnectionValue (req i).qos).isSome → 0 ∉ body.flatten →
    ∀ p ∈ publishesOf i (serveAll w cls req (freshServer st) es).out, p.payload = body.flatten

theorem publishesOnce (w : LongWidth) (cls : MqttClientHandle) (req : ι → Request) (st : Store) {es : List (ι × Call)}
    (hp : ∀ i, (req i).method = postMethod → Protocol (callsOf i es)) :
    PublishesOnce handedOver w cls req st es := by
  refine ⟨fun i body hi hbody hne hq => ?_, fun i hi hnot => silent_of_made cls st hp hi hnot, fun i hi => ?_⟩
  · obtain ⟨v, hv⟩ := Option.isSome_iff_exists.mp hq
    obtain ⟨rc, hps⟩ := finished_of_made (w := w) cls st hp hi hbody hne hv
    exact ⟨_, hps, by dsimp only⟩
  · obtain ⟨s, hT, _⟩ := serveAll_tracks (w := w) cls st hp
    exact hT.silent i hi

end

/-- **Each completed request gives one message**, however the calls of the requests are interleaved,
and it is the body of the request exactly if no body without a NUL is too long for an `int`. The
terminator that goes one past a block is taken to do no harm there. -/
theorem completed_publishes_once_iff {ι : Type} [DecidableEq ι] (w : LongWidth) (cls : MqttClientHandle)
    (req : ι → Request) (st : Store) {es : List (ι × Call)}
    (hp : ∀ i, (req i).method = postMethod → Protocol (callsOf i es)) :
    PublishesOnce handedOver w cls req st es ∧
      (PublishesBodies handedOver w cls req st es ↔
        ∀ i body, (req i).method = postMethod → Completed (callsOf i (made w cls req st es)) body →
          body.flatten ≠ [] → (mhdLookupConnectionValue (req i).qos).isSome → 0 ∉ body.flatten →
          body.flatten.length < 2 ^ 31) := by
  have honce := publishesOnce w cls req st hp
  refine ⟨honce, fun h i body hi hbody hne hq h0 => ?_, fun h => ⟨honce, fun i body hi hbody hne hq h0 p hpub => ?_⟩⟩
  · obtain ⟨p, hps, hpay⟩ := honce.completed i body hi hbody hne hq
    have hwhole := h.whole i body hi hbody hne hq h0 p (by rw [hps]; exact List.mem_singleton_self p)
    exact length_lt_of_handedOver (hpay.symm.trans hwhole)
  · obtain ⟨p', hps, hpay⟩ := honce.completed i body hi hbody hne hq
    rw [hps, List.mem_singleton] at hpub
    rw [hpub, hpay, handedOver_eq_iff]
    exact ⟨h0, h i body hi hbody hne hq h0⟩

def sampleCalls : List (Bool × Call) :=
  [(true, plainCall [] 1), (false, plainCall [] 2), (true, plainCall (bytes "ab") 7), (false, plainCall (bytes "x") 8),
    (true, plainCall (bytes "c") 7), (true, plainCall [] 0)]

theorem sampleCalls_protocol (i : Bool) : Protocol (callsOf i sampleCalls) := by
  cases i with
  | false => exact ⟨[bytes "x"], by decide, by decide⟩
  | true => exact ⟨[bytes "ab", bytes "c"], by decide, by decide⟩

theorem Completed.unique {chunks body body' : List (List Byte)} (h : Completed chunks body)
    (h' : Completed chunks body') : body = body' :=
  List.cons_injective (List.append_inj' (h.2.symm.trans h'.2) rfl).1

theorem completed_publishes_once_sample :
    (∃ p, publishesOf true (serveAll .long64 sampleHandle (fun _ => sampleRequest qosOne) (freshServer ⟨∅, ∅⟩)
        sampleCalls).out = [p] ∧ p.payload = bytes "abc") ∧
      publishesOf false (serveAll .long64 sampleHandle (fun _ => sampleRequest qosOne) (freshServer ⟨∅, ∅⟩)
        sampleCalls).out = [] := by
  have htrue : Completed (callsOf true (made .long64 sampleHandle (fun _ => sampleRequest qosOne) ⟨∅, ∅⟩ sampleCalls))
      [bytes "ab", bytes "c"] := ⟨by decide, by decide +kernel⟩
  have hfalse : ∀ body, ¬ Completed (callsOf false (made .long64 sampleHandle (fun _ => sampleRequest qosOne) ⟨∅, ∅⟩
      sampleCalls)) body := by
    rintro body ⟨_, hb⟩
    have hl : callsOf false (made .long64 sampleHandle (fun _ => sampleRequest qosOne) ⟨∅, ∅⟩ sampleCalls) =
        [[], bytes "x"] := by decide +kernel
    have hlast := congrArg List.getLast? (hl.symm.trans hb)
    rw [callSequence, List.getLast?_concat] at hlast
    exact absurd hlast (by decide)
  have hbodies := (completed_publishes_once_iff .long64 sampleHandle (fun _ => sampleRequest qosOne) ⟨∅, ∅⟩
    (fun i _ => sampleCalls_protocol i)).2.mpr fun i body _ hbody _ _ _ => by
      cases i with
      | false => exact absurd hbody (hfalse body)
      | true =>
        rw [hbody.unique htrue]
        decide
  refine ⟨?_, hbodies.incomplete false rfl fun h => h.elim hfalse⟩
  obtain ⟨p, hps, -⟩ := hbodies.completed true _ rfl htrue (by decide) rfl
  have hp : p ∈ [p] := List.mem_singleton_self p
  rw [← hps] at hp
  exact ⟨p, hps, hbodies.whole true _ rfl htrue (by decide) rfl (by decide) p hp⟩

/-! ## A request on its own -/

section
variable {ι : Type} [DecidableEq ι] (w : LongWidth) (cls : MqttClientHandle) (req : ι → Request)

theorem callsOf_single (i : ι) (cs : List Call) : callsOf i (cs.map (Prod.mk i)) = cs.map Call.chunk := by
  simp [callsOf, List.filterMap_map]

/-- A server that is called for one request only does what the request does on the same heap. -/
theorem serveAll_single (i : ι) (cs : List Call) (s : Server ι) :
    serveAll w cls req s (cs.map (Prod.mk i)) =
      (cs.foldlM (answerCall w cls (req i)) ⟨s.store, s.conCls i⟩).mapOut (Prod.mk i) >>= fun t =>
        pure ⟨t.store, Function.update s.conCls i t.conCls⟩ := by
  induction cs generalizing s with
  | nil =>
    have hsame := (Function.update_eq_self i s.conCls).symm
    exact Proc.ext rfl (congrArg Except.ok (congrArg (Server.mk s.store) hsame))
  | cons c cs ih =>
    have hserve : serve w cls req s (i, c) = (answerCall w cls (req i) ⟨s.store, s.conCls i⟩ c).mapOut (Prod.mk i) >>=
        fun t => pure ⟨t.store, Function.update s.conCls i t.conCls⟩ := by
      rw [serve, answerCall, Proc.mapOut_bind, bind_assoc]
      rfl
    show serve w cls req s (i, c) >>= (fun t => serveAll w cls req t (cs.map (Prod.mk i))) = _
    rw [hserve, bind_assoc, List.foldlM_cons, Proc.mapOut_bind, bind_assoc]
    simp only [pure_bind, ih, Function.update_self, Function.update_idem]

theorem made_of_ok {st : Store} {es : List (ι × Call)} {s : Server ι}
    (h : (serveAll w cls req (freshServer st) es).res = .ok s) : made w cls req st es = es := by
  rw [made, answered, Proc.returned_of_ok _ h]
  exact List.take_of_length_le (Nat.le_succ _)

end

theorem chunk_plainCall (chunk : List Byte) (offer : Addr) : (plainCall chunk offer).chunk = chunk := by
  unfold plainCall Call.chunk
  by_cases h : chunk = []
  · rw [if_pos h, h]
    rfl
  · rw [if_neg h]
    rfl

/-- A request with its body in one chunk. -/
def oneChunk (b : List Byte) : List Call := [plainCall [] 1, plainCall b 2, plainCall [] 0]

section
variable {b : List Byte} (hb : b ≠ [])
include hb

theorem protocol_oneChunk (i : Unit) : Protocol (callsOf i ((oneChunk b).map (Prod.mk ()))) := by
  refine ⟨[b], fun c hc => by rwa [List.mem_singleton.mp hc], ?_⟩
  rw [callsOf_single, oneChunk]
  simp only [List.map_cons, chunk_plainCall, List.map_nil]
  exact List.prefix_rfl

theorem completed_oneChunk (w : LongWidth) : Completed (callsOf () (made w sampleHandle
    (fun _ => sampleRequest qosOne) ⟨∅, ∅⟩ ((oneChunk b).map (Prod.mk ())))) [b] := by
  have hchunk : ∀ c ∈ [plainCall b 2], c.chunk ≠ [] := by
    intro c hc
    rwa [List.mem_singleton.mp hc, chunk_plainCall]
  have hgranted : ∀ c ∈ plainCall [] 1 :: [plainCall b 2], c.granted = true := by
    intro c hc
    simp only [List.mem_cons, List.not_mem_nil, or_false] at hc
    rcases hc with rfl | rfl <;> rfl
  have hpost : (sampleRequest qosOne).method = postMethod := rfl
  obtain ⟨out, t, hrun, -⟩ := answerCalls_complete w sampleHandle hpost ⟨∅, ∅⟩
    (plainCall [] 1) hchunk (chunk_plainCall [] 0) hgranted rfl (List.cons_ne_nil _ _)
  have hres : (serveAll w sampleHandle (fun _ => sampleRequest qosOne) (freshServer ⟨∅, ∅⟩)
      ((oneChunk b).map (Prod.mk ()))).res = .ok ⟨t.store, Function.update (fun _ => none) () t.conCls⟩ := by
    have hrun' : (oneChunk b).foldlM (answerCall w sampleHandle (sampleRequest qosOne)) ⟨⟨∅, ∅⟩, none⟩ =
        ⟨out, .ok t⟩ := hrun
    rw [serveAll_single, freshServer, hrun']
    rfl
  refine ⟨fun c hc => by rwa [List.mem_singleton.mp hc], ?_⟩
  rw [made_of_ok w sampleHandle _ hres, callsOf_single, oneChunk]
  simp only [List.map_cons, chunk_plainCall, List.map_nil]
  rfl

end

/-- More bytes than an `int` counts. -/
def longBody : List Byte := List.replicate (2 ^ 32 + 5) 97

theorem length_longBody : longBody.length = 2 ^ 32 + 5 := List.length_replicate

theorem noNul_longBody : 0 ∉ longBody := fun h => absurd (List.eq_of_mem_replicate h) (by decide)

theorem longBody_ne_nil : longBody ≠ [] := List.ne_nil_of_length_pos (by rw [length_longBody]; omega)

theorem handedOver_longBody : handedOver longBody = List.replicate 5 97 := by
  have hlen : payloadlen longBody = 5 := by
    rw [payloadlen, cstr_eq_self_iff.mpr noNul_longBody, length_longBody]
    decide
  rw [handedOver, hlen, cstr_eq_self_iff.mpr noNul_longBody]
  exact List.take_replicate

theorem handedOver_longBody_ne : handedOver longBody ≠ longBody := fun h => by
  have hlt := length_lt_of_handedOver h
  rw [length_longBody] at hlt
  omega

/-- A body of 4 GiB and 5 bytes is published as its first 5. -/
theorem not_publishesBodies_longBody :
    (∀ i, Protocol (callsOf i ((oneChunk longBody).map (Prod.mk ())))) ∧ 0 ∉ longBody ∧
    Completed (callsOf () (made .long64 sampleHandle (fun _ => sampleRequest qosOne) ⟨∅, ∅⟩
      ((oneChunk longBody).map (Prod.mk ())))) [longBody] ∧
    (∃ p, publishesOf () (serveAll .long64 sampleHandle (fun _ => sampleRequest qosOne) (freshServer ⟨∅, ∅⟩)
      ((oneChunk longBody).map (Prod.mk ()))).out = [p] ∧ p.payload = List.replicate 5 97) ∧
    ∀ payloadOf, ¬ PublishesBodies payloadOf .long64 sampleHandle (fun _ => sampleRequest qosOne) ⟨∅, ∅⟩
      ((oneChunk longBody).map (Prod.mk ())) := by
  have hprotocol := protocol_oneChunk longBody_ne_nil
  have hbody := completed_oneChunk longBody_ne_nil .long64
  have hflat : [longBody].flatten = longBody := List.append_nil _
  have hne : [longBody].flatten ≠ [] := by rw [hflat]; exact longBody_ne_nil
  obtain ⟨p, hps, hpay⟩ := (publishesOnce .long64 sampleHandle (fun _ => sampleRequest qosOne) ⟨∅, ∅⟩
    fun i _ => hprotocol i).completed () [longBody] rfl hbody hne rfl
  rw [hflat] at hpay
  refine ⟨hprotocol, noNul_longBody, hbody, ⟨p, hps, by rw [hpay, handedOver_longBody]⟩, fun f h => ?_⟩
  have hwhole := h.whole () [longBody] rfl hbody hne rfl (by rw [hflat]; exact noNul_longBody) p
    (by rw [hps]; exact List.mem_singleton_self p)
  rw [hflat, hpay] at hwhole
  exact handedOver_longBody_ne hwhole

end Mqrestt
