import Mqrestt.ServerSound

/-!
# Requests that are aborted

The record of a request is given back by its last call and by nothing else. As long as every
request that starts gets its last call, the records and buffers in the heap are exactly those of
the requests under way; the first request whose peer goes away in between leaves its blocks behind.
-/

namespace Mqrestt
open CSem Mqtt

section
variable {ι : Type} [DecidableEq ι]

/-! ## Events -/

def ServerEvent.call? : ServerEvent ι → Option (ι × Call)
  | .call i c => some (i, c)
  | .abort _ => none

def callsIn (evs : List (ServerEvent ι)) : List (ι × Call) := evs.filterMap ServerEvent.call?

variable (w : LongWidth) (cls : MqttClientHandle) (req : ι → Request)

/-- What libmicrohttpd promises: the calls of a POST request come in order, and none after its abort. -/
structure WellFormed (evs : List (ServerEvent ι)) : Prop where
  protocol : ∀ i, (req i).method = postMethod → Protocol (callsOf i (callsIn evs))
  silent : ∀ a i b, evs = a ++ .abort i :: b → callsOf i (callsIn b) = []

structure UnderWay (evs : List (ServerEvent ι)) (i : ι) : Prop where
  post : (req i).method = postMethod
  started : callsOf i (callsIn evs) ≠ []
  incomplete : ¬ ∃ body, Completed (callsOf i (callsIn evs)) body
  alive : .abort i ∉ evs

/-- The live records are those of the requests under way, one each, and the live buffers are those
that these records point to, one each. -/
structure HeapExact (evs : List (ServerEvent ι)) (s : Server ι) : Prop where
  has : ∀ i, UnderWay req evs i → ∃ a r, s.conCls i = some a ∧ s.store.records.lookup a = some r ∧
    ∀ d, r.data = some d → s.store.buffers.lookup d ≠ none
  records : ∀ a, s.store.records.lookup a ≠ none → ∃ i, UnderWay req evs i ∧ s.conCls i = some a
  buffers : ∀ d, s.store.buffers.lookup d ≠ none → ∃ i a r, UnderWay req evs i ∧ s.conCls i = some a ∧
    s.store.records.lookup a = some r ∧ r.data = some d
  apart : ∀ i j, UnderWay req evs i → UnderWay req evs j → i ≠ j → ∀ a b r r', s.conCls i = some a → s.conCls j = some b →
    s.store.records.lookup a = some r → s.store.records.lookup b = some r' →
    a ≠ b ∧ ∀ d, r.data = some d → r'.data ≠ some d

def freshHeap : Store := ⟨∅, ∅⟩

structure NoOrphans (evs : List (ServerEvent ι)) : Prop where
  exact : ∀ pre s, pre <+: evs → (serveEvents w cls req (freshServer freshHeap) pre).res = .ok s → HeapExact req pre s
  safe : (serveEvents w cls req (freshServer freshHeap) evs).res ≠ .error .freedPointer

/-! ## Aborts do nothing -/

theorem serveEvents_eq (s : Server ι) (evs : List (ServerEvent ι)) :
    serveEvents w cls req s evs = serveAll w cls req s (callsIn evs) := by
  induction evs generalizing s with
  | nil => rfl
  | cons ev evs ih =>
    cases ev with
    | call i c => exact congrArg (serve w cls req s (i, c) >>= ·) (funext ih)
    | abort i => exact ih s

omit [DecidableEq ι] in
theorem callsIn_append (as bs : List (ServerEvent ι)) : callsIn (as ++ bs) = callsIn as ++ callsIn bs :=
  List.filterMap_append

variable {w cls req}

theorem WellFormed.mono {as bs : List (ServerEvent ι)} (h : WellFormed req bs) (hp : as <+: bs) : WellFormed req as := by
  constructor
  · intro i hi
    exact (h.protocol i hi).mono (callsOf_mono i (hp.filterMap _))
  · rintro a i b rfl
    obtain ⟨c, rfl⟩ := hp
    have hb := h.silent a i (b ++ c) (by simp)
    rw [callsIn_append, callsOf_append] at hb
    exact (List.append_eq_nil_iff.mp hb).1

/-! ## Runs without aborts of requests under way -/

theorem Covered.init : Covered req [] (freshServer freshHeap) where
  records _ h := absurd rfl h
  buffers _ h := absurd rfl h

variable (w cls) in
theorem serveAll_covered {es : List (ι × Call)} (hp : ∀ i, (req i).method = postMethod → Protocol (callsOf i es)) :
    (∃ out s, serveAll w cls req (freshServer freshHeap) es = ⟨out, .ok s⟩ ∧ Tracks w req es out s ∧
      Covered req es s) ∨
    ∃ e, (serveAll w cls req (freshServer freshHeap) es).res = .error e ∧ e ≠ .freedPointer := by
  have hpre : ∀ {done : List (ι × Call)} {k c}, done ++ [(k, c)] <+: es → (req k).method = postMethod →
      Protocol (callsOf k (done ++ [(k, c)])) := fun hd hk => (hp _ hk).mono (callsOf_mono _ hd)
  have hstep : ∀ (done : List (ι × Call)) out s e s', done ++ [e] <+: es →
      Tracks w req done out s ∧ Covered req done s → (serve w cls req s e).res = .ok s' →
      Tracks w req (done ++ [e]) (out ++ (serve w cls req s e).out) s' ∧ Covered req (done ++ [e]) s' := by
    rintro done out s ⟨k, c⟩ s' hd ⟨hT, hC⟩ hs
    rcases hT.serve cls c (hpre hd) with ⟨hdies, -⟩ | ⟨t, ht, hT', hC'⟩
    · obtain ⟨e, he⟩ := (serve_of_dies cls hdies).1
      rw [he] at hs
      cases hs
    · rw [ht] at hs
      cases hs
      exact ⟨hT', hC' hC⟩
  obtain ⟨out, s, ⟨hT, hC⟩, hE⟩ := Proc.run_inv (serve w cls req) _ ⟨Tracks.init freshHeap, Covered.init⟩ hstep
  cases hE with
  | all hdone hrun =>
    rw [hdone] at hT hC
    exact .inl ⟨out, s, hrun, hT, hC⟩
  | halted e rest x his herr hrun =>
    obtain ⟨k, c⟩ := e
    refine .inr ⟨x, by rw [serveAll, hrun], ?_⟩
    rcases hT.serve cls c (hpre ⟨rest, by rw [List.append_assoc]; exact his.symm⟩) with ⟨hdies, hsafe⟩ | ⟨t, ht, -⟩
    · obtain ⟨⟨e, he⟩, -⟩ := hdies
      rw [serve_of_error cls he] at herr
      cases herr
      exact fun h => hsafe (h ▸ he)
    · rw [ht] at herr
      cases herr

variable (w cls req)

def AbortsNone (evs : List (ServerEvent ι)) : Prop :=
  ∀ pre i, pre ++ [.abort i] <+: evs → ¬ UnderWay req pre i

variable {w cls req}

theorem phase_of_underWay {evs : List (ServerEvent ι)} (hwf : WellFormed req evs) {i : ι} (h : UnderWay req evs i) :
    ∃ b, phaseOf (callsOf i (callsIn evs)) = .receiving b := by
  rcases (hwf.protocol i h.post).cases with (hnil | ⟨body, hne, hbody⟩) | hdone
  · exact absurd hnil h.started
  · exact ⟨body.flatten, by rw [hbody, phaseOf_started hne]⟩
  · exact absurd hdone h.incomplete

theorem underWay_of_phase {evs : List (ServerEvent ι)} (hwf : WellFormed req evs) (hn : AbortsNone req evs) {i : ι}
    (hpost : (req i).method = postMethod) {b : List Byte} (hph : phaseOf (callsOf i (callsIn evs)) = .receiving b) :
    UnderWay req evs i := by
  have hstarted : callsOf i (callsIn evs) ≠ [] := by
    intro h
    rw [h] at hph
    cases hph
  have hincomplete : ¬ ∃ body, Completed (callsOf i (callsIn evs)) body := by
    rintro ⟨body, hne, hbody⟩
    rw [hbody, phaseOf_completed hne] at hph
    cases hph
  refine ⟨hpost, hstarted, hincomplete, fun hmem => ?_⟩
  -- up to its first abort the request was under way
  obtain ⟨a, c, hsplit, hfirst⟩ := List.eq_append_cons_of_mem hmem
  have hcalls : callsOf i (callsIn evs) = callsOf i (callsIn a) := by
    have hc := hwf.silent a i c hsplit
    rw [hsplit, callsIn_append, callsOf_append]
    show callsOf i (callsIn a) ++ callsOf i (callsIn c) = _
    rw [hc, List.append_nil]
  refine hn a i ⟨c, by rw [hsplit]; simp⟩ ⟨hpost, ?_, ?_, hfirst⟩
  · rwa [← hcalls]
  · rwa [← hcalls]

theorem AbortsNone.mono {as bs : List (ServerEvent ι)} (h : AbortsNone req bs) (hp : as <+: bs) : AbortsNone req as :=
  fun pre i hpre => h pre i (hpre.trans hp)

theorem heapExact_of_tracks {evs : List (ServerEvent ι)} (hwf : WellFormed req evs) (hn : AbortsNone req evs)
    {out : List (ι × Effect)} {s : Server ι} (hT : Tracks w req (callsIn evs) out s) (hC : Covered req (callsIn evs) s) :
    HeapExact req evs s := by
  have hown {i : ι} (hi : UnderWay req evs i) : ∃ q b e, OwnedBy req (callsIn evs) s i q b e := by
    obtain ⟨b, hb⟩ := phase_of_underWay hwf hi
    obtain ⟨q, e, ho⟩ := hT.owned i b hi.post hb
    exact ⟨q, b, e, ho⟩
  have hway {i : ι} {q : Addr} {b : List Byte} {e : Option Addr} (ho : OwnedBy req (callsIn evs) s i q b e) :
      UnderWay req evs i := underWay_of_phase hwf hn ho.post ho.phase
  refine ⟨?_, ?_, ?_, ?_⟩
  · intro i hi
    obtain ⟨q, b, e, ho⟩ := hown hi
    refine ⟨q, _, ho.conCls, ho.owns.record, ?_⟩
    rintro d rfl
    exact ho.owns.buffer_live
  · intro a ha
    obtain ⟨i, b, e, ho⟩ := hC.records a ha
    exact ⟨i, hway ho, ho.conCls⟩
  · intro d hd
    obtain ⟨i, q, b, ho⟩ := hC.buffers d hd
    exact ⟨i, q, _, hway ho, ho.conCls, ho.owns.record, rfl⟩
  · intro i j hi hj hij a b r r' ha hb hr hr'
    obtain ⟨q, bi, e, ho⟩ := hown hi
    obtain ⟨q', bj, e', ho'⟩ := hown hj
    obtain rfl : q = a := Option.some.inj (ho.conCls.symm.trans ha)
    obtain rfl : q' = b := Option.some.inj (ho'.conCls.symm.trans hb)
    obtain rfl := Option.some.inj (ho.owns.record.symm.trans hr)
    obtain rfl := Option.some.inj (ho'.owns.record.symm.trans hr')
    exact hT.apart i j _ _ _ _ _ _ hij ho ho'

theorem noOrphans_of_abortsNone {evs : List (ServerEvent ι)} (hwf : WellFormed req evs) (hn : AbortsNone req evs) :
    NoOrphans w cls req evs := by
  constructor
  · intro pre s hpre hs
    rw [serveEvents_eq] at hs
    rcases serveAll_covered w cls (hwf.mono hpre).protocol with ⟨out, s', hrun, hT, hC⟩ | ⟨e, he, -⟩
    · rw [hrun] at hs
      cases hs
      exact heapExact_of_tracks (hwf.mono hpre) (hn.mono hpre) hT hC
    · rw [he] at hs
      cases hs
  · rw [serveEvents_eq]
    rcases serveAll_covered w cls hwf.protocol with ⟨out, s, hrun, -⟩ | ⟨e, he, hsafe⟩
    · rw [hrun]
      exact fun h => by cases h
    · rw [he]
      exact fun h => hsafe (Except.error.inj h)

theorem not_noOrphans_of_abort {evs pre : List (ServerEvent ι)} {i : ι} {s : Server ι} (hpre : pre ++ [.abort i] <+: evs)
    (hs : (serveEvents w cls req (freshServer freshHeap) pre).res = .ok s) (hi : UnderWay req pre i) :
    ¬ NoOrphans w cls req evs := by
  intro h
  have hsame : (serveEvents w cls req (freshServer freshHeap) (pre ++ [.abort i])).res = .ok s := by
    rw [serveEvents_eq, callsIn_append]
    show (serveAll w cls req (freshServer freshHeap) (callsIn pre ++ [])).res = _
    rwa [List.append_nil, ← serveEvents_eq]
  have hbefore := h.exact pre s ((List.prefix_append _ _).trans hpre) hs
  have hafter := h.exact _ s hpre hsame
  obtain ⟨a, r, ha, hr, -⟩ := hbefore.has i hi
  obtain ⟨j, hj, hja⟩ := hafter.records a (by rw [hr]; exact Option.some_ne_none r)
  have hij : i ≠ j := by
    rintro rfl
    exact hj.alive (by simp)
  have hcalls : callsIn (pre ++ [.abort i]) = callsIn pre := by
    rw [callsIn_append]
    exact List.append_nil _
  have hj' : UnderWay req pre j :=
    ⟨hj.post, hcalls ▸ hj.started, hcalls ▸ hj.incomplete, fun hmem => hj.alive (List.mem_append_left _ hmem)⟩
  exact (hbefore.apart i j hi hj' hij a a r r ha hja hr hr).1 rfl

/-- **No blocks are orphaned as long as no request is aborted while it is under way**; the first such
abort leaves some behind. -/
theorem noOrphans_unless_aborted {evs : List (ServerEvent ι)} (hwf : WellFormed req evs) :
    (AbortsNone req evs → NoOrphans w cls req evs) ∧
    ∀ pre i s, pre ++ [.abort i] <+: evs → (serveEvents w cls req (freshServer freshHeap) pre).res = .ok s →
      UnderWay req pre i → ¬ NoOrphans w cls req evs :=
  ⟨noOrphans_of_abortsNone hwf, fun _ _ _ hpre hs hi => not_noOrphans_of_abort hpre hs hi⟩

end

def sampleEvents : List (ServerEvent Bool) := sampleCalls.map fun e => .call e.1 e.2

theorem noOrphans_sampleEvents : NoOrphans .long64 sampleHandle (fun _ => sampleRequest qosOne) sampleEvents := by
  have hno (i : Bool) : .abort i ∉ sampleEvents := by
    intro h
    obtain ⟨e, -, he⟩ := List.mem_map.mp h
    cases he
  have hwf : WellFormed (fun _ => sampleRequest qosOne) sampleEvents := by
    refine ⟨fun i _ => sampleCalls_protocol i, fun a i b h => absurd ?_ (hno i)⟩
    rw [h]
    simp
  refine (noOrphans_unless_aborted hwf).1 fun pre i hpre => absurd ?_ (hno i)
  exact hpre.subset (by simp)

def abandoned : List (ServerEvent Unit) := [.call () (plainCall [] 1), .abort ()]

theorem not_noOrphans_abandoned : ¬ NoOrphans .long64 sampleHandle (fun _ => sampleRequest qosOne) abandoned := by
  have hcalls : callsOf () (callsIn [.call () (plainCall [] 1)]) = [[]] := by decide
  have hpre : [.call () (plainCall [] 1)] ++ [.abort ()] <+: abandoned := List.prefix_refl _
  refine not_noOrphans_of_abort hpre rfl ⟨rfl, ?_, ?_, ?_⟩
  · rw [hcalls]
    simp
  · rintro ⟨body, -, hbody⟩
    rw [hcalls] at hbody
    have := congrArg List.length hbody
    simp [callSequence] at this
  · simp

end Mqrestt
