import Mqrestt.RelaySound

/-!
# One heap for the requests of all threads

The threads of a process serve their requests on the same heap. As long as each request is
called as libmicrohttpd documents, the answer to a call depends on the body of the request
alone, so a server on a heap that others use does what a server with a heap of its own does.
-/

namespace Mqrestt
open CSem Mqtt

/-! ## A call on two heaps -/

/-- Two answers that differ in the heap alone. -/
def SameAnswer (a a' : Answer) : Prop := a.ret = a'.ret ∧ a.uploadDataSize = a'.uploadDataSize

section
variable (w : LongWidth) (cls : MqttClientHandle) (r : Request) (c : Call)

theorem firstCall_alike (st st' : Store) : Proc.Sim SameAnswer (firstCall w c st) (firstCall w c st') := by
  refine (Proc.Sim.refl _).bind fun _ _ _ => ?_
  unfold safeMalloc
  cases c.env.alloc with
  | none => exact .error _ _
  | some o => exact .ok ⟨rfl, rfl⟩

section
variable {c} {st st' : Store} {p p' : Addr} {b : List Byte} {d d' : Option Addr} (h : Owns st p b d)
  (h' : Owns st' p' b d')
include h h'

theorem continuation_alike : Proc.Sim SameAnswer (continuation c st p) (continuation c st' p') := by
  cases ha : c.env.alloc with
  | none =>
    rw [continuation_refused_eq h ha, continuation_refused_eq h' ha]
    exact .error _ _
  | some o =>
    have hgranted : ∀ (buffers : Heap Block) (d : Option Addr), ∃ x,
        buffers.realloc c.env.alloc c.env.fill d (b.length + c.chunk.length) = some x := by
      intro buffers d
      rw [ha]
      exact ⟨_, rfl⟩
    obtain ⟨⟨x, buffers⟩, hre⟩ := hgranted st.buffers d
    obtain ⟨⟨x', buffers'⟩, hre'⟩ := hgranted st'.buffers d'
    rw [continuation_eq h hre (Heap.realloc_spec hre).1, continuation_eq h' hre' (Heap.realloc_spec hre').1]
    -- where the bytes go depends on the length of the body alone
    simp only [chunkStores_eq, Block.grown]
    exact .ok ⟨rfl, rfl⟩

theorem finalCall_alike : Proc.Sim SameAnswer (finalCall w cls r c st p) (finalCall w cls r c st' p') := by
  cases hq : mhdLookupConnectionValue r.qos with
  | none =>
    rw [finalCall_noQos_eq w cls c st p hq, finalCall_noQos_eq w cls c st' p' hq]
    exact .error _ _
  | some v =>
    cases h with
    | empty hrec =>
      rw [finalCall_noBody_eq w cls (.empty hrec) hq, finalCall_noBody_eq w cls h' hq]
      exact .error _ _
    | @body b d blk hne hrec hl hs hsp =>
      cases h' with
      | empty _ => exact absurd rfl hne
      | @body _ d' blk' _ hrec' hl' hs' hsp' =>
        rw [finalCall_eq w cls c hq hrec hl, finalCall_eq w cls c hq hrec' hl', bodyString_of_spells hs hsp,
          bodyString_of_spells hs' hsp']
        exact .ok ⟨rfl, rfl⟩

end

/-- **A call does the same on any heap that holds the body.** -/
theorem answer_alike {st st' : Store} {conCls conCls' : Option Addr} {ph : Phase} (hm : r.method = postMethod)
    (h : BodyAt st conCls ph) (h' : BodyAt st' conCls' ph) (hopen : ∀ b, ph ≠ .finished b) :
    Proc.Sim SameAnswer (answerToConnection w cls r c st conCls) (answerToConnection w cls r c st' conCls') := by
  have hpost : ∀ st conCls, answerToConnection w cls r c st conCls =
      Proc.emit (connectLine r) >>= fun _ => answerPost w cls r c st conCls := by
    intro st conCls
    rw [answer_post w cls hm]
    exact Proc.ext rfl rfl
  rw [hpost, hpost]
  refine (Proc.Sim.refl _).bind fun _ _ _ => ?_
  cases ph with
  | idle =>
    obtain rfl : conCls = none := h
    obtain rfl : conCls' = none := h'
    exact firstCall_alike w c st st'
  | receiving b =>
    obtain ⟨p, d, rfl, hown⟩ := h
    obtain ⟨p', d', rfl, hown'⟩ := h'
    by_cases hc : c.chunk = []
    · rw [answerPost_last w cls r hc, answerPost_last w cls r hc]
      exact finalCall_alike w cls r hown hown'
    · rw [answerPost_chunk w cls r hc, answerPost_chunk w cls r hc]
      exact continuation_alike hown hown'
  | finished b => exact absurd rfl (hopen b)

end

/-! ## A server among others -/

section
variable {ι : Type} [DecidableEq ι] (w : LongWidth) (req : ι → Request)

/-- The calls that thread `k` makes for its requests, among those of all threads. -/
def ofThread (k : Nat) (es : List (ι × Call)) : List ((Nat × ι) × Call) := es.map fun e => ((k, e.1), e.2)

theorem callsOf_ofThread_self (k : Nat) (i : ι) (es : List (ι × Call)) :
    callsOf (k, i) (ofThread k es) = callsOf i es := by
  rw [callsOf, ofThread, List.filterMap_map, callsOf]
  refine List.filterMap_congr fun e _ => ?_
  by_cases hi : e.1 = i <;> simp [hi]

theorem callsOf_ofThread_ne {j k : Nat} (hj : j ≠ k) (i : ι) (es : List (ι × Call)) :
    callsOf (j, i) (ofThread k es) = [] := by
  rw [callsOf, ofThread, List.filterMap_map]
  refine List.filterMap_eq_nil_iff.mpr fun e _ => ?_
  simp [hj.symm]

/-- The heap after the calls of all threads; `conCls` has the record of each request. -/
structure OnHeap (calls : List ((Nat × ι) × Call)) (st : Store) (conCls : Nat × ι → Option Addr) : Prop where
  tracks : ∃ out, Tracks w (fun x => req x.2) calls out ⟨st, conCls⟩
  untouched : ∀ x, callsOf x calls = [] → conCls x = none

/-- The server of thread `k`, whose requests have these records, and one that serves them alone. -/
structure Twin (calls : List ((Nat × ι) × Call)) (conCls : Nat × ι → Option Addr) (k : Nat) (own : ι → Option Addr)
    (alone : Server ι) : Prop where
  own : ∀ i, own i = conCls (k, i)
  alone : ∃ done out, Tracks w req done out alone ∧ ∀ i, callsOf i done = callsOf (k, i) calls

/-- Calls of thread `k` lead from one table of records to another. -/
def Reaches (k : Nat) (calls : List ((Nat × ι) × Call)) (conCls₀ : Nat × ι → Option Addr) (s alone : Server ι) : Prop :=
  ∃ conCls, OnHeap w req calls s.store conCls ∧ Twin w req calls conCls k s.conCls alone ∧
    ∀ j i, j ≠ k → conCls (j, i) = conCls₀ (j, i)

section
variable {w req} (cls : MqttClientHandle) {k : Nat} {calls : List ((Nat × ι) × Call)}
  {conCls₀ : Nat × ι → Option Addr} {s alone : Server ι}

theorem Reaches.goesOn {i : ι} {c : Call} {a a' : Answer} (h : Reaches w req k calls conCls₀ s alone)
    (hp : (req i).method = postMethod → Protocol (callsOf (k, i) (calls ++ [((k, i), c)])))
    (ha : (answerToConnection w cls (req i) c s.store (s.conCls i)).res = .ok a)
    (ha' : (answerToConnection w cls (req i) c alone.store (alone.conCls i)).res = .ok a') :
    Reaches w req k (calls ++ [((k, i), c)]) conCls₀ ⟨a.store, Function.update s.conCls i a.conCls⟩
      ⟨a'.store, Function.update alone.conCls i a'.conCls⟩ := by
  obtain ⟨conCls, ⟨⟨out, hT⟩, huntouched⟩, ⟨hown, done, out', hT', hcalls⟩, hothers⟩ := h
  have hsame : ∀ i', callsOf i' (done ++ [(i, c)]) = callsOf (k, i') (calls ++ [((k, i), c)]) := by
    intro i'
    rw [callsOf_append, callsOf_append, hcalls]
    exact congrArg _ (callsOf_ofThread_self k i' [(i, c)]).symm
  rw [hown i] at ha
  have hgoes := hT.goesOn cls (k := (k, i)) (c := c) (a := a) hp ha
  refine ⟨Function.update conCls (k, i) a.conCls, ⟨hgoes, ?_⟩, ⟨fun i' => ?_, done ++ [(i, c)], ?_⟩, ?_⟩
  · intro x hx
    have hne : x ≠ (k, i) := by
      rintro rfl
      rw [callsOf_snoc_self] at hx
      exact List.append_ne_nil_of_right_ne_nil _ (List.cons_ne_nil _ _) hx
    rw [callsOf_snoc_ne hne] at hx
    rw [Function.update_of_ne hne]
    exact huntouched x hx
  · dsimp only
    by_cases hi : i' = i
    · rw [hi, Function.update_self, Function.update_self]
    · rw [Function.update_of_ne hi, Function.update_of_ne fun heq => hi (Prod.mk.inj heq).2, hown]
  · obtain ⟨out'', hT''⟩ := hT'.goesOn cls (fun hm => hsame i ▸ hp hm) ha'
    exact ⟨out'', hT'', hsame⟩
  · intro j i' hj
    rw [Function.update_of_ne fun heq => hj (Prod.mk.inj heq).1]
    exact hothers j i' hj

theorem Reaches.serve {i : ι} {c : Call} (h : Reaches w req k calls conCls₀ s alone)
    (hp : (req i).method = postMethod → Protocol (callsOf (k, i) (calls ++ [((k, i), c)]))) :
    Proc.Sim (Reaches w req k (calls ++ [((k, i), c)]) conCls₀) (serve w cls req s (i, c))
      (serve w cls req alone (i, c)) := by
  have hans : ∃ R, Proc.Sim R (answerToConnection w cls (req i) c s.store (s.conCls i))
      (answerToConnection w cls (req i) c alone.store (alone.conCls i)) := by
    obtain ⟨conCls, ⟨⟨out, hT⟩, -⟩, ⟨hown, done, out', hT', hcalls⟩, -⟩ := h
    by_cases hm : (req i).method = postMethod
    · have hopen := hp hm
      rw [callsOf_snoc_self] at hopen
      have hbody := hT.holds (k := (k, i)) hm
      have halone := hT'.holds hm
      rw [hcalls i] at halone
      rw [hown i]
      exact ⟨SameAnswer, answer_alike w cls (req i) c hm hbody halone (phaseOf_open hopen)⟩
    · rw [answer_other w cls hm, answer_other w cls hm]
      exact ⟨fun _ _ => True, .ok trivial⟩
  obtain ⟨R, hans⟩ := hans
  refine (hans.result.mapOut (Prod.mk i)).bind fun a a' haa => ?_
  exact .ok (h.goesOn cls hp haa.1 haa.2.1)

/-- **A server on a heap that other threads use does what it does alone.** -/
theorem Reaches.serveAll {es : List (ι × Call)} (h : Reaches w req k calls conCls₀ s alone)
    (hp : ∀ i, (req i).method = postMethod → Protocol (callsOf (k, i) (calls ++ ofThread k es))) :
    Proc.Sim (Reaches w req k (calls ++ ofThread k es) conCls₀) (serveAll w cls req s es)
      (serveAll w cls req alone es) := by
  let R : List (ι × Call) → Server ι → Server ι → Prop := fun taken =>
    Reaches w req k (calls ++ ofThread k taken) conCls₀
  have hstep : ∀ taken s alone e, taken ++ [e] <+: es → R taken s alone →
      Proc.Sim (R (taken ++ [e])) (Mqrestt.serve w cls req s e) (Mqrestt.serve w cls req alone e) := by
    intro taken s alone e hd hR
    have hsnoc : calls ++ ofThread k (taken ++ [e]) = calls ++ ofThread k taken ++ [((k, e.1), e.2)] := by
      simp [ofThread]
    have hpre : calls ++ ofThread k (taken ++ [e]) <+: calls ++ ofThread k es :=
      (List.prefix_append_right_inj calls).mpr (hd.map _)
    have hone := Reaches.serve cls hR (i := e.1) (c := e.2) fun hm => by
      rw [← hsnoc]
      exact (hp e.1 hm).mono (callsOf_mono _ hpre)
    rw [← hsnoc] at hone
    exact hone
  have h0 : R [] s alone := by
    show Reaches w req k (calls ++ []) conCls₀ s alone
    rw [List.append_nil]
    exact h
  exact Proc.Sim.foldlM_along hstep h0

end

end

end Mqrestt
