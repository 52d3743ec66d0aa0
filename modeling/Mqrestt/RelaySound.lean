import Mqrestt.Relay

/-!
# The server does what it is meant to do

Each call of the access handler is a call of the relay, as long as the record behind
`*con_cls` holds the body of the phase. With the invariant of the shared heap this
carries over to every interleaving: nothing of the heap, of the chunking or of the
other requests is seen from outside.
-/

namespace Mqrestt
open CSem Mqtt

/-! ## What is not seen -/

theorem external_internal {e : Effect} (h : e.internal = true) : e.external? = none := by
  cases e <;> first | rfl | cases h

theorem Quiet.unseen {out : List Effect} (h : Quiet out) : out.filterMap Effect.external? = [] :=
  h.filterMap_nil fun _ => external_internal

theorem view_mapOut_external {α κ κ' : Type} (g : κ → κ') (p : Proc (κ × Effect) Halt α) :
    (p.mapOut (Prod.map g id)).view external? = (p.view external?).mapOut (Prod.map g id) := by
  refine Proc.ext ?_ rfl
  simp only [Proc.view_out, Proc.mapOut_out, List.filterMap_map, List.map_filterMap]
  refine List.filterMap_congr fun e _ => ?_
  cases h : e.2.external? <;> simp [external?, h]

theorem view_tagged {α κ : Type} (k : κ) (p : Run α) :
    (p.mapOut (Prod.mk k)).view external? = (p.view Effect.external?).mapOut (Prod.mk k) := by
  refine Proc.ext ?_ rfl
  simp only [Proc.view_out, Proc.mapOut_out, List.filterMap_map, List.map_filterMap]
  exact List.filterMap_congr fun e _ => rfl

/-! ## One call -/

/-- The memory behind `*con_cls` in a phase. A finished request has none any more. -/
def BodyAt (st : Store) (conCls : Option Addr) : Phase → Prop
  | .idle => conCls = none
  | .receiving b => ∃ p d, conCls = some p ∧ Owns st p b d
  | .finished _ => True

section
variable (w : LongWidth) (cls : MqttClientHandle) (r : Request)

theorem answer_unseen {c : Call} {st : Store} {conCls : Option Addr} (hm : r.method = postMethod)
    {q : Run Answer} (hq : answerPost w cls r c st conCls = q) :
    (answerToConnection w cls r c st conCls).view Effect.external? = q.view Effect.external? := by
  rw [answer_post w cls hm, hq]
  rfl

theorem view_of_quiet {α : Type} {p : Run α} {x : Except Halt α} (hq : Quiet p.out) (hr : p.res = x) :
    p.view Effect.external? = ⟨[], x⟩ := Proc.ext hq.unseen hr

variable {r} (hm : r.method = postMethod) (c : Call)
include hm

theorem first_refines (st : Store) :
    Proc.Sim (fun a ph => BodyAt a.store a.conCls ph ∧ ph = Phase.idle.next c.chunk)
      ((answerToConnection w cls r c st none).view Effect.external?) (relayPost w r .idle c) := by
  rw [answer_unseen w cls r hm (answerPost_first w cls r st c), relayPost]
  have hquiet := quiet_firstCall w c st
  cases ha : c.env.alloc with
  | none =>
    have hg : c.granted = false := by rw [Call.granted, ha]; rfl
    rw [view_of_quiet hquiet (firstCall_refused w st ha).1, hg]
    exact .error [] _
  | some o =>
    have hg : c.granted = true := by rw [Call.granted, ha]; rfl
    obtain ⟨p, records, hr, _, hown, _⟩ := firstCall_returns w st ha
    rw [view_of_quiet hquiet hr, hg]
    exact .ok ⟨⟨p, none, rfl, hown⟩, rfl⟩

section
variable {st : Store} {p : Addr} {b : List Byte} {d : Option Addr} (h : Owns st p b d)
include h

theorem chunk_refines (hc : c.chunk ≠ []) :
    Proc.Sim (fun a ph => BodyAt a.store a.conCls ph ∧ ph = (Phase.receiving b).next c.chunk)
      ((answerToConnection w cls r c st (some p)).view Effect.external?) (relayPost w r (.receiving b) c) := by
  rw [answer_unseen w cls r hm (answerPost_chunk w cls r hc st p), relayPost, if_pos hc, Phase.next, if_neg hc]
  have hquiet := quiet_continuation c st p
  cases ha : c.env.alloc with
  | none =>
    have hg : c.granted = false := by rw [Call.granted, ha]; rfl
    rw [view_of_quiet hquiet (continuation_refused h ha).1, hg]
    exact .error [] _
  | some o =>
    have hg : c.granted = true := by rw [Call.granted, ha]; rfl
    obtain ⟨st', d', hr, _, hown, _⟩ := continuation_returns h hc ha
    rw [view_of_quiet hquiet hr, hg]
    exact .ok ⟨⟨p, some d', rfl, hown⟩, rfl⟩

omit hm in
theorem finalCall_view (hb : b ≠ []) {v : CStr} (hv : mhdLookupConnectionValue r.qos = some v) :
    ∃ st', (finalCall w cls r c st p).view Effect.external? =
      ⟨[.publish ⟨topicOf r, handedOver b, qosOf w v, c.env.publish⟩, .queueResponse okResponse],
        .ok ⟨c.env.queueResponse, c.uploadDataSize, st', some p⟩⟩ := by
  cases h with
  | empty _ => exact absurd rfl hb
  | @body _ d blk _ hrec hl hs hsp =>
    have hpay : handedOver (bodyString blk) = handedOver b := by
      rw [bodyString_of_spells hs hsp, handedOver_cstr]
    rw [finalCall_eq w cls c hv hrec hl, hpay]
    refine ⟨_, Proc.ext ?_ rfl⟩
    show .publish _ :: (publishWarning c.env.publish ++ _).filterMap Effect.external? = _
    rw [List.filterMap_append, (quiet_publishWarning c.env.publish).unseen]
    rfl

theorem last_refines (hc : c.chunk = []) :
    Proc.Sim (fun a ph => BodyAt a.store a.conCls ph ∧ ph = (Phase.receiving b).next c.chunk)
      ((answerToConnection w cls r c st (some p)).view Effect.external?) (relayPost w r (.receiving b) c) := by
  rw [answer_unseen w cls r hm (answerPost_last w cls r hc st p), relayPost, if_neg (not_not.mpr hc), Phase.next,
    if_pos hc]
  cases hv : mhdLookupConnectionValue r.qos with
  | none =>
    obtain ⟨hr, hq⟩ := finalCall_noQos w cls c st p hv
    rw [view_of_quiet hq hr]
    exact .error [] _
  | some v =>
    by_cases hb : b = []
    · subst hb
      obtain ⟨hr, hq⟩ := finalCall_noBody (c := c) w cls h hv
      rw [view_of_quiet hq hr]
      exact .error [] _
    · obtain ⟨st', hview⟩ := finalCall_view w cls c h hb hv
      rw [hview]
      simp only [if_neg hb, Proc.emit_bind]
      exact .ok ⟨trivial, rfl⟩

end

/-- **A call of the handler is a call of the relay.** -/
theorem answer_refines {st : Store} {conCls : Option Addr} {ph : Phase} (h : BodyAt st conCls ph)
    (hopen : ∀ b, ph ≠ .finished b) :
    Proc.Sim (fun a ph' => BodyAt a.store a.conCls ph' ∧ ph' = ph.next c.chunk)
      ((answerToConnection w cls r c st conCls).view Effect.external?) (relayPost w r ph c) := by
  cases ph with
  | idle =>
    obtain rfl : conCls = none := h
    exact first_refines w cls hm c st
  | receiving b =>
    obtain ⟨p, d, rfl, hown⟩ := h
    by_cases hc : c.chunk = []
    · exact last_refines w cls hm c hown hc
    · exact chunk_refines w cls hm c hown hc
  | finished b => exact absurd rfl (hopen b)

end

/-! ## Every interleaving -/

section
variable {ι : Type} [DecidableEq ι] {w : LongWidth} (cls : MqttClientHandle) {req : ι → Request}

/-- The heap that all requests share, against one phase for each of them. -/
structure Mirrors (w : LongWidth) (req : ι → Request) (done : List (ι × Call)) (s : Server ι) (phs : ι → Phase) :
    Prop where
  tracks : ∃ out, Tracks w req done out s
  phase : ∀ i, (req i).method = postMethod → phs i = phaseOf (callsOf i done)

theorem Tracks.holds {done : List (ι × Call)} {out : List (ι × Effect)} {s : Server ι} (h : Tracks w req done out s)
    {k : ι}
    (hk : (req k).method = postMethod) : BodyAt s.store (s.conCls k) (phaseOf (callsOf k done)) := by
  cases hph : phaseOf (callsOf k done) with
  | idle => exact h.idle k hk hph
  | receiving b =>
    obtain ⟨q, e, ho⟩ := h.owned k b hk hph
    exact ⟨q, e, ho.conCls, ho.owns⟩
  | finished b => trivial

/-- A request that gets another call is not finished yet. -/
theorem phaseOf_open {chunks : List (List Byte)} {c : List Byte} (h : Protocol (chunks ++ [c])) (b : List Byte) :
    phaseOf chunks ≠ .finished b := by
  rcases h.of_snoc with rfl | ⟨body, hne, rfl⟩
  · exact Phase.noConfusion
  · rw [phaseOf_started hne]
    exact Phase.noConfusion

theorem relay_eq (phs : ι → Phase) (k : ι) (c : Call) : relay w req phs (k, c) =
    (relayCall w (req k) (phs k) c).mapOut (Prod.mk k) >>= fun ph => pure (Function.update phs k ph) := rfl

theorem Tracks.goesOn {done : List (ι × Call)} {out : List (ι × Effect)} {s : Server ι} (h : Tracks w req done out s)
    {k : ι}
    {c : Call} (hp : (req k).method = postMethod → Protocol (callsOf k (done ++ [(k, c)]))) {a : Answer}
    (ha : (answerToConnection w cls (req k) c s.store (s.conCls k)).res = .ok a) :
    ∃ out', Tracks w req (done ++ [(k, c)]) out' ⟨a.store, Function.update s.conCls k a.conCls⟩ := by
  rcases h.serve cls c hp with ⟨⟨⟨e, he⟩, -⟩, -⟩ | ⟨s', hs', hT, -⟩
  · rw [he] at ha
    cases ha
  · rw [serve_of_ok cls ha] at hs'
    obtain rfl := Except.ok.inj hs'
    exact ⟨_, hT⟩

section
variable {done : List (ι × Call)} {s : Server ι} {phs : ι → Phase} (h : Mirrors w req done s phs) (k : ι) (c : Call)
include h

theorem Mirrors.post (hk : (req k).method = postMethod) (hp : Protocol (callsOf k (done ++ [(k, c)]))) :
    Proc.Sim (Mirrors w req (done ++ [(k, c)])) ((serve w cls req s (k, c)).view external?) (relay w req phs (k, c)) := by
  obtain ⟨⟨out, hT⟩, hphase⟩ := h
  have hopen := hp
  rw [callsOf_snoc_self] at hopen
  have href := answer_refines w cls hk c (hT.holds hk) (phaseOf_open hopen)
  rw [← hphase k hk] at href
  rw [serve, Proc.view_bind, view_tagged, relay_eq, relayCall, if_pos hk]
  refine (href.result.mapOut _).bind fun a ph hab => ?_
  obtain ⟨ha, -, -, hph⟩ := hab
  refine .ok ⟨?_, fun i hi => ?_⟩
  · exact hT.goesOn cls (fun _ => hp) ha
  · by_cases hik : i = k
    · subst hik
      rw [Function.update_self, callsOf_snoc_self, phaseOf_snoc, hph, hphase i hi]
    · rw [Function.update_of_ne hik, callsOf_snoc_ne hik]
      exact hphase i hi

theorem Mirrors.other (hk : (req k).method ≠ postMethod) :
    Proc.Sim (Mirrors w req (done ++ [(k, c)])) ((serve w cls req s (k, c)).view external?) (relay w req phs (k, c)) := by
  obtain ⟨⟨out, hT⟩, hphase⟩ := h
  have ha := answer_other w cls hk c s.store (s.conCls k)
  rw [serve, ha, relay_eq, relayCall, if_neg hk]
  refine .ok ⟨?_, fun i hi => ?_⟩
  · exact hT.goesOn cls (fun hk' => absurd hk' hk) (by rw [ha])
  · have hik : i ≠ k := by
      rintro rfl
      exact hk hi
    rw [Function.update_of_ne hik, callsOf_snoc_ne hik]
    exact hphase i hi

theorem Mirrors.serve (hp : (req k).method = postMethod → Protocol (callsOf k (done ++ [(k, c)]))) :
    Proc.Sim (Mirrors w req (done ++ [(k, c)])) ((serve w cls req s (k, c)).view external?) (relay w req phs (k, c)) := by
  by_cases hk : (req k).method = postMethod
  · exact h.post cls k c hk (hp hk)
  · exact h.other cls k c hk

end

theorem Mirrors.init (st : Store) : Mirrors w req [] (freshServer st) fun _ => .idle where
  tracks := ⟨[], Tracks.init st⟩
  phase _ _ := rfl

theorem Mirrors.serveAll {done : List (ι × Call)} {s : Server ι} {phs : ι → Phase} (h : Mirrors w req done s phs)
    {es : List (ι × Call)} (hp : ∀ i, (req i).method = postMethod → Protocol (callsOf i (done ++ es))) :
    Proc.Sim (Mirrors w req (done ++ es)) ((serveAll w cls req s es).view external?) (es.foldlM (relay w req) phs) := by
  rw [Mqrestt.serveAll, Proc.view_foldlM]
  let R : List (ι × Call) → Server ι → (ι → Phase) → Prop := fun taken => Mirrors w req (done ++ taken)
  have hstep : ∀ taken s phs e, taken ++ [e] <+: es → R taken s phs →
      Proc.Sim (R (taken ++ [e])) ((Mqrestt.serve w cls req s e).view external?) (relay w req phs e) := by
    intro taken s phs e hd hR
    have hpre : done ++ taken ++ [e] <+: done ++ es := by
      rw [List.append_assoc]
      exact (List.prefix_append_right_inj done).mpr hd
    have hone := Mirrors.serve cls hR e.1 e.2 fun hk => (hp _ hk).mono (callsOf_mono _ hpre)
    rw [List.append_assoc] at hone
    exact hone
  have h0 : R [] s phs := by
    show Mirrors w req (done ++ []) s phs
    rw [List.append_nil]
    exact h
  exact Proc.Sim.foldlM_along hstep h0

theorem serveAll_sim (st : Store) {es : List (ι × Call)}
    (hp : ∀ i, (req i).method = postMethod → Protocol (callsOf i es)) :
    Proc.Sim (Mirrors w req es) ((serveAll w cls req (freshServer st) es).view external?) (relayAll w req es) :=
  (Mirrors.init st).serveAll cls hp

/-- **The server refines the relay.** However the calls of the requests are interleaved, the messages and answers
seen from outside are those of the relay, in the same order, and the process ends at the same call for the same
reason or not at all. Each block is taken to have room for the terminator behind it. -/
theorem serveAll_refines (st : Store) {es : List (ι × Call)}
    (hp : ∀ i, (req i).method = postMethod → Protocol (callsOf i es)) :
    (serveAll w cls req (freshServer st) es).out.filterMap external? = (relayAll w req es).out ∧
      ((∃ s phs, (serveAll w cls req (freshServer st) es).res = .ok s ∧ (relayAll w req es).res = .ok phs ∧
          ∀ i, (req i).method = postMethod → phs i = phaseOf (callsOf i es)) ∨
        ∃ e, (serveAll w cls req (freshServer st) es).res = .error e ∧ (relayAll w req es).res = .error e) := by
  obtain ⟨hout, hres⟩ := (serveAll_sim (w := w) cls st hp).of_view
  refine ⟨hout, ?_⟩
  rcases hres with ⟨s, phs, hs, hphs, hm⟩ | herr
  · exact Or.inl ⟨s, phs, hs, hphs, hm.phase⟩
  · exact Or.inr herr

end

theorem serveAll_refines_sample :
    (serveAll .long64 sampleHandle (fun _ => sampleRequest qosOne)
      (freshServer ⟨∅, ∅⟩) sampleCalls).out.filterMap external? =
      [(true, .publish ⟨bytes "lamp/on", bytes "abc", 1, .success⟩), (true, .queueResponse okResponse)] := by
  rw [(serveAll_refines sampleHandle ⟨∅, ∅⟩ fun i _ => sampleCalls_protocol i).1]
  decide +kernel

/-! ## A request on its own -/

section
variable {w : LongWidth}

theorem answerCalls_sim (cls : MqttClientHandle) {r : Request} (st : Store) {cs : List Call}
    (hp : r.method = postMethod → Protocol (cs.map Call.chunk)) :
    Proc.Sim (fun _ _ => True) ((answerCalls w cls r st cs).view Effect.external?) (cs.foldlM (relayCall w r) .idle) := by
  rw [answerCalls, Proc.view_foldlM]
  let R : List Call → Conn → Phase → Prop := fun done s ph =>
    r.method = postMethod → BodyAt s.store s.conCls ph ∧ ph = phaseOf (done.map Call.chunk)
  have h0 : R [] ⟨st, none⟩ .idle := fun _ => ⟨rfl, rfl⟩
  refine (Proc.Sim.foldlM_along (fun done s ph c hd h => ?_) h0).mono fun _ _ _ => trivial
  by_cases hm : r.method = postMethod
  · obtain ⟨hholds, rfl⟩ := h hm
    have hopen := (hp hm).mono (hd.map Call.chunk)
    rw [List.map_append, List.map_singleton] at hopen
    rw [answerCall, Proc.view_bind, relayCall, if_pos hm, ← bind_pure (relayPost w r _ c)]
    refine (answer_refines w cls hm c hholds (phaseOf_open hopen)).bind fun a ph hab => ?_
    obtain ⟨ha, hph⟩ := hab
    refine .ok fun _ => ⟨ha, ?_⟩
    rw [List.map_append, List.map_singleton, phaseOf_snoc]
    exact hph
  · rw [answerCall, answer_other w cls hm, relayCall, if_neg hm]
    exact .ok fun hm' => absurd hm' hm

variable {ι : Type} [DecidableEq ι] {req : ι → Request}

/-- What is seen of one request. -/
def seenOf (i : ι) (out : List (ι × Effect)) : List Effect := (Proc.belonging i out).filterMap Effect.external?

theorem belonging_external (i : ι) (out : List (ι × Effect)) :
    Proc.belonging i (out.filterMap external?) = seenOf i out := by
  unfold seenOf Proc.belonging
  rw [List.filterMap_filterMap, List.filterMap_filterMap]
  refine List.filterMap_congr fun e _ => ?_
  by_cases hi : e.1 = i
  · cases he : e.2.external? <;> simp [external?, he, hi]
  · cases he : e.2.external? <;> simp [external?, he, hi]

theorem callsOf_eq (i : ι) (es : List (ι × Call)) : callsOf i es = (Proc.belonging i es).map Call.chunk := by
  rw [callsOf, Proc.belonging, List.map_filterMap]
  refine List.filterMap_congr fun e _ => ?_
  by_cases hi : e.1 = i <;> simp [hi]

section
variable (cls : MqttClientHandle) (st : Store) {es : List (ι × Call)}
  (hp : ∀ i, (req i).method = postMethod → Protocol (callsOf i es)) {p : Proc (ι × Effect) Halt (Server ι)}
  (hrun : serveAll w cls req (freshServer st) es = p)
include hp hrun

theorem relayAll_apart : (∀ s, p.res = .ok s → ∀ i, ∃ ph,
      (Proc.belonging i es).foldlM (relayCall w (req i)) .idle = ⟨seenOf i p.out, .ok ph⟩) ∧
    ∀ e, p.res = .error e →
      (∃ k, (Proc.belonging k es).foldlM (relayCall w (req k)) .idle = ⟨seenOf k p.out, .error e⟩) ∧
        ∀ i, seenOf i p.out <+: ((Proc.belonging i es).foldlM (relayCall w (req i)) .idle).out := by
  subst hrun
  obtain ⟨hout, hres⟩ := (serveAll_sim (w := w) cls st hp).of_view
  have hapart : Proc.Apart _ _ es (relayAll w req es) :=
    Proc.foldlM_product (fun i => relayCall w (req i)) (fun _ => .idle) es
  simp only [← belonging_external, hout]
  constructor
  · intro s hs i
    rcases hres with ⟨_, phs, _, hphs, _⟩ | ⟨e, he, _⟩
    · exact ⟨phs i, hapart.ok phs hphs i⟩
    · rw [he] at hs
      cases hs
  · intro e he
    rcases hres with ⟨s, _, hs, _⟩ | ⟨e', he', hr⟩
    · rw [hs] at he
      cases he
    · rw [he'] at he
      obtain rfl := Except.error.inj he
      exact hapart.error e' hr

/-- **Requests do not meet.** In every interleaving, what is seen of a request is what is seen of it when it is
served alone, by any client and on any heap, and nobody ends the process who would not have ended it alone. Each block
is taken to have room for the terminator behind it. -/
theorem serve_isolated :
    (∀ s, p.res = .ok s → ∀ i cls' st',
        (∃ s', (answerCalls w cls' (req i) st' (Proc.belonging i es)).res = .ok s') ∧
          seenOf i p.out = (answerCalls w cls' (req i) st' (Proc.belonging i es)).out.filterMap Effect.external?) ∧
      ∀ e, p.res = .error e →
        (∃ k, ∀ cls' st', (answerCalls w cls' (req k) st' (Proc.belonging k es)).res = .error e ∧
          seenOf k p.out = (answerCalls w cls' (req k) st' (Proc.belonging k es)).out.filterMap Effect.external?) ∧
        ∀ i cls' st', seenOf i p.out <+:
          (answerCalls w cls' (req i) st' (Proc.belonging i es)).out.filterMap Effect.external? := by
  obtain ⟨hok, herr⟩ := relayAll_apart cls st hp hrun
  have halone := fun i cls' st' =>
    (answerCalls_sim (w := w) cls' (r := req i) st' fun hi => callsOf_eq i es ▸ hp i hi).of_view
  constructor
  · intro s hs i cls' st'
    obtain ⟨ph, hph⟩ := hok s hs i
    obtain ⟨hout, ⟨s', _, hs', _⟩ | ⟨e, _, he⟩⟩ := halone i cls' st'
    · rw [hph] at hout
      exact ⟨⟨s', hs'⟩, hout.symm⟩
    · rw [hph] at he
      cases he
  · intro e he
    obtain ⟨⟨k, hk⟩, hpre⟩ := herr e he
    refine ⟨⟨k, fun cls' st' => ?_⟩, fun i cls' st' => ?_⟩
    · obtain ⟨hout, ⟨_, ph, _, hph, _⟩ | ⟨e', he', hr⟩⟩ := halone k cls' st'
      · rw [hk] at hph
        cases hph
      · rw [hk] at hr hout
        obtain rfl := Except.error.inj hr
        exact ⟨he', hout.symm⟩
    · rw [(halone i cls' st').1]
      exact hpre i

end

end

theorem serve_isolated_sample : seenOf true (serveAll .long64 sampleHandle (fun _ => sampleRequest qosOne)
      (freshServer ⟨∅, ∅⟩) sampleCalls).out =
    [.publish ⟨bytes "lamp/on", bytes "abc", 1, .success⟩, .queueResponse okResponse] := by
  obtain ⟨s, hs⟩ : ∃ s, (serveAll .long64 sampleHandle (fun _ => sampleRequest qosOne)
    (freshServer ⟨∅, ∅⟩) sampleCalls).res =
      .ok s := ⟨_, rfl⟩
  rw [((serve_isolated sampleHandle ⟨∅, ∅⟩ (fun i _ => sampleCalls_protocol i) rfl).1 s hs true sampleHandle ⟨∅, ∅⟩).2]
  decide +kernel

end Mqrestt
