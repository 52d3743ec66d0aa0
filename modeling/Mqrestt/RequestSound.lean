import Mqrestt.Rest2MqttSound

/-!
# One request from its first call to its answer

The calls of one request, on a heap that may hold anything else: which of its
stores stay inside the buffer of the body, and whether it is answered at all.
-/

namespace Mqrestt
open CSem Mqtt

def Call.granted (c : Call) : Bool := c.env.alloc.isSome

section
variable (w : LongWidth) (cls : MqttClientHandle) {r : Request} (hm : r.method = postMethod)
include hm

theorem answerCall_of_ok {st : Store} {conCls : Option Addr} {c : Call} {q : Run Answer} {a : Answer}
    (hq : answerPost w cls r c st conCls = q) (h : q.res = .ok a) :
    answerCall w cls r ⟨st, conCls⟩ c = ⟨connectLine r :: q.out, .ok ⟨a.store, a.conCls⟩⟩ := by
  rw [answerCall, answer_post w cls hm, hq, h]
  simp

theorem answerCall_of_error {st : Store} {conCls : Option Addr} {c : Call} {q : Run Answer} {e : Halt}
    (hq : answerPost w cls r c st conCls = q) (h : q.res = .error e) :
    answerCall w cls r ⟨st, conCls⟩ c = ⟨connectLine r :: q.out, .error e⟩ := by
  rw [answerCall, answer_post w cls hm, hq, h]
  simp

omit hm in
theorem quiet_connectLine {out : List Effect} (h : Quiet out) : Quiet (connectLine r :: out) :=
  (quiet_cons _ _).mpr ⟨rfl, h⟩

theorem answerCall_first (st : Store) {c : Call} (hg : c.granted = true) :
    ∃ out st' p, answerCall w cls r ⟨st, none⟩ c = ⟨out, .ok ⟨st', some p⟩⟩ ∧ Quiet out ∧ bodyWrites out = [] ∧
      Owns st' p [] none := by
  obtain ⟨o, ha⟩ := Option.isSome_iff_exists.mp hg
  obtain ⟨p, records, hr, hw, hown, _⟩ := firstCall_returns w st ha
  exact ⟨_, _, p, answerCall_of_ok w cls hm (answerPost_first w cls r st c) hr,
    quiet_connectLine (quiet_firstCall w c st), hw, hown⟩

theorem answerCall_first_refused (st : Store) {c : Call} (hg : c.granted = false) :
    ∃ out, answerCall w cls r ⟨st, none⟩ c = ⟨out, .error (.exit 1)⟩ ∧ Quiet out ∧ bodyWrites out = [] := by
  obtain ⟨he, hw⟩ := firstCall_refused w st (Option.not_isSome_iff_eq_none.mp (ne_true_of_eq_false hg))
  exact ⟨_, answerCall_of_error w cls hm (answerPost_first w cls r st c) he,
    quiet_connectLine (quiet_firstCall w c st), hw⟩

section
variable {st : Store} {p : Addr} {b : List Byte} {d : Option Addr} {c : Call} (h : Owns st p b d) (hc : c.chunk ≠ [])
include h hc

theorem answerCall_chunk (hg : c.granted = true) :
    ∃ out st' d', answerCall w cls r ⟨st, some p⟩ c = ⟨out, .ok ⟨st', some p⟩⟩ ∧ Quiet out ∧
      bodyWrites out = (((b.length : Int), 0) :: storesAt b.length (cstr c.chunk ++ [0])).map
        (fun s => (b.length + c.chunk.length, s.1)) ∧
      Owns st' p (b ++ c.chunk) (some d') := by
  obtain ⟨o, ha⟩ := Option.isSome_iff_exists.mp hg
  obtain ⟨st', d', hr, hw, hown, _⟩ := continuation_returns h hc ha
  exact ⟨_, st', d', answerCall_of_ok w cls hm (answerPost_chunk w cls r hc st p) hr,
    quiet_connectLine (quiet_continuation c st p), hw, hown⟩

theorem answerCall_chunk_refused (hg : c.granted = false) :
    ∃ out, answerCall w cls r ⟨st, some p⟩ c = ⟨out, .error (.exit 1)⟩ ∧ Quiet out ∧ bodyWrites out = [] := by
  obtain ⟨he, hw⟩ := continuation_refused h (Option.not_isSome_iff_eq_none.mp (ne_true_of_eq_false hg))
  exact ⟨_, answerCall_of_error w cls hm (answerPost_chunk w cls r hc st p) he,
    quiet_connectLine (quiet_continuation c st p), hw⟩

end

end

/-! ## The capacity of the buffer -/

def Inside (e : Nat × Int) : Prop := 0 ≤ e.2 ∧ e.2 < e.1

def Terminated (s : Conn) : Prop :=
  ∃ p inc d blk, s.conCls = some p ∧ s.store.records.lookup p = some inc ∧ inc.data = some d ∧
    s.store.buffers.lookup d = some blk ∧ ∃ i : Nat, i < blk.size ∧ blk.bytes i = 0

theorem Owns.terminated {st : Store} {p : Addr} {b : List Byte} {d : Option Addr} (h : Owns st p b d) (h0 : 0 ∈ b) :
    Terminated ⟨st, some p⟩ := by
  cases h with
  | empty _ => cases h0
  | @body b d blk _ hrec hl hs hsp =>
    have hlt := length_cstr_lt h0
    rw [spells_append] at hsp
    exact ⟨p, _, d, blk, rfl, hrec, rfl, hl, (cstr b).length, by omega, by simpa using hsp.2.1⟩

/-- The terminator of a chunk lands inside the buffer exactly when the chunk has one of its own. -/
theorem inside_chunk_iff (n : Nat) {chunk : List Byte} (hc : chunk ≠ []) :
    (∀ e ∈ (((n : Int), (0 : Byte)) :: storesAt n (cstr chunk ++ [0])).map fun s => (n + chunk.length, s.1), Inside e) ↔
      0 ∈ chunk := by
  have hpos : 0 < chunk.length := List.length_pos_iff.mpr hc
  constructor
  · intro h
    by_contra h0
    have hlast : ((n : Int) + chunk.length) ∈ (storesAt n (cstr chunk ++ [0])).map Prod.fst := by
      rw [mem_storesAt, cstr_eq_self_iff.mpr h0]
      simp
    obtain ⟨s, hs, hi⟩ := List.mem_map.mp hlast
    have := (h _ (List.mem_map.mpr ⟨s, List.mem_cons_of_mem _ hs, rfl⟩)).2
    simp only [hi, Nat.cast_add] at this
    omega
  · intro h0 e he
    have hlt := length_cstr_lt h0
    obtain ⟨s, hs, rfl⟩ := List.mem_map.mp he
    simp only [Inside, Nat.cast_add]
    rcases List.mem_cons.mp hs with rfl | hs
    · omega
    · have := mem_storesAt (cstr chunk ++ [0]) (n : Int) |>.mp (List.mem_map.mpr ⟨s, hs, rfl⟩)
      simp only [List.length_append, List.length_singleton] at this
      omega

section
variable (w : LongWidth) (cls : MqttClientHandle) {r : Request} (hm : r.method = postMethod)

def CapacityKept (r : Request) (st : Store) (first : Call) (cs : List Call) : Prop :=
  (∀ e ∈ bodyWrites (answerCalls w cls r st (first :: cs)).out, Inside e) ∧
    ∀ s ∈ (Proc.visited (answerCall w cls r) ⟨st, none⟩ (first :: cs)).tail, Terminated s

include hm

theorem chunks_inside_iff {cs : List Call} {st : Store} {p : Addr} {b : List Byte} {d : Option Addr}
    (h : Owns st p b d) (hcs : ∀ c ∈ cs, c.chunk ≠ []) :
    (∀ e ∈ bodyWrites (cs.foldlM (answerCall w cls r) ⟨st, some p⟩).out, Inside e) ∧
        (∀ s ∈ Proc.visited (answerCall w cls r) ⟨st, some p⟩ cs, Terminated s) ↔
      ∀ c ∈ cs.takeWhile Call.granted, 0 ∈ c.chunk := by
  induction cs generalizing st b d with
  | nil => simp [bodyWrites, Proc.visited]
  | cons c cs ih =>
    obtain ⟨hc, hcs⟩ := List.forall_mem_cons.mp hcs
    rw [List.foldlM_cons, Proc.visited]
    cases hg : c.granted with
    | false =>
      obtain ⟨out, hs, _, hw⟩ := answerCall_chunk_refused w cls hm h hc hg
      simp [hs, hw, hg]
    | true =>
      obtain ⟨out, st', d', hs, _, hw, hown⟩ := answerCall_chunk w cls hm h hc hg
      have ih := ih hown hcs
      have hterm : 0 ∈ c.chunk → Terminated ⟨st', some p⟩ := fun h0 => hown.terminated (by simp [h0])
      have hin := inside_chunk_iff b.length hc
      rw [← hw] at hin
      simp only [hs, Proc.mk_ok_bind, bodyWrites_append, List.forall_mem_append, List.forall_mem_cons,
        List.takeWhile_cons_of_pos hg, hin]
      constructor
      · rintro ⟨⟨h0, hrest⟩, _, hvis⟩
        exact ⟨h0, ih.mp ⟨hrest, hvis⟩⟩
      · rintro ⟨h0, hall⟩
        obtain ⟨hrest, hvis⟩ := ih.mpr hall
        exact ⟨⟨h0, hrest⟩, hterm h0, hvis⟩

/-- **The buffer is large enough exactly for chunks that bring their own terminator.** -/
theorem capacityKept_iff (st : Store) (first : Call) {cs : List Call} (hcs : ∀ c ∈ cs, c.chunk ≠ []) :
    CapacityKept w cls r st first cs ↔
      ∀ c ∈ ((first :: cs).takeWhile Call.granted).tail, 0 ∈ c.chunk := by
  unfold CapacityKept answerCalls
  rw [List.foldlM_cons, Proc.visited]
  cases hg : first.granted with
  | false =>
    obtain ⟨out, hs, _, hw⟩ := answerCall_first_refused w cls hm st hg
    simp [hs, hw, hg]
  | true =>
    obtain ⟨out, st', p, hs, _, hw, hown⟩ := answerCall_first w cls hm st hg
    have := chunks_inside_iff w cls hm hown hcs
    simpa only [hs, Proc.mk_ok_bind, bodyWrites_append, hw, List.nil_append, List.tail_cons,
      List.takeWhile_cons_of_pos hg] using this

end

theorem capacityKept_nul_chunk :
    CapacityKept .long64 sampleHandle (sampleRequest qosOne) ⟨∅, ∅⟩ (plainCall [] 1) [plainCall [65, 0] 2] :=
  (capacityKept_iff .long64 sampleHandle rfl ⟨∅, ∅⟩ (plainCall [] 1) (by decide)).mpr (by decide)

theorem not_capacityKept_text :
    ¬ CapacityKept .long64 sampleHandle (sampleRequest qosOne) ⟨∅, ∅⟩ (plainCall [] 1) [plainCall (bytes "abc") 2] := by
  intro h
  have hmem : (3, 3) ∈ bodyWrites (answerCalls .long64 sampleHandle (sampleRequest qosOne) ⟨∅, ∅⟩
      [plainCall [] 1, plainCall (bytes "abc") 2]).out := by decide +kernel
  exact absurd (h.1 _ hmem).2 (by decide)

/-! ## The answer -/

def bodyOf (cs : List Call) : List Byte := (cs.map Call.chunk).flatten

theorem bodyOf_eq_nil {cs : List Call} (hcs : ∀ c ∈ cs, c.chunk ≠ []) : bodyOf cs = [] ↔ cs = [] := by
  constructor
  · intro h
    cases cs with
    | nil => rfl
    | cons c cs =>
      have hc : c.chunk ≠ [] := hcs c (by simp)
      simp [bodyOf, hc] at h
  · intro h
    subst h; rfl

def AnsweredSafely (w : LongWidth) (cls : MqttClientHandle) (r : Request) (st : Store) (cs : List Call) : Prop :=
  responses (answerCalls w cls r st cs).out ≠ [] ∧ ∀ f, (answerCalls w cls r st cs).res ≠ .error (.nullString f)

section
variable (w : LongWidth) (cls : MqttClientHandle) {r : Request} (hm : r.method = postMethod)
include hm

section
variable {cs : List Call} {st : Store} {p : Addr} {b : List Byte} {d : Option Addr} (h : Owns st p b d)
  (hcs : ∀ c ∈ cs, c.chunk ≠ [])
include h hcs

theorem chunks_granted (hg : ∀ c ∈ cs, c.granted = true) :
    ∃ out st' d', cs.foldlM (answerCall w cls r) ⟨st, some p⟩ = ⟨out, .ok ⟨st', some p⟩⟩ ∧ Quiet out ∧
      Owns st' p (b ++ bodyOf cs) d' := by
  induction cs generalizing st b d with
  | nil => exact ⟨[], st, d, rfl, quiet_nil, by simpa [bodyOf] using h⟩
  | cons c cs ih =>
    obtain ⟨hc, hcs⟩ := List.forall_mem_cons.mp hcs
    obtain ⟨hgc, hg⟩ := List.forall_mem_cons.mp hg
    obtain ⟨out, st', d', hs, hq, _, hown⟩ := answerCall_chunk w cls hm h hc hgc
    obtain ⟨out', st'', d'', hs', hq', hown'⟩ := ih hown hcs hg
    refine ⟨out ++ out', st'', d'', ?_, quiet.append hq hq', ?_⟩
    · rw [List.foldlM_cons, hs, Proc.mk_ok_bind, hs']
    · simpa [bodyOf] using hown'

theorem chunks_refused (hg : ¬ ∀ c ∈ cs, c.granted = true) :
    ∃ out, cs.foldlM (answerCall w cls r) ⟨st, some p⟩ = ⟨out, .error (.exit 1)⟩ ∧ Quiet out := by
  induction cs generalizing st b d with
  | nil => exact absurd (by simp) hg
  | cons c cs ih =>
    obtain ⟨hc, hcs⟩ := List.forall_mem_cons.mp hcs
    rw [List.foldlM_cons]
    cases hgc : c.granted with
    | false =>
      obtain ⟨out, hs, hq, _⟩ := answerCall_chunk_refused w cls hm h hc hgc
      exact ⟨out, by rw [hs, Proc.mk_error_bind], hq⟩
    | true =>
      obtain ⟨out, st', d', hs, hq, _, hown⟩ := answerCall_chunk w cls hm h hc hgc
      have hg : ¬ ∀ c ∈ cs, c.granted = true := by simpa [hgc] using hg
      obtain ⟨out', hs', hq'⟩ := ih hown hcs hg
      exact ⟨out ++ out', by rw [hs, Proc.mk_ok_bind, hs'], quiet.append hq hq'⟩

end

theorem answerCalls_body (st : Store) (first : Call) {cs : List Call} (hcs : ∀ c ∈ cs, c.chunk ≠ []) :
    ((∀ c ∈ first :: cs, c.granted = true) → ∃ out st' p d, answerCalls w cls r st (first :: cs) =
        ⟨out, .ok ⟨st', some p⟩⟩ ∧ Quiet out ∧ Owns st' p (bodyOf cs) d) ∧
      ((¬ ∀ c ∈ first :: cs, c.granted = true) → ∃ out, answerCalls w cls r st (first :: cs) =
        ⟨out, .error (.exit 1)⟩ ∧ Quiet out) := by
  rw [answerCalls, List.foldlM_cons, List.forall_mem_cons]
  cases hg : first.granted with
  | false =>
    obtain ⟨out, hs, hq, _⟩ := answerCall_first_refused w cls hm st hg
    exact ⟨fun h => absurd h.1 (by simp), fun _ => ⟨out, by rw [hs, Proc.mk_error_bind], hq⟩⟩
  | true =>
    obtain ⟨out, st', p, hs, hq, _, hown⟩ := answerCall_first w cls hm st hg
    rw [hs, Proc.mk_ok_bind]
    constructor
    · intro hgs
      obtain ⟨out', st'', d, hs', hq', hown'⟩ := chunks_granted w cls hm hown hcs hgs.2
      exact ⟨out ++ out', st'', p, d, by rw [hs'], quiet.append hq hq', by simpa using hown'⟩
    · intro hgs
      obtain ⟨out', hs', hq'⟩ := chunks_refused w cls hm hown hcs (by simpa using hgs)
      exact ⟨out ++ out', by rw [hs'], quiet.append hq hq'⟩

section
variable (st : Store) (first : Call) {cs : List Call} (hcs : ∀ c ∈ cs, c.chunk ≠ []) {last : Call}
  (hlast : last.chunk = [])
include hcs hlast

theorem answerCalls_complete (hg : ∀ c ∈ first :: cs, c.granted = true) {v : CStr}
    (hv : mhdLookupConnectionValue r.qos = some v) (hne : cs ≠ []) :
    ∃ out s, answerCalls w cls r st (first :: cs ++ [last]) = ⟨out, .ok s⟩ ∧
      publishes out = [⟨topicOf r, handedOver (bodyOf cs), qosOf w v, last.env.publish⟩] ∧
      responses out = [⟨mhdHttpOk, "text/html", bytes "OK" ++ [0]⟩] := by
  obtain ⟨out, st', p, d, hs, hq, hown⟩ := (answerCalls_body w cls hm st first hcs).1 hg
  have hbody : bodyOf cs ≠ [] := fun h => hne ((bodyOf_eq_nil hcs).mp h)
  obtain ⟨st'', hr, hpub, hresp, _⟩ := finalCall_returns (c := last) w cls hown hv hbody
  rw [answerCalls] at hs
  refine ⟨out ++ connectLine r :: (finalCall w cls r last st' p).out, ⟨st'', some p⟩, ?_, ?_, ?_⟩
  · rw [answerCalls, List.foldlM_append, hs, Proc.mk_ok_bind, List.foldlM_cons,
      answerCall_of_ok w cls hm (answerPost_last w cls r hlast st' p) hr, Proc.mk_ok_bind]
    simp
  · rw [publishes_append, hq.publishes, publishes_connectLine, hpub, List.nil_append]
  · rw [responses_append, hq.responses, responses_connectLine, hresp, List.nil_append]

theorem answerCalls_incomplete (h : ¬ ((∀ c ∈ first :: cs, c.granted = true) ∧
      (mhdLookupConnectionValue r.qos).isSome = true ∧ cs ≠ [])) :
    ∃ out e, answerCalls w cls r st (first :: cs ++ [last]) = ⟨out, .error e⟩ ∧ Quiet out := by
  obtain ⟨hok, hno⟩ := answerCalls_body w cls hm st first hcs
  unfold answerCalls at hok hno
  rw [answerCalls, List.foldlM_append]
  by_cases hg : ∀ c ∈ first :: cs, c.granted = true
  · obtain ⟨out, st', p, d, hs, hq, hown⟩ := hok hg
    have hpost := answerPost_last w cls r hlast st' p
    rw [hs, Proc.mk_ok_bind, List.foldlM_cons]
    cases hv : mhdLookupConnectionValue r.qos with
    | none =>
      obtain ⟨he, hq'⟩ := finalCall_noQos w cls last st' p hv
      rw [answerCall_of_error w cls hm hpost he, Proc.mk_error_bind]
      exact ⟨_, _, rfl, quiet.append hq (quiet_connectLine hq')⟩
    | some v =>
      obtain rfl : cs = [] := by
        by_contra hne
        exact h ⟨hg, by rw [hv]; rfl, hne⟩
      obtain ⟨he, hq'⟩ := finalCall_noBody (c := last) w cls hown hv
      rw [answerCall_of_error w cls hm hpost he, Proc.mk_error_bind]
      exact ⟨_, _, rfl, quiet.append hq (quiet_connectLine hq')⟩
  · obtain ⟨out, hs, hq⟩ := hno hg
    exact ⟨out, _, by rw [hs, Proc.mk_error_bind], hq⟩

/-- **A request is answered safely exactly when it has a `qos` value and a body**, memory
permitting: the byte behind the block, where the terminator goes, included. -/
theorem answeredSafely_iff :
    AnsweredSafely w cls r st (first :: cs ++ [last]) ↔
      (∀ c ∈ first :: cs, c.granted = true) ∧ (mhdLookupConnectionValue r.qos).isSome = true ∧ cs ≠ [] := by
  constructor
  · rintro ⟨hresp, _⟩
    by_contra h
    obtain ⟨out, e, hrun, hq⟩ := answerCalls_incomplete w cls hm st first hcs hlast h
    rw [hrun] at hresp
    exact hresp hq.responses
  · rintro ⟨hg, hv, hne⟩
    obtain ⟨v, hv⟩ := Option.isSome_iff_exists.mp hv
    obtain ⟨out, s, hrun, _, hresp⟩ := answerCalls_complete w cls hm st first hcs hlast hg hv hne
    rw [AnsweredSafely, hrun, hresp]
    exact ⟨List.cons_ne_nil _ _, fun f => by simp⟩

end

end

theorem answeredSafely_sample : AnsweredSafely .long64 sampleHandle (sampleRequest qosOne) ⟨∅, ∅⟩
    [plainCall [] 1, plainCall (bytes "abc") 2, plainCall [] 3] := by
  have hcs : ∀ c ∈ [plainCall (bytes "abc") 2], c.chunk ≠ [] := by decide
  have hlast : (plainCall [] 3).chunk = [] := rfl
  exact (answeredSafely_iff .long64 sampleHandle rfl ⟨∅, ∅⟩ (plainCall [] 1) hcs hlast).mpr ⟨by decide, rfl, by decide⟩

theorem not_answeredSafely_noQos_noBody :
    ¬ AnsweredSafely .long64 sampleHandle (sampleRequest .absent) ⟨∅, ∅⟩
        [plainCall [] 1, plainCall (bytes "abc") 2, plainCall [] 3] ∧
      ¬ AnsweredSafely .long64 sampleHandle (sampleRequest qosOne) ⟨∅, ∅⟩ [plainCall [] 1, plainCall [] 2] := by
  refine ⟨fun h => h.2 .strtol ?_, fun h => h.2 .strlen ?_⟩
  · rfl
  · rfl

end Mqrestt
