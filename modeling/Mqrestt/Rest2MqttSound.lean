import Mqrestt.EffectSound
import Mqrestt.Rest2Mqtt

/-!
# The body of one request

`Owns st p b d` is the invariant between the calls: the record at `p` counts the
bytes of `b`, and the buffer at `d` spells `b` up to its first NUL. Each call is
described by what it does to that; the blocks of other requests stay as they are.
-/

namespace Mqrestt
open CSem Mqtt

/-! ## A chunk stored behind the body -/

theorem chunkStores_eq (b : Block) (length : Nat) (data : List Byte) (size : Nat) :
    chunkStores b length data size =
      ((length : Int), 0) :: storesAt length (cstr (data.take size) ++ [0]) := by
  have h0 : scan (applyStores b.bytes [((length : Int), 0)]) (b.size + 1) length = [] := by
    simp [scan]
  simp only [chunkStores, strncat, h0, take_cstr, List.length_nil, Nat.cast_zero, add_zero]

/-- The bytes seen so far, up to their first NUL, and the terminator: what the stores of the
next chunk turn them into. The buffer has just been grown, so nothing is known behind the old
body. -/
theorem spells_chunk {blk : Block} {b chunk : List Byte} (data : List Byte)
    (hd : data.take chunk.length = chunk) (hb : 0 ∉ b → Spells blk.bytes 0 b)
    (hb0 : 0 ∈ b → Spells blk.bytes 0 (cstr b ++ [0])) :
    Spells (applyStores blk.bytes (chunkStores blk b.length data chunk.length)) 0
      (cstr (b ++ chunk) ++ [0]) := by
  rw [chunkStores_eq, hd]
  have houtside : ∀ i : Int, i < b.length →
      applyStores blk.bytes (((b.length : Int), 0) :: storesAt b.length (cstr chunk ++ [0])) i = blk.bytes i := by
    intro i hi
    rw [applyStores_cons, storesAt_outside _ (Or.inl hi), Function.update_of_ne (by simpa using hi.ne)]
  by_cases h : 0 ∈ b
  · rw [cstr_append_of_nul h]
    refine (hb0 h).frame fun i _ hi => houtside i ?_
    have := length_cstr_lt h
    simp only [List.length_append, List.length_singleton] at hi
    omega
  · rw [cstr_append_of_noNul h, List.append_assoc, spells_append]
    refine ⟨(hb h).frame fun i _ hi => houtside i (by omega), ?_⟩
    rw [zero_add, applyStores_cons]
    exact spells_storesAt _ _ _

/-! ## The invariant between the calls -/

inductive Owns (st : Store) (p : Addr) : List Byte → Option Addr → Prop
  | empty : st.records.lookup p = some ⟨0, none⟩ → Owns st p [] none
  | body {b : List Byte} {d : Addr} {blk : Block} : b ≠ [] → st.records.lookup p = some ⟨b.length, some d⟩ →
      st.buffers.lookup d = some blk → blk.size = b.length → Spells blk.bytes 0 (cstr b ++ [0]) →
      Owns st p b (some d)

theorem Owns.frame {st st' : Store} {p : Addr} {b : List Byte} {d : Option Addr} (h : Owns st p b d)
    (hr : st'.records.lookup p = st.records.lookup p)
    (hb : ∀ x, d = some x → st'.buffers.lookup x = st.buffers.lookup x) : Owns st' p b d := by
  cases h with
  | empty h => exact .empty (hr.trans h)
  | body hne h hl hs hsp => exact .body hne (hr.trans h) ((hb _ rfl).trans hl) hs hsp

theorem Owns.record {st : Store} {p : Addr} {b : List Byte} {d : Option Addr} (h : Owns st p b d) :
    st.records.lookup p = some ⟨b.length, d⟩ := by
  cases h with
  | empty h => exact h
  | body _ h _ _ _ => exact h

theorem Owns.buffer_live {st : Store} {p : Addr} {b : List Byte} {d : Addr} (h : Owns st p b (some d)) :
    st.buffers.lookup d ≠ none := by
  cases h with
  | body _ _ hl _ _ => rw [hl]; exact Option.some_ne_none _

/-! ## One call at a time -/

def connectLine (r : Request) : Effect :=
  .log .info "CONNECT, url: %s, type: %s, version: %s "
    [.str (some r.url.str.bytes), .str (some r.method.bytes), .str (some r.version.bytes)]

theorem answer_post (w : LongWidth) (cls : MqttClientHandle) {r : Request} (hm : r.method = postMethod) (c : Call)
    (st : Store) (conCls : Option Addr) :
    answerToConnection w cls r c st conCls =
      ⟨connectLine r :: (answerPost w cls r c st conCls).out, (answerPost w cls r c st conCls).res⟩ := by
  simp [answerToConnection, info, hm, connectLine]

theorem answer_other (w : LongWidth) (cls : MqttClientHandle) {r : Request} (hm : r.method ≠ postMethod) (c : Call)
    (st : Store) (conCls : Option Addr) :
    answerToConnection w cls r c st conCls = ⟨[connectLine r], .ok ⟨.no, c.uploadDataSize, st, conCls⟩⟩ := by
  simp [answerToConnection, info, hm, connectLine]

section
variable (w : LongWidth) (cls : MqttClientHandle) (r : Request)

theorem answerPost_first (st : Store) (c : Call) : answerPost w cls r c st none = firstCall w c st := rfl

theorem answerPost_chunk {c : Call} (hc : c.chunk ≠ []) (st : Store) (p : Addr) :
    answerPost w cls r c st (some p) = continuation c st p := by
  have hsize : c.uploadDataSize ≠ 0 := by simpa [Call.uploadDataSize] using hc
  rw [answerPost, if_pos hsize]

theorem answerPost_last {c : Call} (hc : c.chunk = []) (st : Store) (p : Addr) :
    answerPost w cls r c st (some p) = finalCall w cls r c st p := by
  have hsize : ¬ c.uploadDataSize ≠ 0 := by simp [Call.uploadDataSize, hc]
  rw [answerPost, if_neg hsize]

end

@[simp] theorem publishes_connectLine (r : Request) (out : List Effect) :
    publishes (connectLine r :: out) = publishes out := rfl

@[simp] theorem responses_connectLine (r : Request) (out : List Effect) :
    responses (connectLine r :: out) = responses out := rfl

theorem uploadData_take (c : Call) : (c.uploadData.getD []).take c.chunk.length = c.chunk := by
  unfold Call.uploadData Call.chunk
  cases c.upload with
  | none => rfl
  | some u => simp

theorem quiet_outOfMemory {α : Type} (line n : Nat) : Quiet (outOfMemory line n : Run α).out := by
  simp [outOfMemory, Effect.internal]

theorem quiet_deref {α : Type} (h : Heap α) (a : Addr) : Quiet (deref h a).out := by
  unfold deref
  split <;> exact quiet_nil

theorem quiet_firstCall (w : LongWidth) (c : Call) (st : Store) : Quiet (firstCall w c st).out := by
  refine quiet.bind (quiet_log _ _ _) fun _ _ => quiet.bind ?_ fun _ _ => quiet_nil
  unfold safeMalloc
  split
  · exact quiet_nil
  · exact quiet_outOfMemory _ _

theorem quiet_safeRealloc (h : Heap Block) (offer : Option Addr) (fill : Mem) (ptr : Option Addr) (n line : Nat) :
    Quiet (safeRealloc h offer fill ptr n line).out := by
  unfold safeRealloc
  split
  · exact quiet_nil
  · exact quiet_outOfMemory _ _

theorem quiet_continuation (c : Call) (st : Store) (p : Addr) : Quiet (continuation c st p).out := by
  refine quiet.bind (quiet_log _ _ _) fun _ _ => quiet.bind (quiet_deref _ _) fun inc _ => ?_
  split
  · refine quiet.bind (quiet_deref _ _) fun _ _ => quiet.bind (quiet_safeRealloc _ _ _ _ _ _) fun r _ => ?_
    exact quiet.bind (quiet_deref _ _) fun b _ => quiet.bind (quiet_writes _ _ _) fun _ _ => quiet_nil
  · refine quiet.bind (quiet_safeRealloc _ _ _ _ _ _) fun r _ => ?_
    exact quiet.bind (quiet_deref _ _) fun b _ => quiet.bind (quiet_writes _ _ _) fun _ _ => quiet_nil

theorem firstCall_refused (w : LongWidth) {c : Call} (st : Store) (ha : c.env.alloc = none) :
    (firstCall w c st).res = .error (.exit 1) ∧ bodyWrites (firstCall w c st).out = [] := by
  simp [firstCall, info, safeMalloc, Heap.malloc, ha, outOfMemory, bodyWrites, Effect.bodyWrite?]

theorem firstCall_returns (w : LongWidth) {c : Call} (st : Store) {o : Addr} (ha : c.env.alloc = some o) :
    ∃ p records, (firstCall w c st).res = .ok ⟨.yes, c.uploadDataSize, { st with records }, some p⟩ ∧
      bodyWrites (firstCall w c st).out = [] ∧
      Owns { st with records } p [] none ∧ st.records.lookup p = none ∧
      ∀ q, q ≠ p → records.lookup q = st.records.lookup q := by
  obtain ⟨⟨p, records⟩, hm⟩ : ∃ r, st.records.malloc c.env.alloc { length := 0, data := none } = some r := by
    rw [ha]; exact ⟨_, rfl⟩
  obtain ⟨hn, hl, hne⟩ := Heap.malloc_spec hm
  refine ⟨p, records, ?_, ?_, .empty hl, hn, hne⟩
  · simp [firstCall, info, safeMalloc, hm]
  · simp [firstCall, info, safeMalloc, hm, bodyWrites, Effect.bodyWrite?]

section
variable {st : Store} {p : Addr} {b : List Byte} {d : Option Addr} {c : Call} (h : Owns st p b d)
include h

theorem continuation_refused_eq (ha : c.env.alloc = none) : continuation c st p =
    ⟨[.log .info "GOT POST continuation, size %zd,  data: %s" [.num c.uploadDataSize, .str (c.uploadData.map cstr)],
      .stderr "[%s:%lu]Out of memory(%lu bytes)\n" [.str (some (bytes "utils.c")), .num 109,
        .num (b.length + c.chunk.length : Nat)]], .error (.exit 1)⟩ := by
  have hr := h.record
  cases h with
  | empty _ =>
    simp [continuation, info, deref, hr, safeRealloc, Heap.realloc, Heap.malloc, ha, outOfMemory,
      Call.uploadDataSize]
  | body _ _ hl _ _ =>
    simp [continuation, info, deref, hr, hl, safeRealloc, Heap.realloc, Heap.malloc, ha, outOfMemory,
      Call.uploadDataSize]

theorem continuation_refused (ha : c.env.alloc = none) :
    (continuation c st p).res = .error (.exit 1) ∧ bodyWrites (continuation c st p).out = [] := by
  rw [continuation_refused_eq h ha]
  exact ⟨rfl, rfl⟩

theorem Owns.spells_grown {n : Nat} (hn : b.length ≤ n) (fill : Mem) :
    (0 ∉ b → Spells (Block.grown (d.bind st.buffers.lookup) n fill).bytes 0 b) ∧
      (0 ∈ b → Spells (Block.grown (d.bind st.buffers.lookup) n fill).bytes 0 (cstr b ++ [0])) := by
  cases h with
  | empty _ => exact ⟨fun _ => trivial, fun h0 => by cases h0⟩
  | @body b d blk _ _ hl hs hsp =>
    simp only [Option.bind_some, hl]
    refine ⟨fun h0 => ?_, fun h0 => ?_⟩
    · rw [cstr_eq_self_iff.mpr h0, spells_append] at hsp
      exact Block.spells_grown hsp.1 hs.ge (hs.le.trans hn)
    · have := length_cstr_lt h0
      exact Block.spells_grown hsp (by simp only [List.length_append, List.length_singleton]; omega)
        (hs.le.trans hn)

theorem continuation_eq {d' : Addr} {buffers : Heap Block} {blk : Block}
    (hre : st.buffers.realloc c.env.alloc c.env.fill d (b.length + c.chunk.length) = some (d', buffers))
    (hl : buffers.lookup d' = some blk) :
    continuation c st p =
      ⟨.log .info "GOT POST continuation, size %zd,  data: %s" [.num c.uploadDataSize, .str (c.uploadData.map cstr)] ::
          writes .incomingData blk.size (chunkStores blk b.length (c.uploadData.getD []) c.chunk.length),
        .ok ⟨.yes, 0, ⟨st.records.insert p ⟨b.length + c.chunk.length, some d'⟩, buffers.insert d' { blk with
          bytes := applyStores blk.bytes (chunkStores blk b.length (c.uploadData.getD []) c.chunk.length) }⟩,
          some p⟩⟩ := by
  have hrec := h.record
  cases d with
  | none => simp [continuation, info, deref, hrec, safeRealloc, Call.uploadDataSize, hre, hl]
  | some x =>
    obtain ⟨old, hold⟩ := Option.ne_none_iff_exists'.mp h.buffer_live
    simp [continuation, info, deref, hrec, hold, safeRealloc, Call.uploadDataSize, hre, hl]

theorem continuation_returns (hc : c.chunk ≠ []) {o : Addr} (ha : c.env.alloc = some o) :
    ∃ st' d', (continuation c st p).res = .ok ⟨.yes, 0, st', some p⟩ ∧
      bodyWrites (continuation c st p).out =
        (((b.length : Int), 0) :: storesAt b.length (cstr c.chunk ++ [0])).map
          (fun s => (b.length + c.chunk.length, s.1)) ∧
      Owns st' p (b ++ c.chunk) (some d') ∧
      (∀ q, q ≠ p → st'.records.lookup q = st.records.lookup q) ∧
      (∀ x, st.buffers.lookup x ≠ none → some x ≠ d → x ≠ d' ∧ st'.buffers.lookup x = st.buffers.lookup x) ∧
      ∀ x, x ≠ d' → st'.buffers.lookup x ≠ none → st.buffers.lookup x ≠ none ∧ some x ≠ d := by
  obtain ⟨⟨d', buffers⟩, hre⟩ : ∃ r, st.buffers.realloc c.env.alloc c.env.fill d
      (b.length + c.chunk.length) = some r := by
    rw [ha]; exact ⟨_, rfl⟩
  obtain ⟨hl, hlive, hframe, hgone⟩ := Heap.realloc_spec hre
  obtain ⟨hg, hg0⟩ := h.spells_grown (Nat.le_add_right _ c.chunk.length) c.env.fill
  have heq := continuation_eq h hre hl
  have hne : b ++ c.chunk ≠ [] := by simp [hc]
  refine ⟨_, d', by rw [heq], ?_, ?_, ?_, ?_, ?_⟩
  · rw [heq]
    show bodyWrites (writes .incomingData (b.length + c.chunk.length) _) = _
    rw [bodyWrites_writes, chunkStores_eq, uploadData_take]
  · refine .body hne ?_ (AList.lookup_insert _) ?_ ?_
    · rw [List.length_append]; exact AList.lookup_insert _
    · rw [List.length_append]; rfl
    · exact spells_chunk _ (uploadData_take c) hg hg0
  · intro q hq
    exact AList.lookup_insert_ne hq
  · intro x hx hxd
    refine ⟨hlive x hx hxd, ?_⟩
    rw [AList.lookup_insert_ne (hlive x hx hxd)]
    exact hframe x (hlive x hx hxd) hxd
  · intro x hx hlx
    rw [AList.lookup_insert_ne hx] at hlx
    have hxd : some x ≠ d := fun e => hlx (hgone x hx e)
    exact ⟨hframe x hx hxd ▸ hlx, hxd⟩

end

def publishWarning (rc : MosqErr) : List Effect :=
  if rc = .success then [] else [.log .warning "Failed to publish, reason:  %s" [.mosqStrerror rc]]

theorem quiet_publishWarning (rc : MosqErr) : Quiet (publishWarning rc) := by
  unfold publishWarning
  split
  · exact quiet_nil
  · exact quiet_log _ _ _

/-! ## The payload that is handed over -/

theorem handedOver_of_lt {m : List Byte} (h : (cstr m).length < 2 ^ 31) : handedOver m = cstr m := by
  have hle := le_toCInt_iff.mpr h
  exact List.take_of_length_le (by unfold payloadlen; omega)

theorem length_lt_of_handedOver {m : List Byte} (h : handedOver m = m) : m.length < 2 ^ 31 := by
  have hlen := congrArg List.length h
  have hcstr := length_cstr_le m
  rw [handedOver, List.length_take] at hlen
  have hwhole : (cstr m).length = m.length := by omega
  refine le_toCInt_iff.mp ?_
  rw [← hwhole]
  have : ((cstr m).length : Int) ≤ payloadlen m := by
    by_cases hpos : (cstr m).length = 0
    · rw [hpos, payloadlen, hpos]
      decide
    · omega
  exact this

/-- What is handed over is the message itself exactly if it is a C string whose length is an `int`. -/
theorem handedOver_eq_iff {m : List Byte} : handedOver m = m ↔ 0 ∉ m ∧ m.length < 2 ^ 31 := by
  constructor
  · intro h
    refine ⟨fun hnul => ?_, length_lt_of_handedOver h⟩
    rw [← h] at hnul
    exact noNul_cstr m (List.mem_of_mem_take hnul)
  · rintro ⟨hnul, hlen⟩
    have hstr := cstr_eq_self_iff.mpr hnul
    rw [handedOver_of_lt (by rw [hstr]; exact hlen), hstr]

theorem handedOver_cstr (m : List Byte) : handedOver (cstr m) = handedOver m := by
  have hstr : cstr (cstr m) = cstr m := cstr_eq_self_iff.mpr (noNul_cstr m)
  rw [handedOver, handedOver, payloadlen, payloadlen, hstr]

theorem mqttClientPublish_eq (h : MqttClientHandle) (topic m : List Byte) (qos : Int) (rc : MosqErr) :
    mqttClientPublish h topic (some m) qos rc =
      ⟨.log .info "Publishing on topic %s" [.str (some (cstr (topic.drop 1)))] ::
          .publish ⟨cstr (topic.drop 1), handedOver m, qos, rc⟩ :: publishWarning rc, .ok (decide (rc = .success))⟩ := by
  unfold mqttClientPublish publishWarning
  by_cases hs : rc = .success
  · simp [hs, info]
  · simp [hs, info, warning]

def topicOf (r : Request) : List Byte := cstr (r.url.mem.drop 1)

def qosOf (w : LongWidth) (v : CStr) : Int := toCInt (strtol w v.bytes).value

theorem finalCall_noQos_eq (w : LongWidth) (cls : MqttClientHandle) {r : Request} (c : Call) (st : Store) (p : Addr)
    (hq : mhdLookupConnectionValue r.qos = none) :
    finalCall w cls r c st p = ⟨[.log .info "QOS: %s" [.str none]], .error (.nullString .strtol)⟩ := by
  simp [finalCall, info, hq, parseInt]

theorem finalCall_noQos (w : LongWidth) (cls : MqttClientHandle) {r : Request} (c : Call) (st : Store) (p : Addr)
    (hq : mhdLookupConnectionValue r.qos = none) :
    (finalCall w cls r c st p).res = .error (.nullString .strtol) ∧ Quiet (finalCall w cls r c st p).out := by
  rw [finalCall_noQos_eq w cls c st p hq]
  exact ⟨rfl, quiet_log _ _ _⟩

theorem finalCall_noBody_eq (w : LongWidth) (cls : MqttClientHandle) {r : Request} {v : CStr} {st : Store} {p : Addr}
    {d : Option Addr} {c : Call} (h : Owns st p [] d) (hq : mhdLookupConnectionValue r.qos = some v) :
    finalCall w cls r c st p = ⟨[.log .info "QOS: %s" [.str (some v.bytes)],
      .log .info "Publishing on topic %s" [.str (some (topicOf r))]], .error (.nullString .strlen)⟩ := by
  have hrec := h.record
  cases h with
  | empty _ => simp [finalCall, info, hq, parseInt, deref, hrec, mqttClientPublish, topicOf]
  | body hne _ _ _ _ => exact absurd rfl hne

theorem finalCall_noBody (w : LongWidth) (cls : MqttClientHandle) {r : Request} {v : CStr} {st : Store} {p : Addr}
    {d : Option Addr} {c : Call} (h : Owns st p [] d) (hq : mhdLookupConnectionValue r.qos = some v) :
    (finalCall w cls r c st p).res = .error (.nullString .strlen) ∧ Quiet (finalCall w cls r c st p).out := by
  rw [finalCall_noBody_eq w cls h hq]
  exact ⟨rfl, (quiet_cons _ _).mpr ⟨rfl, quiet_log _ _ _⟩⟩

theorem finalCall_eq (w : LongWidth) (cls : MqttClientHandle) {r : Request} {v : CStr} {st : Store} {p : Addr}
    (c : Call) (hq : mhdLookupConnectionValue r.qos = some v) {n : Nat} {d : Addr}
    (hrec : st.records.lookup p = some ⟨n, some d⟩) {blk : Block} (hl : st.buffers.lookup d = some blk) :
    finalCall w cls r c st p =
      ⟨[.log .info "QOS: %s" [.str (some v.bytes)], .log .info "Publishing on topic %s" [.str (some (topicOf r))]] ++
          .publish ⟨topicOf r, handedOver (bodyString blk), qosOf w v, c.env.publish⟩ ::
          (publishWarning c.env.publish ++ [.queueResponse ⟨mhdHttpOk, "text/html", bytes "OK" ++ [0]⟩]),
        .ok ⟨c.env.queueResponse, c.uploadDataSize, ⟨st.records.erase p, st.buffers.erase d⟩, some p⟩⟩ := by
  simp [finalCall, info, hq, parseInt, deref, hrec, hl, mqttClientPublish_eq, topicOf, qosOf]

/-- What the last call does on any heap: it dies quietly, or it publishes once and then answers. -/
theorem finalCall_out (w : LongWidth) (cls : MqttClientHandle) (r : Request) (c : Call) (st : Store) (p : Addr) :
    Quiet (finalCall w cls r c st p).out ∨ ∃ pre m v, mhdLookupConnectionValue r.qos = some v ∧ Quiet pre ∧
      (finalCall w cls r c st p).out = pre ++ .publish ⟨topicOf r, m, qosOf w v, c.env.publish⟩ ::
        (publishWarning c.env.publish ++ [.queueResponse ⟨mhdHttpOk, "text/html", bytes "OK" ++ [0]⟩]) := by
  cases hq : mhdLookupConnectionValue r.qos with
  | none => exact Or.inl (finalCall_noQos w cls c st p hq).2
  | some v =>
    cases hrec : st.records.lookup p with
    | none => left; simp [finalCall, info, hq, parseInt, deref, hrec, Effect.internal]
    | some inc =>
      obtain ⟨n, data⟩ := inc
      cases data with
      | none => left; simp [finalCall, info, hq, parseInt, deref, hrec, mqttClientPublish, Effect.internal]
      | some d =>
        cases hl : st.buffers.lookup d with
        | none => left; simp [finalCall, info, hq, parseInt, deref, hrec, hl, Effect.internal]
        | some blk =>
          right
          rw [finalCall_eq w cls c hq hrec hl]
          exact ⟨_, _, v, rfl, by simp [Effect.internal], rfl⟩

theorem bodyString_of_spells {blk : Block} {b : List Byte} (hs : blk.size = b.length)
    (hsp : Spells blk.bytes 0 (cstr b ++ [0])) : bodyString blk = cstr b := by
  have := length_cstr_le b
  exact scan_of_spells hsp (noNul_cstr b) (by omega)

theorem finalCall_returns (w : LongWidth) (cls : MqttClientHandle) {r : Request} {v : CStr} {st : Store} {p : Addr}
    {b : List Byte} {d : Option Addr} {c : Call} (h : Owns st p b d)
    (hq : mhdLookupConnectionValue r.qos = some v) (hb : b ≠ []) :
    ∃ st', (finalCall w cls r c st p).res = .ok ⟨c.env.queueResponse, c.uploadDataSize, st', some p⟩ ∧
      publishes (finalCall w cls r c st p).out = [⟨topicOf r, handedOver b, qosOf w v, c.env.publish⟩] ∧
      responses (finalCall w cls r c st p).out = [⟨mhdHttpOk, "text/html", bytes "OK" ++ [0]⟩] ∧
      (∀ q, q ≠ p → st'.records.lookup q = st.records.lookup q) ∧
      (∀ x, some x ≠ d → st'.buffers.lookup x = st.buffers.lookup x) ∧
      st'.records.lookup p = none ∧ ∀ x, some x = d → st'.buffers.lookup x = none := by
  cases h with
  | empty _ => exact absurd rfl hb
  | @body _ d blk _ hrec hl hs hsp =>
    have hw := quiet_publishWarning c.env.publish
    have hpay : handedOver (bodyString blk) = handedOver b := by
      rw [bodyString_of_spells hs hsp, handedOver_cstr]
    rw [finalCall_eq w cls c hq hrec hl, hpay]
    refine ⟨⟨st.records.erase p, st.buffers.erase d⟩, rfl, ?_, ?_, ?_, ?_, AList.lookup_erase p _, ?_⟩
    · show _ :: publishes (publishWarning c.env.publish ++ _) = _
      rw [publishes_append, hw.publishes]
      rfl
    · show responses (publishWarning c.env.publish ++ _) = _
      rw [responses_append, hw.responses]
      rfl
    · intro q hq
      exact AList.lookup_erase_ne hq
    · intro x hx
      exact AList.lookup_erase_ne fun e => hx (congrArg some e)
    · rintro x ⟨⟩
      exact AList.lookup_erase d _

theorem answer_out (w : LongWidth) (cls : MqttClientHandle) (r : Request) (c : Call) (st : Store)
    (conCls : Option Addr) :
    Quiet (answerToConnection w cls r c st conCls).out ∨
      ∃ pre m v, mhdLookupConnectionValue r.qos = some v ∧ Quiet pre ∧
      (answerToConnection w cls r c st conCls).out = pre ++ .publish ⟨topicOf r, m, qosOf w v, c.env.publish⟩ ::
        (publishWarning c.env.publish ++ [.queueResponse ⟨mhdHttpOk, "text/html", bytes "OK" ++ [0]⟩]) := by
  have hline : ∀ {out}, Quiet out → Quiet (connectLine r :: out) := fun h => (quiet_cons _ _).mpr ⟨rfl, h⟩
  by_cases hm : r.method = postMethod
  · rw [answer_post w cls hm]
    cases conCls with
    | none => exact Or.inl (hline (quiet_firstCall w c st))
    | some p =>
      by_cases hc : c.chunk = []
      · rw [answerPost_last w cls r hc]
        rcases finalCall_out w cls r c st p with hq | ⟨pre, m, v, hv, hpre, hout⟩
        · exact Or.inl (hline hq)
        · exact Or.inr ⟨connectLine r :: pre, m, v, hv, hline hpre, by rw [hout]; rfl⟩
      · rw [answerPost_chunk w cls r hc]
        exact Or.inl (hline (quiet_continuation c st p))
  · rw [answer_other w cls hm]
    exact Or.inl (hline quiet_nil)

theorem mem_answer {w : LongWidth} {cls : MqttClientHandle} {r : Request} {c : Call} {st : Store}
    {conCls : Option Addr} {e : Effect} (he : e ∈ (answerToConnection w cls r c st conCls).out) :
    e.internal = true ∨
      (∃ m v, mhdLookupConnectionValue r.qos = some v ∧ e = .publish ⟨topicOf r, m, qosOf w v, c.env.publish⟩) ∨
      e = .queueResponse ⟨mhdHttpOk, "text/html", bytes "OK" ++ [0]⟩ := by
  rcases answer_out w cls r c st conCls with hq | ⟨pre, m, v, hv, hpre, hout⟩
  · exact Or.inl (hq e he)
  · rw [hout] at he
    rcases List.mem_append.mp he with he | he
    · exact Or.inl (hpre e he)
    · rcases List.mem_cons.mp he with rfl | he
      · exact Or.inr (Or.inl ⟨m, v, hv, rfl⟩)
      · rcases List.mem_append.mp he with he | he
        · exact Or.inl (quiet_publishWarning _ e he)
        · exact Or.inr (Or.inr (List.mem_singleton.mp he))

theorem answers_iff_publishes (w : LongWidth) (cls : MqttClientHandle) (r : Request) (c : Call) (st : Store)
    (conCls : Option Addr) :
    (∃ a, Effect.queueResponse a ∈ (answerToConnection w cls r c st conCls).out) ↔
      ∃ p, Effect.publish p ∈ (answerToConnection w cls r c st conCls).out := by
  rcases answer_out w cls r c st conCls with hq | ⟨pre, m, v, _, _, hout⟩
  · constructor
    · intro ⟨a, ha⟩
      cases hq _ ha
    · intro ⟨p, hp⟩
      cases hq _ hp
  · rw [hout]
    constructor
    · intro _
      exact ⟨_, List.mem_append_right _ List.mem_cons_self⟩
    · intro _
      exact ⟨_, List.mem_append_right _ (List.mem_cons_of_mem _ (List.mem_append_right _ List.mem_cons_self))⟩

/-! ## Sample calls -/

def localhost : CStr := ⟨bytes "localhost", by decide⟩

def emptyStr : CStr := ⟨[], List.not_mem_nil⟩

def sampleHandle : MqttClientHandle where
  config := {
    label := ⟨bytes "unit", by decide⟩
    topic := none
    brokerHost := localhost
    brokerPort := 1883
    keepalive := 60
    tlsEnabled := false
    cafile := none
    capath := none
    certfile := none
    keyfile := none
    userPwAuthEnabled := false
    user := emptyStr
    pw := emptyStr
    callbackContext := none
    msgCallback := none }
  connected := true

def plainCall (chunk : List Byte) (offer : Addr) : Call where
  upload := if chunk = [] then none else some ⟨chunk, []⟩
  env := { alloc := some offer, fill := fun _ => 170, qos := 0, publish := .success, queueResponse := .yes }

def sampleRequest (qos : QueryArg) : Request where
  url := ⟨⟨bytes "/lamp/on", by decide⟩, []⟩
  method := postMethod
  version := ⟨bytes "HTTP/1.1", by decide⟩
  qos := qos

def qosOne : QueryArg := .value ⟨bytes "1", by decide⟩

end Mqrestt
