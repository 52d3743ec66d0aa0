import Mqrestt.ServerSound
import Mqrestt.UtilsSound

/-!
# The QoS of a message

The QoS of a request is a string. `answer_to_connection` publishes with what `parseInt` stored,
and does not look at whether it accepted the string: that is the leading integer of the string,
0 where it has none, cut off at the ends of `long` and reduced to an `int`. The client library
only refuses what is then outside 0..2.
-/

namespace Mqrestt
open CSem Mqtt

def IsQos (q : Int) : Prop := 0 ≤ q ∧ q ≤ 2

/-- The result codes are those of a library that takes no message with another QoS. -/
def RejectsOtherQos {ι : Type} (out : List (ι × Effect)) : Prop :=
  ∀ i p, (i, .publish p) ∈ out → p.rc = .success → IsQos p.qos

/-- Whatever message is accepted for a completed POST request with the argument `v`, in any run, has the
QoS that `v` denotes. -/
def QosAsRequested (w : LongWidth) (v : CStr) : Prop :=
  ∀ (ι : Type) [DecidableEq ι] (cls : MqttClientHandle) (req : ι → Request) (st : Store) (es : List (ι × Call)),
    (∀ i, (req i).method = postMethod → Protocol (callsOf i es)) →
    RejectsOtherQos (serveAll w cls req (freshServer st) es).out →
    ∀ i body, (req i).method = postMethod → mhdLookupConnectionValue (req i).qos = some v →
      Completed (callsOf i es) body →
      ∀ p ∈ publishesOf i (serveAll w cls req (freshServer st) es).out, p.rc = .success →
        Denotes v.bytes p.qos ∧ IsQos p.qos

/-- `v` starts with an integer, and either it is nothing but a QoS, or the low 32 bits of the integer are none. -/
def QosReadable (w : LongWidth) (v : CStr) : Prop :=
  ∃ n, Leads v.bytes n ∧ (Denotes v.bytes n ∧ IsQos n ∨ ¬ IsQos (toCInt (w.clamp n)))

/-! ## What is published -/

theorem IsQos.fits {n : Int} (h : IsQos n) : FitsInt n := by
  obtain ⟨h₀, h₂⟩ := h
  unfold FitsInt
  omega

theorem qosOf_of_leads {v : CStr} {n : Int} (h : Leads v.bytes n) (w : LongWidth) : qosOf w v = toCInt (w.clamp n) := by
  rw [qosOf, strtol_of_leads h]

theorem qosOf_of_fits {v : CStr} {n : Int} (h : Denotes v.bytes n) (hn : FitsInt n) (w : LongWidth) : qosOf w v = n := by
  rw [qosOf_of_leads h.leads, hn.clamp, toCInt_of_small hn.1 hn.2]

/-- A string that is right as it stands gives its QoS; the others are wrong whenever an `int` in 0..2 comes of them. -/
theorem qosReadable_iff (w : LongWidth) (v : CStr) :
    QosReadable w v ↔ (IsQos (qosOf w v) → Denotes v.bytes (qosOf w v)) := by
  constructor
  · rintro ⟨n, hlead, ⟨hd, hq⟩ | hno⟩
    · intro _
      rw [qosOf_of_fits hd hq.fits w]
      exact hd
    · intro hq
      rw [qosOf_of_leads hlead] at hq
      exact absurd hq hno
  · intro h
    by_cases hlead : ∃ n, Leads v.bytes n
    · obtain ⟨n, hlead⟩ := hlead
      refine ⟨n, hlead, ?_⟩
      rw [qosOf_of_leads hlead] at h
      by_cases hq : IsQos (toCInt (w.clamp n))
      · have hd := h hq
        have hn : toCInt (w.clamp n) = n := hd.leads.unique hlead
        rw [hn] at hd hq
        exact Or.inl ⟨hd, hq⟩
      · exact Or.inr hq
    · -- nothing is read, and the QoS is 0
      have h0 : qosOf w v = 0 := by
        rw [qosOf, strtol_of_not_leads hlead]
        rfl
      rw [h0] at h
      exact absurd ⟨0, (h ⟨le_rfl, by decide⟩).leads⟩ hlead

section
variable {ι : Type} [DecidableEq ι] (w : LongWidth) (cls : MqttClientHandle) (req : ι → Request)

theorem publish_qos (s : Server ι) (es : List (ι × Call)) {i : ι} {v : CStr}
    (hv : mhdLookupConnectionValue (req i).qos = some v) {p : Publish}
    (hp : (i, .publish p) ∈ (serveAll w cls req s es).out) : p.qos = qosOf w v := by
  have hQ := Proc.compositional_forall fun e : ι × Effect =>
    ∀ p, e = (i, .publish p) → p.qos = qosOf w v
  refine hQ.foldlM ?_ es s _ hp p rfl
  rintro s ⟨k, c⟩
  refine hQ.bind ?_ fun _ _ => hQ.nil
  rintro e he p rfl
  obtain ⟨e, he, heq⟩ := List.mem_map.mp he
  obtain ⟨rfl, rfl⟩ := Prod.mk.inj heq
  rcases mem_answer he with hi | ⟨m, v', hv', hpub⟩ | hresp
  · cases hi
  · rw [Effect.publish.inj hpub, Option.some.inj (hv.symm.trans hv')]
  · cases hresp

end

theorem mem_publishesOf {ι : Type} [DecidableEq ι] {i : ι} {out : List (ι × Effect)} {p : Publish}
    (h : p ∈ publishesOf i out) : (i, .publish p) ∈ out := by
  obtain ⟨⟨k, e⟩, he, hp⟩ := List.mem_filterMap.mp h
  by_cases hk : k = i
  · subst hk
    cases e <;> simp [Effect.publish?] at hp
    subst hp
    exact he
  · simp [hk] at hp

/-! ## One request -/

def oneRequest : List (Unit × Call) :=
  [((), plainCall [] 1), ((), plainCall (bytes "abc") 2), ((), plainCall [] 3)]

theorem completed_oneRequest : Completed (callsOf () oneRequest) [bytes "abc"] := ⟨by decide, by decide⟩

theorem protocol_oneRequest : Protocol (callsOf () oneRequest) :=
  ⟨[bytes "abc"], by decide, by decide⟩

def oneRun (w : LongWidth) (v : CStr) : Proc (Unit × Effect) Halt (Server Unit) :=
  serveAll w sampleHandle (fun _ => sampleRequest (.value v)) (freshServer ⟨∅, ∅⟩) oneRequest

theorem publishesOf_oneRun (w : LongWidth) (v : CStr) :
    publishesOf () (oneRun w v).out = [⟨bytes "lamp/on", bytes "abc", qosOf w v, .success⟩] := rfl

theorem QosAsRequested.oneRun {w : LongWidth} {v : CStr} (h : QosAsRequested w v) (hq : IsQos (qosOf w v)) :
    Denotes v.bytes (qosOf w v) := by
  have hrejects : RejectsOtherQos (Mqrestt.oneRun w v).out := by
    intro i p hp _
    rw [publish_qos w sampleHandle _ _ _ rfl hp]
    exact hq
  have hp := h Unit sampleHandle (fun _ => sampleRequest (.value v)) ⟨∅, ∅⟩ oneRequest
    (fun _ _ => protocol_oneRequest) hrejects () [bytes "abc"] rfl rfl completed_oneRequest
  exact (hp _ (by rw [← Mqrestt.oneRun, publishesOf_oneRun]; exact List.mem_singleton_self _) rfl).1

/-- **The QoS published is the QoS requested exactly for the readable strings**: those that are a QoS as a
whole, and those that start with an integer of which no QoS is left. The bodies are followed as if the byte behind
each buffer were the buffer's own. -/
theorem qosAsRequested_iff (w : LongWidth) (v : CStr) : QosAsRequested w v ↔ QosReadable w v := by
  rw [qosReadable_iff]
  constructor
  · intro h hq
    exact h.oneRun hq
  · intro h ι _ cls req st es _ hrejects i body _ hv _ p hp hrc
    have hmem := mem_publishesOf hp
    have hq := hrejects i p hmem hrc
    rw [publish_qos w cls req _ _ hv hmem] at hq ⊢
    exact ⟨h hq, hq⟩

def oneAbc : CStr := ⟨bytes "1abc", by decide⟩

/-- A message with QoS 1 is accepted for `1abc`, which denotes nothing, and for 2^32 + 1. -/
theorem not_qosAsRequested_trailing_wrapped :
    (publishesOf () (oneRun .long64 oneAbc).out).map (·.qos) = [1] ∧ ¬ QosAsRequested .long64 oneAbc ∧
    (publishesOf () (oneRun .long64 fourGigaOne).out).map (·.qos) = [1] ∧ ¬ QosAsRequested .long64 fourGigaOne := by
  have hq : IsQos 1 := ⟨by decide, by decide⟩
  refine ⟨rfl, fun h => ?_, rfl, fun h => ?_⟩
  · have hd : Denotes oneAbc.bytes 1 := h.oneRun hq
    exact absurd (denotes_iff.mp hd).1 (by unfold AllDigits; decide)
  · have hd : Denotes fourGigaOne.bytes 1 := h.oneRun hq
    exact absurd (hd.unique denotes_fourGigaOne) (by decide)

end Mqrestt
