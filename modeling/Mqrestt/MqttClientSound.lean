import Mqrestt.Mqtt2RestSound

/-!
# The connected flag

What libmosquitto reports through a handle, and what the handle's flag says of it. A
flag is alive when a connection was established and no loss was reported since; an
operation can miss a loss, and a run keeps the flag alive exactly when none does while
the flag is set.
-/

namespace Mqrestt
open CSem Mqtt

/-! ## What callbacks do -/

def Effect.ofCallback : Effect → Bool
  | .perform .. | .subscribe .. => true
  | e => e.internal

def FromCallback (out : List Effect) : Prop := ∀ e ∈ out, e.ofCallback = true

theorem fromCallback : Proc.Compositional FromCallback := Proc.compositional_forall _

theorem Quiet.fromCallback {out : List Effect} (h : Quiet out) : FromCallback out := by
  intro e he
  have := h e he
  cases e <;> first | rfl | exact this

theorem fromCallback_log (t : LogMsgType) (f : String) (as : List LogArg) :
    FromCallback (Proc.emit (.log t f as) : Run Unit).out := (quiet_log t f as).fromCallback

theorem fromCallback_restPost (w : LongWidth) (config : Mqtt2RestUnitConfiguration) (url : List Byte)
    (payload : Option (List Byte)) (env : CurlEnv) : FromCallback (restPost w config url payload env).out := by
  unfold restPost
  refine fromCallback.bind (fromCallback_log _ _ _) fun _ _ => ?_
  refine fromCallback.bind (quiet_fullUrl w config url env).fromCallback fun m _ => ?_
  refine fromCallback.bind (fromCallback_log _ _ _) fun _ _ => ?_
  have hperf : ∀ req res, FromCallback (Proc.emit (.perform req res) : Run Unit).out := by
    intro req res e he
    cases List.mem_singleton.mp he
    rfl
  split
  · refine fromCallback.bind (hperf _ _) fun _ _ => ?_
    split
    · exact fromCallback.bind (fromCallback_log _ _ _) fun _ _ => fromCallback.nil
    · exact fromCallback.nil
  · exact fromCallback.nil

theorem fromCallback_onMqttMsg (w : LongWidth) (topic : CStrAt) (msg : Option (List Byte))
    (ctx : Option Mqtt2RestUnitConfiguration) (env : CurlEnv) : FromCallback (onMqttMsg w topic msg ctx env).out := by
  unfold onMqttMsg
  refine fromCallback.bind (fromCallback_log _ _ _) fun _ _ => ?_
  cases ctx with
  | none => exact fromCallback.nil
  | some config =>
    cases msg with
    | none => exact fromCallback.bind (fromCallback_restPost w config _ _ env) fun _ _ => fromCallback.nil
    | some m =>
      refine fromCallback.bind (fromCallback_log _ _ _) fun _ _ => ?_
      exact fromCallback.bind (fromCallback_restPost w config _ _ env) fun _ _ => fromCallback.nil

theorem fromCallback_connect (config : MqttClientConfiguration) (result : Int) :
    FromCallback (mqttCbConnect config result).out := by
  unfold mqttCbConnect
  refine fromCallback.bind (fromCallback_log _ _ _) fun _ _ => ?_
  cases config.topic with
  | none => exact fromCallback.nil
  | some topic =>
    intro e he
    simp only [fatal, warning] at he
    split at he
    · cases List.mem_singleton.mp he; rfl
    · split at he <;> · cases List.mem_singleton.mp he; rfl

theorem fromCallback_callback (w : LongWidth) (config : MqttClientConfiguration) (ev : MosqEvent) :
    FromCallback (callback w config ev).out := by
  cases ev with
  | connect result => exact fromCallback_connect config result
  | message msg env =>
    show FromCallback (mqttCbMsg w config msg env).out
    unfold mqttCbMsg
    split
    · exact fromCallback_onMqttMsg w _ _ _ env
    · exact fromCallback.nil
  | subscribe mid qos more =>
    exact fromCallback.bind (fromCallback_log _ _ _) fun _ _ => fromCallback.forM (fun q => fromCallback_log _ _ _) more
  | disconnect rc => exact fromCallback_log _ _ _
  | log level str =>
    intro e he
    cases level <;> · cases List.mem_singleton.mp he; rfl

/-! ## Reports of libmosquitto -/

def MosqErr.isLoss : MosqErr → Bool
  | .connLost | .noConn => true
  | _ => false

def Effect.loses : Effect → Bool
  | .publish p => p.rc.isLoss
  | .loopWrite rc | .loopRead rc | .loopMisc rc => rc.isLoss
  | _ => false

def Effect.establishes : Effect → Bool
  | .connect _ _ _ rc => rc = .success
  | _ => false

/-- A connection was established, and no loss was reported since. -/
def Alive (out : List Effect) : Prop :=
  ∃ a e b, out = a ++ e :: b ∧ e.establishes = true ∧ ∀ x ∈ b, x.loses = false

theorem Alive.append_right {out o : List Effect} (h : Alive out) (ho : ∀ x ∈ o, x.loses = false) :
    Alive (out ++ o) := by
  obtain ⟨a, e, b, rfl, he, hb⟩ := h
  refine ⟨a, e, b ++ o, by simp, he, ?_⟩
  intro x hx
  rcases List.mem_append.mp hx with hx | hx
  · exact hb x hx
  · exact ho x hx

theorem Alive.append_left {o : List Effect} (h : Alive o) (out : List Effect) : Alive (out ++ o) := by
  obtain ⟨a, e, b, rfl, he, hb⟩ := h
  exact ⟨out ++ a, e, b, by simp, he, hb⟩

theorem Alive.no_loss {out o : List Effect} (h : Alive (out ++ o)) (ho : ∀ x ∈ o, x.establishes = false) :
    ∀ x ∈ o, x.loses = false := by
  obtain ⟨a, e, b, hab, he, hb⟩ := h
  have heo : e ∉ o := by
    intro hm
    rw [ho e hm] at he
    cases he
  rcases List.append_eq_append_iff.mp hab with ⟨a', _, ho'⟩ | ⟨c, _, hc⟩
  · exact absurd (by rw [ho']; simp) heo
  · cases c with
    | nil => exact absurd (by rw [List.nil_append] at hc; rw [← hc]; simp) heo
    | cons y c =>
      obtain ⟨_, rfl⟩ := List.cons.inj hc
      intro x hx
      exact hb x (by simp [hx])

theorem FromCallback.neutral {out : List Effect} (h : FromCallback out) :
    ∀ x ∈ out, x.establishes = false ∧ x.loses = false := by
  intro x hx
  have := h x hx
  cases x <;> first | exact ⟨rfl, rfl⟩ | cases this

/-! ## `mqtt_client_connect` -/

theorem connectLoop_returns (h : MqttClientHandle) (rc : Nat → MosqErr) (count k : Nat) :
    ∃ out h', connectLoop h rc count k = ⟨out, .ok h'⟩ ∧ (∀ x ∈ out, x.loses = false) ∧
      ((∃ j < count, rc (k + j) = .success) → h' = { h with connected := true } ∧ Alive out) ∧
      ((¬ ∃ j < count, rc (k + j) = .success) → h' = h ∧ ∀ x ∈ out, x.establishes = false) := by
  induction count generalizing k with
  | zero => exact ⟨[], h, rfl, by simp, by simp, by simp⟩
  | succ count ih =>
    unfold connectLoop
    by_cases hk : rc k = .success
    · simp only [hk, ne_eq, not_true_eq_false, if_false, Proc.emit_bind, Proc.pure_out, Proc.pure_res]
      refine ⟨_, _, rfl, ?_, ?_, ?_⟩
      · simp [Effect.loses]
      · intro _
        exact ⟨rfl, [], _, [], rfl, by simp [Effect.establishes], by simp⟩
      · intro hno
        exact absurd ⟨0, by omega, hk⟩ hno
    · obtain ⟨out, h', hrun, hl, hyes, hno⟩ := ih (k + 1)
      have hiff : (∃ j < count + 1, rc (k + j) = .success) ↔ ∃ j < count, rc (k + 1 + j) = .success := by
        constructor
        · intro hj
          obtain ⟨j, hj, hs⟩ := hj
          cases j with
          | zero => exact absurd hs hk
          | succ j => exact ⟨j, by omega, by rwa [show k + 1 + j = k + (j + 1) by omega]⟩
        · intro hj
          obtain ⟨j, hj, hs⟩ := hj
          exact ⟨j + 1, by omega, by rwa [show k + (j + 1) = k + 1 + j by omega]⟩
      simp only [hk, error, Proc.emit_bind, hrun, ne_eq, not_false_eq_true, if_true]
      refine ⟨_, h', rfl, ?_, ?_, ?_⟩
      · simpa [Effect.loses] using hl
      · intro hj
        obtain ⟨he, ha⟩ := hyes (hiff.mp hj)
        exact ⟨he, ha.append_left [_, _, _]⟩
      · intro hj
        obtain ⟨he, hx⟩ := hno (fun hj' => hj (hiff.mpr hj'))
        exact ⟨he, by simpa [Effect.establishes, hk] using hx⟩

theorem quiet_setUp (config : MqttClientConfiguration) (tlsSet usernamePwSet : MosqErr) :
    Quiet (setUpTls config tlsSet).out ∧ Quiet (setUpUserPw config usernamePwSet).out := by
  have hfatal : ∀ f as, Quiet (fatal f as : Run Unit).out := fun _ _ => quiet_log _ _ _
  constructor
  · unfold setUpTls
    split
    · refine quiet.bind (quiet_log _ _ _) fun _ _ => ?_
      split
      · exact hfatal _ _
      · exact quiet_nil
    · exact quiet_nil
  · unfold setUpUserPw
    split
    · split
      · exact hfatal _ _
      · exact quiet_nil
    · exact quiet_nil

theorem mqttClientConnect_returned {h h' : MqttClientHandle} {env : ConnectEnv} {b : Bool}
    (hr : (mqttClientConnect h env).res = .ok (b, h')) :
    (∀ x ∈ (mqttClientConnect h env).out, x.loses = false) ∧
      ((∃ j < 3, env.connect j = .success) → h'.connected = true ∧ Alive (mqttClientConnect h env).out) ∧
      ((¬ ∃ j < 3, env.connect j = .success) →
        h' = h ∧ ∀ x ∈ (mqttClientConnect h env).out, x.establishes = false) := by
  obtain ⟨q1, q2⟩ := quiet_setUp h.config env.tlsSet env.usernamePwSet
  obtain ⟨out, h₁, hloop, hl, hyes, hno⟩ := connectLoop_returns h env.connect 3 0
  simp only [zero_add] at hyes hno
  unfold mqttClientConnect at hr ⊢
  simp only [hloop, Proc.mk_ok_bind, Proc.pure_out, Proc.pure_res, List.append_nil] at hr ⊢
  obtain ⟨_, _, hr, ho⟩ := Proc.bind_eq_ok hr
  obtain ⟨_, _, hr, ho'⟩ := Proc.bind_eq_ok hr
  simp only [Except.ok.injEq, Prod.mk.injEq] at hr
  obtain ⟨_, rfl⟩ := hr
  have hpre := (quiet.append q1 q2).fromCallback.neutral
  rw [ho, ho', ← List.append_assoc]
  refine ⟨?_, ?_, ?_⟩
  · intro x hx
    rcases List.mem_append.mp hx with hx | hx
    · exact (hpre x hx).2
    · exact hl x hx
  · intro hj
    obtain ⟨he, ha⟩ := hyes hj
    exact ⟨by rw [he], ha.append_left _⟩
  · intro hj
    obtain ⟨he, hx'⟩ := hno hj
    refine ⟨he, ?_⟩
    intro x hx
    rcases List.mem_append.mp hx with hx | hx
    · exact (hpre x hx).1
    · exact hx' x hx

/-! ## `mqtt_client_loop` -/

def loopReports (read write : Bool) (env : LoopEnv) : List Effect :=
  (if write then [.loopWrite env.write.rc] else []) ++ (if read then [.loopRead env.read.rc] else []) ++
    [.loopMisc env.misc.rc]

def decisive (read write : Bool) (env : LoopEnv) : MosqErr :=
  if read then env.read.rc else if write then env.write.rc else .success

def reports (out : List Effect) : List Effect := out.filter fun e => !e.ofCallback

theorem reports_append (a b : List Effect) : reports (a ++ b) = reports a ++ reports b := List.filter_append ..

theorem FromCallback.reports {out : List Effect} (h : FromCallback out) : reports out = [] := by
  apply List.filter_eq_nil_iff.mpr
  intro e he
  simp [h e he]

theorem libCall_returned {w : LongWidth} {config : MqttClientConfiguration} {effect : MosqErr → Effect} {c : LibCall}
    {r : MosqErr} (heff : (effect c.rc).ofCallback = false) (hr : (libCall w config effect c).res = .ok r) :
    r = c.rc ∧ reports (libCall w config effect c).out = [effect c.rc] := by
  unfold libCall at hr ⊢
  obtain ⟨_, _, hr, ho⟩ := Proc.bind_eq_ok hr
  have hcb := (fromCallback.forM (fromCallback_callback w config) c.events).reports
  rw [ho, reports_append, hcb]
  simp only [Proc.emit_bind, Proc.pure_res, Proc.pure_out, Except.ok.injEq] at hr ⊢
  refine ⟨hr.symm, ?_⟩
  simp [reports, heff]

theorem loopCall_returned {w : LongWidth} {config : MqttClientConfiguration} {wanted : Bool}
    {effect : MosqErr → Effect} {c : LibCall} {ret r : MosqErr} (heff : (effect c.rc).ofCallback = false)
    (hr : (loopCall w config wanted effect c ret).res = .ok r) :
    r = (if wanted then c.rc else ret) ∧
      reports (loopCall w config wanted effect c ret).out = if wanted then [effect c.rc] else [] := by
  unfold loopCall at hr ⊢
  cases wanted with
  | true => exact libCall_returned heff hr
  | false => exact ⟨(Except.ok.inj hr).symm, rfl⟩

theorem isLoss_iff (rc : MosqErr) : rc.isLoss = true ↔ rc = .connLost ∨ rc = .noConn := by
  cases rc <;> simp [MosqErr.isLoss]

theorem mqttClientLoop_returned {w : LongWidth} {h h' : MqttClientHandle} {read write : Bool} {env : LoopEnv}
    (hr : (mqttClientLoop w h read write env).res = .ok h') :
    reports (mqttClientLoop w h read write env).out = loopReports read write env ∧
      h' = if (decisive read write env).isLoss then { h with connected := false } else h := by
  unfold mqttClientLoop at hr ⊢
  obtain ⟨r₁, h₁, hr, o₁⟩ := Proc.bind_eq_ok hr
  obtain ⟨r₂, h₂, hr, o₂⟩ := Proc.bind_eq_ok hr
  obtain ⟨r₃, h₃, hr, o₃⟩ := Proc.bind_eq_ok hr
  obtain ⟨e₁, p₁⟩ := loopCall_returned rfl h₁
  obtain ⟨e₂, p₂⟩ := loopCall_returned rfl h₂
  obtain ⟨_, p₃⟩ := libCall_returned rfl h₃
  have hd : r₂ = decisive read write env := by rw [e₂, e₁]; rfl
  rw [o₁, o₂, o₃, reports_append, reports_append, reports_append, p₁, p₂, p₃]
  refine ⟨?_, ?_⟩
  · simp [loopReports, reports]
  · rw [← hd, ← Except.ok.inj hr]
    simp only [isLoss_iff]

theorem forall_reports {P : Effect → Prop} (hP : ∀ x, x.ofCallback = true → P x) {out : List Effect} :
    (∀ x ∈ out, P x) ↔ ∀ x ∈ reports out, P x := by
  constructor
  · intro h x hx
    exact h x (List.mem_of_mem_filter hx)
  · intro h x hx
    by_cases hc : x.ofCallback = true
    · exact hP x hc
    · exact h x (List.mem_filter.mpr ⟨hx, by simpa using hc⟩)

theorem establishes_of_callback (x : Effect) (h : x.ofCallback = true) : x.establishes = false := by
  cases x <;> first | rfl | cases h

theorem loses_of_callback (x : Effect) (h : x.ofCallback = true) : x.loses = false := by
  cases x <;> first | rfl | cases h

/-! ## Runs of operations -/

def HandleOp.missesLoss : HandleOp → Bool
  | .connect _ => false
  | .publish _ _ _ rc => rc.isLoss
  | .loop read write env => (loopReports read write env).any Effect.loses && !(decisive read write env).isLoss

theorem publish_returned {w : LongWidth} {h h' : MqttClientHandle} {topic : List Byte} {msg : Option (List Byte)}
    {qos : Int} {rc : MosqErr} (hr : ((HandleOp.publish topic msg qos rc).exec w h).res = .ok h') :
    h' = h ∧ ∃ p : Publish, p.rc = rc ∧ reports ((HandleOp.publish topic msg qos rc).exec w h).out = [.publish p] := by
  simp only [HandleOp.exec] at hr ⊢
  cases msg with
  | none => simp [mqttClientPublish, info] at hr
  | some m =>
    rw [mqttClientPublish_eq, Proc.mk_ok_bind] at hr ⊢
    refine ⟨(Except.ok.inj hr).symm, ⟨cstr (topic.drop 1), handedOver m, qos, rc⟩, rfl, ?_⟩
    show _ :: reports (publishWarning rc ++ []) = _
    rw [List.append_nil, (quiet_publishWarning rc).fromCallback.reports]

/-- An operation that took `h` to `h'`: it sets the flag with a connection behind it, or it
establishes nothing, and then a flag that is still set has outlived a loss exactly where one was
missed. -/
def HandleOp.Accounted (op : HandleOp) (h h' : MqttClientHandle) (out : List Effect) : Prop :=
  op.missesLoss = false ∧ h'.connected = true ∧ Alive out ∨
    (∀ x ∈ out, x.establishes = false) ∧ (h'.connected = true → h.connected = true) ∧
      (h.connected = true → op.missesLoss = true → h'.connected = true ∧ ¬ ∀ x ∈ out, x.loses = false) ∧
      (h'.connected = true → op.missesLoss = false → ∀ x ∈ out, x.loses = false)

section
variable {w : LongWidth} {h h' : MqttClientHandle}

theorem connect_accounted {env : ConnectEnv} (hr : ((HandleOp.connect env).exec w h).res = .ok h') :
    (HandleOp.connect env).Accounted h h' ((HandleOp.connect env).exec w h).out := by
  unfold HandleOp.exec at hr ⊢
  obtain ⟨⟨b, h₁⟩, hc, hr, ho⟩ := Proc.bind_eq_ok hr
  simp only [Proc.pure_res, Except.ok.injEq, Proc.pure_out, List.append_nil] at hr ho
  subst hr
  obtain ⟨hl, hyes, hno⟩ := mqttClientConnect_returned hc
  rw [ho]
  by_cases hj : ∃ j < 3, env.connect j = .success
  · exact Or.inl ⟨rfl, hyes hj⟩
  · obtain ⟨rfl, he⟩ := hno hj
    exact Or.inr ⟨he, id, fun _ hm => absurd hm (by simp [HandleOp.missesLoss]), fun _ _ => hl⟩

theorem publish_accounted {topic : List Byte} {msg : Option (List Byte)} {qos : Int} {rc : MosqErr}
    (hr : ((HandleOp.publish topic msg qos rc).exec w h).res = .ok h') :
    (HandleOp.publish topic msg qos rc).Accounted h h' ((HandleOp.publish topic msg qos rc).exec w h).out := by
  obtain ⟨rfl, p, hp, hrep⟩ := publish_returned hr
  right
  rw [forall_reports establishes_of_callback, forall_reports loses_of_callback, hrep]
  refine ⟨by simp [Effect.establishes], id, ?_, ?_⟩
  · intro hc hm
    refine ⟨hc, ?_⟩
    simpa [Effect.loses, hp, HandleOp.missesLoss] using hm
  · intro _ hm
    simpa [Effect.loses, hp, HandleOp.missesLoss] using hm

theorem loop_accounted {read write : Bool} {env : LoopEnv}
    (hr : ((HandleOp.loop read write env).exec w h).res = .ok h') :
    (HandleOp.loop read write env).Accounted h h' ((HandleOp.loop read write env).exec w h).out := by
  obtain ⟨hrep, hh⟩ := mqttClientLoop_returned hr
  right
  rw [forall_reports establishes_of_callback, forall_reports loses_of_callback]
  unfold HandleOp.exec HandleOp.missesLoss
  rw [hrep]
  have hest : ∀ x ∈ loopReports read write env, x.establishes = false := by
    cases read <;> cases write <;> simp [loopReports, Effect.establishes]
  have hany : (loopReports read write env).any Effect.loses = false ↔
      ∀ x ∈ loopReports read write env, x.loses = false := by
    simp only [List.any_eq_false, Bool.not_eq_true]
  by_cases hd : (decisive read write env).isLoss = true
  · rw [if_pos hd] at hh
    subst hh
    refine ⟨hest, ?_, ?_, ?_⟩
    · intro hc; cases hc
    · intro _ hm; simp [hd] at hm
    · intro hc; cases hc
  · rw [if_neg hd] at hh
    subst hh
    simp only [hd, Bool.not_false, Bool.and_true]
    refine ⟨hest, id, fun hc hm => ⟨hc, fun hall => ?_⟩, fun _ hm => hany.mp hm⟩
    rw [hany.mpr hall] at hm
    cases hm

theorem exec_accounted {op : HandleOp} (hr : (op.exec w h).res = .ok h') :
    op.Accounted h h' (op.exec w h).out := by
  cases op with
  | connect env => exact connect_accounted hr
  | publish topic msg qos rc => exact publish_accounted hr
  | loop read write env => exact loop_accounted hr

end

/-- Whenever the flag is set, after any number of the operations, a connection was established and
no loss was reported since. -/
def FlagAlive (w : LongWidth) (h₀ : MqttClientHandle) (ops : List HandleOp) : Prop :=
  ∀ (done : List HandleOp) out h, done <+: ops → done.foldlM (HandleOp.exec w) h₀ = ⟨out, .ok h⟩ →
    h.connected = true → Alive out

theorem FlagAlive.no_miss {w : LongWidth} {h₀ : MqttClientHandle} {ops : List HandleOp} (hf : FlagAlive w h₀ ops)
    (done : List HandleOp) {op : HandleOp} {h h' : MqttClientHandle} (hpre : done ++ [op] <+: ops)
    (hrun : (done.foldlM (HandleOp.exec w) h₀).res = .ok h) (hstep : (op.exec w h).res = .ok h')
    (hc : h.connected = true) : op.missesLoss = false := by
  by_contra hm
  have hm : op.missesLoss = true := by simpa using hm
  rcases exec_accounted hstep with ⟨hno, _⟩ | ⟨hest, _, hmiss, _⟩
  · rw [hno] at hm; cases hm
  · obtain ⟨hc', hloss⟩ := hmiss hc hm
    have hwhole : (done ++ [op]).foldlM (HandleOp.exec w) h₀ =
        ⟨(done.foldlM (HandleOp.exec w) h₀).out ++ (op.exec w h).out, .ok h'⟩ := by
      rw [Proc.foldlM_snoc, Proc.bind_of_ok hrun, hstep]
    exact hloss ((hf _ _ h' hpre hwhole hc').no_loss hest)

/-- **The flag outlives no loss exactly when no operation misses one while the flag is set.** -/
theorem flagAlive_iff (w : LongWidth) {config : MqttClientConfiguration} {env : InitEnv} {h₀ : MqttClientHandle}
    (hinit : (mqttClientInit config env).res = .ok h₀) (ops : List HandleOp) :
    FlagAlive w h₀ ops ↔
      ∀ (done : List HandleOp) op h h', done ++ [op] <+: ops → (done.foldlM (HandleOp.exec w) h₀).res = .ok h →
        (op.exec w h).res = .ok h' → h.connected = true → op.missesLoss = false := by
  have h0 : h₀.connected = false := by
    unfold mqttClientInit at hinit
    rw [Proc.emit_bind] at hinit
    dsimp only at hinit
    split at hinit
    · cases hinit
    · split at hinit
      · cases hinit
      · rw [← Except.ok.inj hinit]
  constructor
  · intro hf done op h h' hpre hrun hstep hc
    exact hf.no_miss done hpre hrun hstep hc
  · intro hcond done
    -- by induction on the operations done, the last one first
    induction done using List.reverseRecOn with
    | nil =>
      intro out h _ hrun hc
      cases hrun
      rw [h0] at hc; cases hc
    | append_singleton done op ih =>
      intro out h' hpre hrun hc
      rw [Proc.foldlM_snoc] at hrun
      obtain ⟨h, hd, hstep, ho⟩ := Proc.bind_eq_ok (b := h') (by rw [hrun])
      rw [hrun] at ho
      simp only at ho
      subst ho
      rcases exec_accounted hstep with ⟨_, _, ha⟩ | ⟨_, hback, _, hkeep⟩
      · exact ha.append_left _
      · have hprev := ih _ h ((List.prefix_append _ _).trans hpre) (Proc.ext rfl hd) (hback hc)
        exact hprev.append_right (hkeep hc (hcond done op h h' hpre hd hstep (hback hc)))

def unconnected : MqttClientHandle := { sampleHandle with connected := false }

def connectOk : HandleOp := .connect ⟨.success, .success, fun _ => .success⟩

def loopWith (write read misc : MosqErr) : HandleOp := .loop true true ⟨⟨[], write⟩, ⟨[], read⟩, ⟨[], misc⟩⟩

theorem flagAlive_read_loss :
    FlagAlive .long64 unconnected
      [connectOk, loopWith .success .connLost .noConn, loopWith .noConn .noConn .noConn] := by
  have hinit : (mqttClientInit sampleHandle.config ⟨true, true⟩).res = .ok unconnected := rfl
  refine (flagAlive_iff .long64 hinit _).mpr ?_
  intro done op h h' hpre _ _ _
  have hmem := hpre.subset (List.mem_append_right done (List.mem_singleton_self op))
  simp only [List.mem_cons, List.not_mem_nil, or_false] at hmem
  rcases hmem with rfl | rfl | rfl <;> rfl

theorem not_flagAlive_missed :
    ¬ FlagAlive .long64 unconnected [connectOk, .publish (bytes "/lamp") (some [0]) 1 .noConn] ∧
      ¬ FlagAlive .long64 unconnected [connectOk, loopWith .connLost .success .success] ∧
      ¬ FlagAlive .long64 unconnected [connectOk, loopWith .success .success .connLost] := by
  have hmissed : ∀ {op h'}, (op.exec .long64 sampleHandle).res = .ok h' → op.missesLoss = true →
      ¬ FlagAlive .long64 unconnected [connectOk, op] := by
    intro op h' hstep hm hf
    have hconnect : ([connectOk].foldlM (HandleOp.exec .long64) unconnected).res = .ok sampleHandle := rfl
    rw [hf.no_miss [connectOk] (List.prefix_refl _) hconnect hstep rfl] at hm
    cases hm
  exact ⟨hmissed rfl rfl, hmissed rfl rfl, hmissed rfl rfl⟩

end Mqrestt
