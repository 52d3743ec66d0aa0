import Mqrestt.InitConfigSound
import Mqrestt.MainSound
import Mqrestt.UtilsSound

/-!
# The numbers of the configuration

A number of the configuration is a `long` in libconfuse, an `int` in the program, and a port to
listen on is a 16-bit number in libmicrohttpd; the time that the units poll for is computed from
the keepalive in an `int`. No conversion is checked.
-/

namespace Mqrestt
open CSem

/-- What a unit does with the numbers that were configured. -/
structure KeepsNumbers (port keepalive listen : Int) (config : Configuration) (out : List Effect) : Prop where
  connects : ∀ host p k rc, Effect.connect host p k rc ∈ out → p = port
  binds : ∀ p, Effect.startDaemon p ∈ out → (p : Int) = listen
  noOverflow : FitsInt (config.mqttKeepalive.tdiv 2 * 1000)
  polls : ∀ fds timeout, Effect.poll fds timeout ∈ out →
    timeout = keepalive.tdiv 2 * 1000 ∧ 0 < timeout ∧ timeout < 1000 * keepalive

/-- The file is loaded, the units are read from its sections, and each unit either fails before its
first iteration or keeps the numbers, however long it runs. -/
def NumbersKept (port keepalive listen : Int) : Prop :=
  ∀ (filepath : CStr) (dump : Bool) (env : ConfigEnv) (config : FullConfiguration) (file : ConfigFile) (lenv : LoadEnv)
    (units : Units),
    env.options.mqttBrokerPort.getD defaultBrokerPort = port →
    env.options.mqttKeepalive.getD defaultKeepalive = keepalive →
    (loadConfig filepath dump env).res = .ok config → file.common = config.toConfiguration →
    (loadUnits file lenv).res = .ok units →
    (∀ u ∈ units.mqtt2rest, ∀ w setup (envs : List Mqtt2RestEnv),
      (∃ e, (mqtt2restUnitRun w (some { u with commonConfiguration := file.common }) setup []).res = .error e) ∨
        KeepsNumbers port keepalive listen file.common
          (mqtt2restUnitRun w (some { u with commonConfiguration := file.common }) setup envs).out) ∧
    ∀ (i : Nat) (sec : Rest2MqttSection) (u : Rest2MqttUnitConfiguration),
      file.rest2mqtt[i]? = some sec → sec.listenPort = listen → units.rest2mqtt[i]? = some u →
      ∀ (ι : Type) [DecidableEq ι] w (req : ι → Request) st setup (envs : List (Rest2MqttEnv ι)),
        (∃ e, (rest2mqttUnitRun w req st (some { u with commonConfiguration := file.common }) setup []).res = .error e) ∨
          KeepsNumbers port keepalive listen file.common
            ((rest2mqttUnitRun w req st (some { u with commonConfiguration := file.common }) setup envs).out.map Prod.snd)

/-! ## What reaches the libraries -/

theorem mqtt2restUnitRun_uses (w : LongWidth) (u : Mqtt2RestUnitConfiguration) (config : Configuration)
    (listenPort : Int) (setup : SetupEnv) (envs : List Mqtt2RestEnv) :
    ∀ e ∈ (mqtt2restUnitRun w (some { u with commonConfiguration := some config }) setup envs).out,
      e.uses (numbersOf config listenPort) := by
  have hQ := Proc.compositional_forall (Effect.uses (numbersOf config listenPort))
  apply mqtt2restUnitRun_out w hQ (I := fun _ => True)
  · intro out hout e he
    exact (hout e he).2
  · intro h _
    simp [Effect.uses]
  · rfl
  · intros; trivial
  · intros; trivial

theorem rest2mqttUnitRun_uses {ι : Type} [DecidableEq ι] (w : LongWidth) (req : ι → Request) (st : Store)
    {u : Rest2MqttUnitConfiguration} {listenPort : Int} (hl : u.listenPort = listenPort) (config : Configuration)
    (setup : SetupEnv) (envs : List (Rest2MqttEnv ι)) :
    ∀ e ∈ (rest2mqttUnitRun w req st (some { u with commonConfiguration := some config }) setup envs).out.map Prod.snd,
      e.uses (numbersOf config listenPort) := by
  subst hl
  have hQ := Proc.compositional_forall fun e : Option ι × Effect => e.2.uses (numbersOf config u.listenPort)
  have hrun : ∀ e ∈ (rest2mqttUnitRun w req st (some { u with commonConfiguration := some config }) setup envs).out,
      e.2.uses (numbersOf config u.listenPort) := by
    apply rest2mqttUnitRun_out w req hQ (I := fun _ => True)
    · intro out hout e he
      obtain ⟨e', he', rfl⟩ := List.mem_map.mp he
      exact (hout e' he').2
    · intro i cls c st conCls e he
      obtain ⟨e', he', rfl⟩ := List.mem_map.mp he
      rcases mem_answer he' with hi | ⟨_, _, _, rfl⟩ | rfl
      · cases e' <;> trivial
      · trivial
      · trivial
    · intro h _
      simp [Effect.uses]
    · rfl
    · intros; trivial
    · intros; trivial
  intro e he
  obtain ⟨x, hx, rfl⟩ := List.mem_map.mp he
  exact hrun x hx

theorem loadConfig_returned {filepath : CStr} {dump : Bool} {env : ConfigEnv} {config : FullConfiguration}
    (h : (loadConfig filepath dump env).res = .ok config) : config = readConfig env.options := by
  unfold loadConfig at h
  obtain ⟨r, hr, h, -⟩ := Proc.bind_eq_ok h
  cases r with
  | none => cases h
  | some c =>
    cases h
    exact initConfig_some hr

/-! ## The three numbers -/

theorem toCInt_eq_iff {n : Int} : toCInt n = n ↔ FitsInt n := by
  constructor
  · intro h
    have h₁ := @Int.le_bmod n (2 ^ 32) (by decide)
    have h₂ := @Int.bmod_lt n (2 ^ 32) (by decide)
    unfold toCInt at h
    unfold FitsInt
    omega
  · intro h
    exact toCInt_of_small h.1 h.2

theorem listen_eq_iff {n : Int} : (((toCInt n % 2 ^ 16).toNat : Nat) : Int) = n ↔ 0 ≤ n ∧ n < 2 ^ 16 := by
  have hmod : toCInt n % 2 ^ 16 = n % 2 ^ 16 := by
    rw [toCInt, Int.bmod_def]
    split <;> omega
  rw [hmod]
  omega

theorem tdiv_two_pos {n : Int} (h : 0 < n.tdiv 2) : n.tdiv 2 = n / 2 := by
  apply Int.tdiv_eq_ediv_of_nonneg
  by_contra hneg
  have hpos := Int.tdiv_nonneg (show 0 ≤ -n by omega) (show (0 : Int) ≤ 2 by decide)
  rw [Int.neg_tdiv] at hpos
  omega

/-- The time is right exactly for a keepalive of at least two seconds whose half, in milliseconds, is an `int`. -/
theorem timeout_iff {n : Int} :
    (FitsInt ((toCInt n).tdiv 2 * 1000) ∧ toCInt ((toCInt n).tdiv 2 * 1000) = n.tdiv 2 * 1000 ∧
      0 < n.tdiv 2 * 1000 ∧ n.tdiv 2 * 1000 < 1000 * n) ↔ 2 ≤ n ∧ n ≤ 4294967 := by
  constructor
  · rintro ⟨hfits, heq, hpos, -⟩
    rw [toCInt_eq_iff.mpr hfits] at heq
    rw [heq] at hfits
    have hdiv := tdiv_two_pos (show 0 < n.tdiv 2 by omega)
    rw [hdiv] at hpos hfits
    unfold FitsInt at hfits
    omega
  · intro h
    have hn : toCInt n = n := toCInt_eq_iff.mpr (by unfold FitsInt; omega)
    have hdiv : n.tdiv 2 = n / 2 := Int.tdiv_eq_ediv_of_nonneg (by omega)
    have hfits : FitsInt (n / 2 * 1000) := by unfold FitsInt; omega
    rw [hn, hdiv, toCInt_eq_iff.mpr hfits]
    exact ⟨hfits, rfl, by omega, by omega⟩

theorem keeps_of_uses {port keepalive listen : Int} {config : Configuration} {out : List Effect}
    (hport : FitsInt port) (hkeep : 2 ≤ keepalive ∧ keepalive ≤ 4294967) (hlisten : 0 ≤ listen ∧ listen < 2 ^ 16)
    (hp : config.mqttBrokerPort = toCInt port) (hk : config.mqttKeepalive = toCInt keepalive)
    (huses : ∀ e ∈ out, e.uses (numbersOf config (toCInt listen))) : KeepsNumbers port keepalive listen config out := by
  obtain ⟨hfits, heq, hpos, hlt⟩ := timeout_iff.mpr hkeep
  refine ⟨fun host p k rc he => ?_, fun p he => ?_, hk ▸ hfits, fun fds timeout he => ?_⟩
  · rw [(huses _ he).1]
    exact hp.trans (toCInt_eq_iff.mpr hport)
  · rw [show p = _ from huses _ he]
    exact listen_eq_iff.mpr hlisten
  · have htimeout : timeout = keepalive.tdiv 2 * 1000 := by
      rw [show timeout = pollTimeout config from huses _ he, pollTimeout, hk, heq]
    rw [htimeout]
    exact ⟨rfl, hpos, hlt⟩

/-! ## A unit that runs -/

def numbersEnv (port keepalive : Int) : ConfigEnv :=
  let env := fileEnv .success none
  { env with options := { env.options with mqttBrokerPort := some port, mqttKeepalive := some keepalive } }

def numbersConfig (port keepalive : Int) : FullConfiguration := readConfig (numbersEnv port keepalive).options

def numbersFile (port keepalive listen : Int) : ConfigFile where
  name := confPath.bytes
  common := (numbersConfig port keepalive).toConfiguration
  mqtt2rest := []
  rest2mqtt := [⟨rootA, listen, rootA, true⟩]
  mqtt2restTitles := List.nodup_nil
  rest2mqttTitles := List.nodup_singleton rootA

def numbersUnits (listen : Int) : Units where
  mqtt2rest := []
  rest2mqtt := [rest2mqttOf ⟨rootA, listen, rootA, true⟩]
  found := Nat.one_ne_zero
  bounded := show 1 ≤ 32 by decide

def numbersRun (port keepalive listen : Int) (envs : List (Rest2MqttEnv Unit)) :
    UnitProc Unit (Proc.Flow (UnitState Unit)) :=
  rest2mqttUnitRun .long64 (fun _ => sampleRequest qosOne) ⟨∅, ∅⟩
    (some { rest2mqttOf ⟨rootA, listen, rootA, true⟩ with
      commonConfiguration := some (numbersConfig port keepalive).toConfiguration }) (setupWith .success) envs

theorem NumbersKept.run {port keepalive listen : Int} (h : NumbersKept port keepalive listen) :
    KeepsNumbers port keepalive listen (numbersConfig port keepalive).toConfiguration
      ((numbersRun port keepalive listen [rest2mqttEnvWith .success []]).out.map Prod.snd) := by
  have hunits : (loadUnits (numbersFile port keepalive listen) ⟨fun _ => true, fun _ => true⟩).res =
      .ok (numbersUnits listen) := rfl
  have hrest := (h confPath false (numbersEnv port keepalive) (numbersConfig port keepalive)
    (numbersFile port keepalive listen) ⟨fun _ => true, fun _ => true⟩ (numbersUnits listen) rfl rfl rfl rfl hunits).2
  rcases hrest 0 _ _ rfl rfl rfl Unit .long64 (fun _ => sampleRequest qosOne) ⟨∅, ∅⟩ (setupWith .success)
    [rest2mqttEnvWith .success []] with ⟨e, he⟩ | hkeeps
  · cases he
  · exact hkeeps

/-- The line that starts the unit and the new client, the connection and the daemon; then in the first iteration
the descriptor of the daemon, the socket, its entry and the call of `poll`. -/
theorem mem_numbersRun (port keepalive listen : Int) :
    (∃ host k rc, Effect.connect host (toCInt port) k rc ∈
      (numbersRun port keepalive listen [rest2mqttEnvWith .success []]).out.map Prod.snd) ∧
    Effect.startDaemon (toCInt listen % 2 ^ 16).toNat ∈
      (numbersRun port keepalive listen [rest2mqttEnvWith .success []]).out.map Prod.snd ∧
    ∃ fds, Effect.poll fds (toCInt ((toCInt keepalive).tdiv 2 * 1000)) ∈
      (numbersRun port keepalive listen [rest2mqttEnvWith .success []]).out.map Prod.snd := by
  refine ⟨⟨bytes "localhost", toCInt keepalive, .success, ?_⟩, ?_, ?_⟩
  · exact List.mem_of_getElem? (i := 2) rfl
  · exact List.mem_of_getElem? (i := 3) rfl
  · exact ⟨_, List.mem_of_getElem? (i := 7) rfl⟩

theorem NumbersKept.ranges {port keepalive listen : Int} (h : NumbersKept port keepalive listen) :
    FitsInt port ∧ (2 ≤ keepalive ∧ keepalive ≤ 4294967) ∧ 0 ≤ listen ∧ listen < 2 ^ 16 := by
  obtain ⟨hconnects, hbinds, hfits, hpolls⟩ := h.run
  obtain ⟨⟨host, k, rc, hconnect⟩, hdaemon, fds, hpoll⟩ := mem_numbersRun port keepalive listen
  refine ⟨toCInt_eq_iff.mp (hconnects _ _ _ _ hconnect), timeout_iff.mp ?_, listen_eq_iff.mp (hbinds _ hdaemon)⟩
  obtain ⟨heq, hpos, hlt⟩ := hpolls _ _ hpoll
  rw [heq] at hpos hlt
  exact ⟨hfits, heq, hpos, hlt⟩

/-- **The numbers reach their use unchanged and the units wake up in time exactly when** the port of the broker
is an `int`, the port to listen on has 16 bits, and the keepalive is between 2 and 4294967 seconds. -/
theorem numbersKept_iff (port keepalive listen : Int) : NumbersKept port keepalive listen ↔
    FitsInt port ∧ (2 ≤ keepalive ∧ keepalive ≤ 4294967) ∧ 0 ≤ listen ∧ listen < 2 ^ 16 := by
  refine ⟨fun h => h.ranges, ?_⟩
  rintro ⟨hport, hkeep, hlisten⟩ filepath dump env config file lenv units rfl rfl hload hcommon hunits
  obtain rfl := loadConfig_returned hload
  obtain ⟨-, hr⟩ := loadUnits_units hunits
  rw [hcommon]
  refine ⟨fun u _ w setup envs => Or.inr ?_, fun i sec u hsec hl hu ι _ w req st setup envs => Or.inr ?_⟩
  · exact keeps_of_uses hport hkeep hlisten rfl rfl (mqtt2restUnitRun_uses w u _ _ setup envs)
  · have hport16 : u.listenPort = toCInt listen := by
      rw [hr, List.getElem?_map, hsec] at hu
      cases hu
      rw [← hl]
      rfl
    exact keeps_of_uses hport hkeep hlisten rfl rfl (rest2mqttUnitRun_uses w req st hport16 _ setup envs)

/-- The port of the broker 2^32 + 1883, a keepalive of 1 and one whose half in milliseconds is no `int`, and the
port to listen on 2^16 + 9000. -/
theorem not_numbersKept_wrapped :
    ¬ NumbersKept 4294969179 60 9000 ∧ ¬ NumbersKept 1883 1 9000 ∧ ¬ NumbersKept 1883 4294968 9000 ∧
      ¬ NumbersKept 1883 60 74536 := by
  refine ⟨fun h => ?_, fun h => ?_, fun h => ?_, fun h => ?_⟩
  · exact absurd h.ranges.1.2 (by decide)
  · exact absurd h.ranges.2.1.1 (by decide)
  · exact absurd h.ranges.2.1.2 (by decide)
  · exact absurd h.ranges.2.2.2 (by decide)

end Mqrestt
