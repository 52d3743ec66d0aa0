import Mqrestt.UnitsSound

/-!
# The poll set of `rest2mqtt_unit_run`

The loop over the descriptor sets fills an array of fixed size and has to leave one entry
for the client's socket. The iteration on the array does what the iteration on lists does,
and the lists are exactly the descriptors of the sets.
-/

namespace Mqrestt
open CSem

/-! ## The array and its list -/

def Holds (s : PollArray × Nat) (l : List Pollfd) : Prop := l.length = s.2 ∧ entries s.1 s.2 = l

theorem entries_update (pfd : PollArray) (n : Nat) (e : PollEntry) :
    entries (Function.update pfd n e) (n + 1) = entries pfd n ++ [e.events] := by
  unfold entries
  rw [List.range_succ, List.map_append]
  congr 1
  · apply List.map_congr_left
    intro i hi
    rw [Function.update_of_ne (List.mem_range.mp hi).ne]
  · rw [List.map_singleton, Function.update_self]

theorem Holds.push {s : PollArray × Nat} {l : List Pollfd} (h : Holds s l) (e : PollEntry) :
    Holds (Function.update s.1 s.2 e, s.2 + 1) (l ++ [e.events]) := by
  obtain ⟨hlen, hl⟩ := h
  refine ⟨by rw [List.length_append, hlen, List.length_singleton], ?_⟩
  rw [entries_update, hl]

theorem storePollfd_sim (env : FdsetEnv) (count : Nat) (s : PollArray × Nat) (l : List Pollfd) (fd : Nat)
    (h : Holds s l) : Proc.Sim Holds (storePollfd env count s fd) (mhdPollfd env count l fd) := by
  unfold storePollfd mhdPollfd
  split
  · rw [h.1]
    refine (Proc.Sim.refl _).bind fun _ _ _ => ?_
    dsimp only
    rw [List.length_append, List.length_singleton, h.1]
    split
    · exact .error _ _
    · exact .ok (h.push _)
  · exact .ok h

theorem storeMhdPollfds_sim (env : FdsetEnv) (pfds : PollArray) (count : Nat) :
    Proc.Sim Holds (storeMhdPollfds env pfds count) (getMhdPollfds env count) := by
  unfold storeMhdPollfds getMhdPollfds
  split
  · exact .error _ _
  · exact Proc.Sim.foldlM (storePollfd_sim env count) _ ⟨rfl, rfl⟩

/-! ## The loop over the descriptors -/

def watched (env : FdsetEnv) (fd : Nat) : Bool := env.rs fd || env.ws fd || env.es fd

def pollfdOf (env : FdsetEnv) (fd : Nat) : Pollfd := ⟨fd, env.rs fd, env.ws fd, env.es fd⟩

def watchedIn (env : FdsetEnv) (fds : List Nat) : List Pollfd := (fds.filter (watched env)).map (pollfdOf env)

def mhdPart (env : FdsetEnv) : List Pollfd := watchedIn env (List.range (env.max + 1).toNat)

def StoresInside (count : Nat) (out : List Effect) : Prop :=
  ∀ e ∈ out, ∃ i : Nat, i < count ∧ e = .write .pfd count i

theorem storesInside (count : Nat) : Proc.Compositional (StoresInside count) := Proc.compositional_forall _

theorem mhdPollfd_of_watched {env : FdsetEnv} {fd : Nat} (h : watched env fd = true) (count : Nat) (l : List Pollfd) :
    mhdPollfd env count l fd =
      if count ≤ l.length + 1 then
        ⟨[.write .pfd count l.length, .log .fatal "Not enough pollfd-s allocated for libmicrohttpd!" []],
          .error (.exit 1)⟩
      else ⟨[.write .pfd count l.length], .ok (l ++ [pollfdOf env fd])⟩ := by
  unfold watched at h
  unfold mhdPollfd
  rw [if_pos h, Proc.emit_bind]
  dsimp only
  rw [List.length_append, List.length_singleton]
  split
  · rfl
  · rfl

theorem mhdPollfd_of_not_watched {env : FdsetEnv} {fd : Nat} (h : ¬ watched env fd = true) (count : Nat)
    (l : List Pollfd) : mhdPollfd env count l fd = pure l := if_neg h

/-- The loop from an array with `l` written. The invariant is that one more entry fits. -/
theorem foldlM_mhdPollfd (env : FdsetEnv) {count : Nat} (fds : List Nat) {l : List Pollfd} (hl : l.length < count) :
    ∃ o, StoresInside count o ∧
      ((l.length + (watchedIn env fds).length < count ∧
          fds.foldlM (mhdPollfd env count) l = ⟨o, .ok (l ++ watchedIn env fds)⟩) ∨
        (count ≤ l.length + (watchedIn env fds).length ∧
          ∃ f, fds.foldlM (mhdPollfd env count) l = ⟨o ++ [.log .fatal f []], .error (.exit 1)⟩)) := by
  induction fds generalizing l with
  | nil =>
    refine ⟨[], (storesInside count).nil, .inl ⟨hl, ?_⟩⟩
    rw [show watchedIn env [] = [] from rfl, List.append_nil]
    rfl
  | cons fd fds ih =>
    rw [List.foldlM_cons]
    by_cases hw : watched env fd = true
    · have hcons : watchedIn env (fd :: fds) = pollfdOf env fd :: watchedIn env fds := by
        rw [watchedIn, List.filter_cons_of_pos hw, List.map_cons, watchedIn]
      have hstore : StoresInside count [.write .pfd count l.length] := by
        intro e he
        exact ⟨l.length, hl, List.mem_singleton.mp he⟩
      rw [hcons, List.length_cons, mhdPollfd_of_watched hw]
      by_cases hfull : count ≤ l.length + 1
      · rw [if_pos hfull]
        exact ⟨_, hstore, .inr ⟨by omega, _, rfl⟩⟩
      · rw [if_neg hfull, Proc.mk_ok_bind]
        have hlen : (l ++ [pollfdOf env fd]).length = l.length + 1 := by simp
        obtain ⟨o, ho, hcase⟩ := ih (l := l ++ [pollfdOf env fd]) (by omega)
        refine ⟨_, (storesInside count).append hstore ho, ?_⟩
        rw [hlen] at hcase
        rcases hcase with ⟨hfit, heq⟩ | ⟨hfull, f, heq⟩
        · left
          refine ⟨by omega, ?_⟩
          rw [heq, List.append_assoc]
          rfl
        · right
          refine ⟨by omega, f, ?_⟩
          rw [heq, List.append_assoc]
    · have hcons : watchedIn env (fd :: fds) = watchedIn env fds := by
        rw [watchedIn, List.filter_cons_of_neg hw, watchedIn]
      rw [hcons, mhdPollfd_of_not_watched hw, pure_bind]
      exact ih hl

theorem getMhdPollfds_cases (env : FdsetEnv) {count : Nat} (hc : 0 < count) :
    ∃ o, StoresInside count o ∧
      ((env.ret = .yes ∧ (mhdPart env).length < count ∧ getMhdPollfds env count = ⟨o, .ok (mhdPart env)⟩) ∨
        ((env.ret ≠ .yes ∨ count ≤ (mhdPart env).length) ∧
          ∃ f, getMhdPollfds env count = ⟨o ++ [.log .fatal f []], .error (.exit 1)⟩)) := by
  unfold getMhdPollfds
  by_cases hret : env.ret = .yes
  · rw [if_neg (not_not.mpr hret)]
    obtain ⟨o, ho, hcase⟩ := foldlM_mhdPollfd env (List.range (env.max + 1).toNat) (l := []) hc
    rw [List.length_nil, Nat.zero_add] at hcase
    refine ⟨o, ho, ?_⟩
    rcases hcase with ⟨hfit, heq⟩ | ⟨hfull, hf⟩
    · exact .inl ⟨hret, hfit, heq⟩
    · exact .inr ⟨.inr hfull, hf⟩
  · rw [if_pos hret]
    exact ⟨[], (storesInside count).nil, .inr ⟨.inl hret, _, rfl⟩⟩

theorem storeMhdPollfds_part (env : FdsetEnv) (pfds : PollArray) {count : Nat} (hc : 0 < count) :
    Proc.Sim (fun s l => Holds s l ∧ l = mhdPart env) (storeMhdPollfds env pfds count) (getMhdPollfds env count) := by
  have h := storeMhdPollfds_sim env pfds count
  obtain ⟨o, -, ⟨-, -, heq⟩ | ⟨-, f, heq⟩⟩ := getMhdPollfds_cases env hc
  · rw [heq] at h ⊢
    generalize storeMhdPollfds env pfds count = p at h
    cases h with
    | ok h => exact .ok ⟨h, rfl⟩
  · rw [heq] at h ⊢
    generalize storeMhdPollfds env pfds count = p at h
    cases h with
    | error => exact .error _ _

/-! ## The list of the sets -/

/-- The entries for the descriptors of the sets: ascending, so each once, with the events that the
sets they are in ask for. -/
structure ListsSets (env : FdsetEnv) (l : List Pollfd) : Prop where
  ascending : l.Pairwise fun p q => p.fd < q.fd
  exact : ∀ p, p ∈ l ↔ ∃ fd : Nat, (fd : Int) ≤ env.max ∧ (env.rs fd = true ∨ env.ws fd = true ∨ env.es fd = true) ∧
    p = { fd, pollin := env.rs fd, pollout := env.ws fd, pollpri := env.es fd }

theorem listsSets_mhdPart (env : FdsetEnv) : ListsSets env (mhdPart env) := by
  constructor
  · unfold mhdPart watchedIn
    rw [List.pairwise_map]
    apply List.Pairwise.filter
    apply List.pairwise_lt_range.imp
    intro a b hab
    exact Int.ofNat_lt.mpr hab
  · intro p
    simp only [mhdPart, watchedIn, List.mem_map, List.mem_filter, List.mem_range, watched, Bool.or_eq_true, or_assoc]
    constructor
    · rintro ⟨fd, ⟨hmax, hset⟩, rfl⟩
      exact ⟨fd, by omega, hset, rfl⟩
    · rintro ⟨fd, hmax, hset, rfl⟩
      exact ⟨fd, ⟨by omega, hset⟩, rfl⟩

/-! ## Before `poll` -/

section
variable {ι : Type} (s : UnitState ι)

/-- Before `poll`: a log line, stores inside the array and the look at the client's socket. -/
def Prepares (out : List (Option ι × Effect)) : Prop :=
  ∀ e ∈ out, e.1 = none ∧ ((∃ f as, e.2 = .log .debug f as) ∨
    (∃ i : Nat, i < pfdSize ∧ e.2 = .write .pfd pfdSize i) ∨ e.2 = .socket s.1.connected)

theorem prepares : Proc.Compositional (Prepares s) := Proc.compositional_forall _

theorem prepares_checkConnection : Prepares s (own (checkConnection s.1) : UnitProc ι Bool).out := by
  unfold checkConnection
  intro e he
  split at he
  · cases List.mem_singleton.mp he
    exact ⟨rfl, .inl ⟨_, _, rfl⟩⟩
  · cases he

theorem prepares_stores {out : List Effect} (h : StoresInside pfdSize out) : Prepares s (out.map (Prod.mk none)) := by
  intro e he
  obtain ⟨e', he', rfl⟩ := List.mem_map.mp he
  exact ⟨rfl, .inr (.inl (h e' he'))⟩

theorem own_eq {α : Type} {p : Run α} {o : List Effect} {r : Except Halt α} (h : p = ⟨o, r⟩) :
    (own p : UnitProc ι α) = ⟨o.map (Prod.mk none), r⟩ := by
  rw [h]
  rfl

theorem own_emit_bind {β : Type} (e : Effect) (f : Unit → UnitProc ι β) :
    own (Proc.emit e) >>= f = ⟨(none, e) :: (f ()).out, (f ()).res⟩ := rfl

theorem own_getPollfds_bind {β : Type} (h : MqttClientHandle) (env : SocketEnv) (f : Pollfd → UnitProc ι β) :
    own (mqttClientGetPollfds h env) >>= f =
      ⟨(none, .socket h.connected) :: (f ⟨env.fd, true, env.wantWrite, false⟩).out,
        (f ⟨env.fd, true, env.wantWrite, false⟩).res⟩ := rfl

end

/-! ## One iteration -/

section
variable {ι : Type} [DecidableEq ι] (w : LongWidth) (req : ι → Request) (timeout : Int) (s : UnitState ι)
  (env : PollEnv ι)

def PollReturn.at (r : PollReturn) (n : Nat) : PollResult :=
  match r with
  | .failed eintr => .failed eintr
  | .ready revin revout => .ready (revin n) (revout n)

def PollEnv.lists {ι : Type} (env : PollEnv ι) : Rest2MqttEnv ι where
  fdset := env.fdset
  socket := env.socket
  poll := env.poll.at (mhdPart env.fdset).length
  calls := env.calls
  loop := env.loop

/-- **The array refines the list.** The entry whose events are looked at is the one behind the
descriptors of libmicrohttpd. -/
theorem pollIteration_eq : pollIteration w req timeout s env = rest2mqttIteration w req timeout s env.lists := by
  apply Proc.Sim.eq
  unfold pollIteration rest2mqttIteration
  refine (Proc.Sim.refl _).bind fun b b' hb => ?_
  subst hb
  split
  · exact Proc.Sim.refl _
  · refine ((storeMhdPollfds_part env.fdset env.pfd (by decide)).mapOut _).bind fun sp l hl => ?_
    obtain ⟨hholds, hpart⟩ := hl
    refine (Proc.Sim.refl _).bind fun events events' he => ?_
    subst he
    have hpush := hholds.push { env.mqttPfd with events }
    obtain ⟨hlen, -⟩ := hholds
    rw [← hlen] at hpush ⊢
    refine (Proc.Sim.refl _).bind fun _ _ _ => ?_
    have hl := hpush.2
    dsimp only at hl ⊢
    rw [hl]
    refine (Proc.Sim.refl _).bind fun _ _ _ => ?_
    have hp : env.lists.poll = env.poll.at l.length := by rw [hpart]; rfl
    rw [hp]
    cases env.poll with
    | failed eintr => exact Proc.Sim.refl _
    | ready revin revout =>
      dsimp only [PollReturn.at]
      rw [Nat.add_sub_cancel, if_pos (Nat.lt_succ_self _)]
      exact Proc.Sim.refl _

/-- The loop that `rest2mqttUnitRun` is made of is the one over the array, so what is proved of whole runs of the thread
holds of the array that the code keeps. -/
theorem pollLoop_eq (envs : List (PollEnv ι)) :
    Proc.loop (pollIteration w req timeout) s envs =
      Proc.loop (rest2mqttIteration w req timeout) s (envs.map PollEnv.lists) :=
  Proc.loop_map (pollIteration_eq w req timeout) s envs

/-- **The poll set is exact and stays in its array**, or there is no `poll`. The events handed on
are those of the last entry, the one of the client. -/
theorem pollIteration_exact :
    (∃ pre f, Prepares s pre ∧
      (env.fdset.ret ≠ .yes ∨ ∃ l, ListsSets env.fdset l ∧ pfdSize ≤ l.length) ∧
      pollIteration w req timeout s env = ⟨pre ++ [(none, .log .fatal f [])], .error (.exit 1)⟩) ∨
    ∃ pre l, Prepares s pre ∧ ListsSets env.fdset l ∧ l.length < pfdSize ∧
      pollIteration w req timeout s env = (do
        let mqtt : Pollfd :=
          { fd := env.socket.fd, pollin := true, pollout := env.socket.wantWrite, pollpri := false }
        Proc.emits (pre ++ [(none, .poll (l ++ [mqtt]) timeout)])
        match env.poll with
        | .failed eintr => do
          own (pollFailed eintr)
          return .stop s
        | .ready revin revout => do
          let server ← handler (serveAll w s.1 req s.2 env.calls)
          let h ← own (mqttClientLoop w s.1 (revin l.length) (revout l.length) env.loop)
          return .next (h, server)) := by
  have hcheck : (own (checkConnection s.1) : UnitProc ι Bool).res = .ok true := checkConnection_res s.1
  have hpre := prepares_checkConnection s
  rw [pollIteration_eq]
  unfold rest2mqttIteration
  rw [Proc.bind_of_ok hcheck]
  simp only [Bool.not_true, Bool.false_eq_true, if_false]
  obtain ⟨o, ho, ⟨hret, hfit, heq⟩ | ⟨hfull, f, heq⟩⟩ := getMhdPollfds_cases env.fdset (by decide : 0 < pfdSize)
  · right
    have hstore : StoresInside pfdSize [.write .pfd pfdSize (mhdPart env.fdset).length] := by
      intro e he
      exact ⟨_, hfit, List.mem_singleton.mp he⟩
    have hsocket : Prepares s [(none, .socket s.1.connected)] := by
      intro e he
      rw [List.mem_singleton.mp he]
      exact ⟨rfl, .inr (.inr rfl)⟩
    refine ⟨_, mhdPart env.fdset, (prepares s).append hpre ((prepares s).append (prepares_stores s ho)
      ((prepares s).append hsocket (prepares_stores s hstore))), listsSets_mhdPart env.fdset, hfit, ?_⟩
    rw [show env.lists.fdset = env.fdset from rfl, own_eq heq, Proc.mk_ok_bind, own_getPollfds_bind, own_emit_bind,
      own_emit_bind, Proc.emits_bind]
    unfold PollEnv.lists
    cases env.poll with
    | failed eintr => simp [PollReturn.at]
    | ready revin revout => simp [PollReturn.at]
  · left
    refine ⟨_, f, (prepares s).append hpre (prepares_stores s ho), ?_, ?_⟩
    · exact hfull.imp_right fun h => ⟨_, listsSets_mhdPart env.fdset, h⟩
    · rw [show env.lists.fdset = env.fdset from rfl, own_eq heq, Proc.mk_error_bind, List.map_append,
        ← List.append_assoc]
      rfl

end

end Mqrestt
