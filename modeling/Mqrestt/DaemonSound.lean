import Mqrestt.Daemon

/-!
# One daemon at a time

The lock keeps two daemons from having the same file, and with it each daemon finds its own
pid in the file it has. It does not keep a daemon from having another file: for that, no
file may lose its name while an instance has it open. The handler takes the name away
without looking, also in an instance that is no daemon.
-/

namespace Mqrestt
open CSem

namespace System

/-! ## What a step can do -/

inductive Changes (s : System) (a : Act) : System → Prop
  | nothing : Changes s a s
  | starts (p : Pid) (daemonized : Bool) (hp : s.instances p = none) : Changes s a (s.set p (.start daemonized))
  | exits (p : Pid) : Changes s a (s.exit p)
  | opens {p : Pid} {i : Instance} (fd : Nat) (hp : s.instances p = some i) (hpc : i.pc = .opening)
      (hh : i.handlers = []) :
      Changes s a (s.create.2.set p { i with pc := .locking, pidFd := some fd, file := some (s.create.1, 0) })
  | locks {p : Pid} {i : Instance} {f : Inode} {offset : Nat} {locks : Locks Pid Inode} (hp : s.instances p = some i)
      (hpc : i.pc = .locking) (hh : i.handlers = []) (hfile : i.file = some (f, offset))
      (hlock : s.locks.tlock p f offset = some locks) :
      Changes s a ({ s with locks := locks }.set p { i with pc := .writing })
  | writes {p : Pid} {i : Instance} {f : Inode} {offset : Nat} (n : Nat) (hp : s.instances p = some i)
      (hpc : i.pc = .writing)
      (hh : i.handlers = []) (hfile : i.file = some (f, offset)) :
      Changes s a ({ s with content := Function.update s.content f ((s.content f).take offset ++ (pidLine p).take n ++
          (s.content f).drop (offset + ((pidLine p).take n).length)) }.set p
        { i with pc := .running, file := some (f, offset + ((pidLine p).take n).length) })
  | writesNothing {p : Pid} {i : Instance} (hp : s.instances p = some i) (hpc : i.pc = .writing) (hh : i.handlers = []) :
      Changes s a (s.set p { i with pc := .running })
  | signalled {p : Pid} {i : Instance} (hp : s.instances p = some i) (hpc : i.pc = .running ∨ i.handlers = []) :
      Changes s a (s.set p { i with handlers := i.handlers ++ [if i.pidFd.isSome then .unlocking else .unlinking] })
  | unlocks {p : Pid} {i : Instance} {k : Nat} (hp : s.instances p = some i) (hk : i.handlers[k]? = some .unlocking) :
      Changes s a ({ s with locks := i.file.elim s.locks fun (f, offset) => s.locks.ulock p f offset }.set p
        { i with handlers := i.handlers.set k .closing })
  | closes {p : Pid} {i : Instance} {k : Nat} (hp : s.instances p = some i) (hk : i.handlers[k]? = some .closing) :
      Changes s a ({ s with locks := i.file.elim s.locks fun (f, _) => s.locks.release p f }.set p
        { i with handlers := i.handlers.set k .unlinking, file := none })
  | unlinks {p : Pid} {i : Instance} {k : Nat} (ha : ∃ reused, a = .handler p k reused) (hp : s.instances p = some i)
      (hk : i.handlers[k]? = some .unlinking) :
      Changes s a ({ s with entry := none }.set p { i with handlers := i.handlers.eraseIdx k })

section
variable {s s' : System} {p : Pid} {a : Act}

theorem after_changes {α : Type} {r : DaemonRun α} {k : α → System} (hk : ∀ b, r.res = .ok b → Changes s a (k b))
    (h : (s.after p r k).res = .ok s') : Changes s a s' := by
  unfold after at h
  dsimp only at h
  split at h
  next b hres =>
    cases h
    exact hk b hres
  next =>
    cases h
    exact .exits p

theorem mainStep_changes {env : MainEnv} (h : (s.mainStep p env).res = .ok s') : Changes s a s' := by
  unfold mainStep at h
  split at h
  next =>
    cases h
    exact .nothing
  next i hp =>
    split at h
    · cases h
      exact .nothing
    next hh =>
      rw [not_not] at hh
      split at h
      next hpc => exact after_changes (fun fd _ => .opens fd hp hpc hh) h
      next fd hpc hfd =>
        refine after_changes (fun _ hres => ?_) h
        -- the code goes on only if the lock was given
        cases hlocks : (i.file.bind fun (f, offset) => if env.lockfFails then none else s.locks.tlock p f offset) with
        | none =>
          rw [hlocks] at hres
          cases hres
        | some locks =>
          obtain ⟨⟨f, offset⟩, hfile, hlock⟩ := Option.bind_eq_some_iff.mp hlocks
          dsimp only at hlock
          split at hlock
          next => cases hlock
          next => exact .locks hp hpc hh hfile hlock
      next fd hpc hfd =>
        unfold writeStep at h
        split at h
        next f offset n hfile hwrite => exact after_changes (fun _ _ => .writes n hp hpc hh hfile) h
        next => exact after_changes (fun _ _ => .writesNothing hp hpc hh) h
      next =>
        cases h
        exact .nothing

theorem handlerStep_changes {k : Nat} {reused : Bool} (h : (s.handlerStep p k reused).res = .ok s') :
    Changes s (.handler p k reused) s' := by
  unfold handlerStep at h
  split at h
  next =>
    cases h
    exact .nothing
  next i hp =>
    split at h
    next fd hk _ =>
      have hs' : s' = { s with locks := i.file.elim s.locks fun (f, offset) => s.locks.ulock p f offset }.set p
          { i with handlers := i.handlers.set k .closing } := by
        cases hret : (i.file.isSome || reused) with
        | true =>
          simp only [hret] at h
          exact (Except.ok.inj h).symm
        | false =>
          simp only [hret] at h
          exact (Except.ok.inj h).symm
      rw [hs']
      exact .unlocks hp hk
    next fd hk _ =>
      cases h
      exact .closes hp hk
    next hk =>
      cases h
      exact .unlinks ⟨reused, rfl⟩ hp hk
    next =>
      cases h
      exact .nothing

theorem step_changes (h : (s.step a).res = .ok s') : Changes s a s' := by
  cases a with
  | start p daemonized =>
    simp only [step, Proc.pure_res, Except.ok.injEq] at h
    cases hp : s.instances p with
    | none =>
      rw [← h, hp]
      exact .starts p daemonized hp
    | some i =>
      rw [← h, hp]
      exact .nothing
  | main p env => exact mainStep_changes h
  | sigint p =>
    simp only [step, System.sigint] at h
    split at h
    next =>
      cases h
      exact .nothing
    next i hp =>
      split at h
      · cases h
        exact .nothing
      next hfree =>
        cases h
        refine .signalled hp ?_
        rw [not_and_or, not_not, not_not] at hfree
        exact hfree
  | handler p k reused => exact handlerStep_changes h
  | exit p =>
    cases h
    exact .exits p

end

/-! ## What holds between the steps -/

structure InstanceInv (s : System) (p : Pid) (i : Instance) : Prop where
  known : ∀ f offset, i.file = some (f, offset) → f < s.next
  number : i.pidFd = none → i.file = none
  unopened : i.pc = .opening → i.file = none
  unwritten : ∀ f offset, i.file = some (f, offset) → i.pc ≠ .running → offset = 0
  closed : .unlinking ∈ i.handlers → i.file = none
  -- the handler unlocks from the offset on, so what was written stays locked until it closes the file
  holds : ∀ f offset, i.file = some (f, offset) → i.pc = .writing ∨ i.pc = .running →
    ∀ x, (x < offset ∨ ∀ h ∈ i.handlers, h = .unlocking) → s.locks.Holds p f x
  line : ∀ f offset, i.file = some (f, offset) → (s.content f).take offset = (pidLine p).take offset

structure LockInv (s : System) : Prop where
  exclusive : s.locks.Exclusive
  known : ∀ p f x, s.locks.Holds p f x → f < s.next
  named : ∀ f, s.entry = some f → f < s.next
  instances : ∀ p i, s.instances p = some i → InstanceInv s p i

theorem lockInv_init (stale : Option (List Byte)) : LockInv (init stale) where
  exclusive := Locks.exclusive_nil
  known p f x h := absurd h (Locks.not_holds_nil p f x)
  named f h := by
    obtain ⟨-, -, rfl⟩ := Option.map_eq_some_iff.mp h
    exact Nat.zero_lt_one
  instances p i h := by cases h

section
variable {s s' : System} {p q : Pid} {i j : Instance}

@[simp] theorem set_instances_self (s : System) (p : Pid) (i : Instance) : (s.set p i).instances p = some i :=
  Function.update_self ..

theorem set_instances_of_ne (s : System) {p q : Pid} (h : q ≠ p) (i : Instance) :
    (s.set p i).instances q = s.instances q :=
  Function.update_of_ne h ..

theorem exit_instances_self (s : System) (p : Pid) : (s.exit p).instances p = none := Function.update_self ..

theorem exit_instances_of_ne (s : System) {p q : Pid} (h : q ≠ p) : (s.exit p).instances q = s.instances q :=
  Function.update_of_ne h ..

/-- What another instance does leaves this one as it is. -/
theorem InstanceInv.frame (h : InstanceInv s q j) (hnext : s.next ≤ s'.next)
    (hlocks : ∀ f x, s.locks.Holds q f x → s'.locks.Holds q f x)
    (hcontent : ∀ f offset, j.file = some (f, offset) → (s'.content f).take offset = (s.content f).take offset) :
    InstanceInv s' q j where
  known f offset hf := (h.known f offset hf).trans_le hnext
  number := h.number
  unopened := h.unopened
  unwritten := h.unwritten
  closed := h.closed
  holds f offset hf hpc x hx := hlocks f x (h.holds f offset hf hpc x hx)
  line f offset hf := (hcontent f offset hf).trans (h.line f offset hf)

/-- An instance without the file has nothing to keep. -/
theorem instanceInv_of_closed (hfile : i.file = none) : InstanceInv s p i := by
  have hno : ∀ {f offset} {P : Prop}, i.file = some (f, offset) → P := by
    intro f offset P hf
    rw [hfile] at hf
    cases hf
  exact {
    known := fun _ _ hf => hno hf
    number := fun _ => hfile
    unopened := fun _ => hfile
    unwritten := fun _ _ hf => hno hf
    closed := fun _ => hfile
    holds := fun _ _ hf => hno hf
    line := fun _ _ hf => hno hf }

theorem LockInv.set_instances (h : LockInv s) (hi : InstanceInv (s'.set p i) p i) (hsame : s'.instances = s.instances)
    (hframe : ∀ q j, q ≠ p → s.instances q = some j → InstanceInv s q j → InstanceInv (s'.set p i) q j) :
    ∀ q j, (s'.set p i).instances q = some j → InstanceInv (s'.set p i) q j := by
  intro q j hq
  by_cases hqp : q = p
  · subst hqp
    rw [set_instances_self] at hq
    cases hq
    exact hi
  · rw [set_instances_of_ne _ hqp, hsame] at hq
    exact hframe q j hqp hq (h.instances q j hq)

/-- A step that changes only one instance. -/
theorem LockInv.set (h : LockInv s) (hi : InstanceInv s p i) : LockInv (s.set p i) where
  exclusive := h.exclusive
  known := h.known
  named := h.named
  instances := h.set_instances (hi.frame le_rfl (fun _ _ hx => hx) fun _ _ _ => rfl) rfl fun _ _ _ _ hj =>
    hj.frame le_rfl (fun _ _ hx => hx) fun _ _ _ => rfl

theorem LockInv.exit (h : LockInv s) (p : Pid) : LockInv (s.exit p) where
  exclusive := h.exclusive.mono fun q f x hx => (Locks.holds_releaseAll.mp hx).1
  known q f x hx := h.known q f x (Locks.holds_releaseAll.mp hx).1
  named := h.named
  instances q j hq := by
    by_cases hqp : q = p
    · subst hqp
      rw [exit_instances_self] at hq
      cases hq
    · rw [exit_instances_of_ne s hqp] at hq
      exact (h.instances q j hq).frame le_rfl (fun f x hx => Locks.holds_releaseAll.mpr ⟨hx, hqp⟩) fun _ _ _ => rfl

theorem create_cases (s : System) : (∃ f, s.entry = some f ∧ s.create = (f, s)) ∨
    (s.entry = none ∧ s.create = (s.next, { s with
      entry := some s.next
      next := s.next + 1
      content := Function.update s.content s.next [] })) := by
  unfold create
  cases h : s.entry with
  | none => exact Or.inr ⟨rfl, rfl⟩
  | some f => exact Or.inl ⟨f, rfl, rfl⟩

theorem LockInv.create (h : LockInv s) : LockInv s.create.2 ∧ s.create.1 < s.create.2.next ∧
    s.create.2.instances = s.instances := by
  rcases create_cases s with ⟨f, hentry, heq⟩ | ⟨hentry, heq⟩
  · rw [heq]
    exact ⟨h, h.named f hentry, rfl⟩
  · rw [heq]
    refine ⟨?_, Nat.lt_succ_self _, rfl⟩
    exact {
      exclusive := h.exclusive
      known := fun p f x hx => (h.known p f x hx).trans (Nat.lt_succ_self _)
      named := fun f hf => by
        cases hf
        exact Nat.lt_succ_self _
      instances := fun p i hp => by
        have hi := h.instances p i hp
        refine hi.frame (Nat.le_succ _) (fun _ _ hx => hx) fun f offset hf => ?_
        -- a file that is new is not one that was open
        have hne : f ≠ s.next := (hi.known f offset hf).ne
        dsimp only
        rw [Function.update_of_ne hne] }

theorem LockInv.opens (h : LockInv s) (fd : Nat) (hh : i.handlers = []) :
    LockInv (s.create.2.set p { i with pc := .locking, pidFd := some fd, file := some (s.create.1, 0) }) := by
  obtain ⟨hcreate, hlt, -⟩ := h.create
  refine hcreate.set ?_
  exact {
    known := fun f offset hf => by
      cases hf
      exact hlt
    number := fun hfd => by cases hfd
    unopened := fun hpc => by cases hpc
    unwritten := fun f offset hf _ => by
      cases hf
      rfl
    closed := fun hmem => by
      dsimp only at hmem
      rw [hh] at hmem
      cases hmem
    holds := fun f offset _ hpc => by rcases hpc with hpc | hpc <;> cases hpc
    line := fun f offset hf => by
      cases hf
      rfl }

theorem LockInv.locks {f : Inode} {offset : Nat} {locks : Locks Pid Inode} (h : LockInv s) (hp : s.instances p = some i)
    (hpc : i.pc = .locking) (hfile : i.file = some (f, offset)) (hlock : s.locks.tlock p f offset = some locks) :
    LockInv ({ s with locks := locks }.set p { i with pc := .writing }) := by
  have hi := h.instances p i hp
  have h0 : offset = 0 := hi.unwritten f offset hfile (by rw [hpc]; decide)
  have hold : ∀ q g x, s.locks.Holds q g x → locks.Holds q g x :=
    fun q g x hx => (Locks.holds_tlock hlock).mpr (Or.inl hx)
  exact {
    exclusive := h.exclusive.tlock hlock
    known := fun q g x hx => by
      rcases (Locks.holds_tlock hlock).mp hx with hx | ⟨-, rfl, -⟩
      · exact h.known q g x hx
      · exact hi.known g offset hfile
    named := h.named
    instances := by
      refine h.set_instances ?_ rfl fun q j _ _ hj => hj.frame le_rfl (fun g x hx => hold q g x hx) fun _ _ _ => rfl
      exact {
        known := hi.known
        number := hi.number
        unopened := fun hpc => by cases hpc
        unwritten := fun g o hg _ => hi.unwritten g o hg (by rw [hpc]; decide)
        closed := hi.closed
        holds := fun g o hg _ x _ => by
          rw [show i.file = some (g, o) from hg] at hfile
          cases hfile
          exact (Locks.holds_tlock hlock).mpr (Or.inr ⟨rfl, rfl, by omega⟩)
        line := hi.line } }

theorem take_written (old line : List Byte) (n : Nat) :
    ((old.take 0 ++ line.take n ++ old.drop (0 + (line.take n).length)).take (0 + (line.take n).length)) =
      line.take (0 + (line.take n).length) := by
  rw [List.take_zero, List.nil_append, Nat.zero_add, List.take_left, List.length_take]
  exact List.take_eq_take_min

theorem LockInv.writes {f : Inode} {offset : Nat} (h : LockInv s) (n : Nat) (hp : s.instances p = some i)
    (hpc : i.pc = .writing) (hh : i.handlers = []) (hfile : i.file = some (f, offset)) :
    LockInv ({ s with content := Function.update s.content f ((s.content f).take offset ++ (pidLine p).take n ++
        (s.content f).drop (offset + ((pidLine p).take n).length)) }.set p
      { i with pc := .running, file := some (f, offset + ((pidLine p).take n).length) }) := by
  have hi := h.instances p i hp
  have h0 : offset = 0 := hi.unwritten f offset hfile (by rw [hpc]; decide)
  subst h0
  have hholds : ∀ x, s.locks.Holds p f x := by
    intro x
    refine hi.holds f 0 hfile (Or.inl hpc) x (Or.inr fun h hmem => ?_)
    rw [hh] at hmem
    cases hmem
  exact {
    exclusive := h.exclusive
    known := h.known
    named := h.named
    instances := by
      refine h.set_instances ?_ rfl fun q j hqp _ hj => hj.frame le_rfl (fun _ _ hx => hx) fun g o hg => ?_
      · exact {
          known := fun g o hg => by
            cases hg
            exact hi.known f 0 hfile
          number := fun hfd => by
            rw [hi.number hfd] at hfile
            cases hfile
          unopened := fun hpc => by cases hpc
          unwritten := fun g o _ hne => absurd rfl hne
          closed := fun hmem => by
            dsimp only at hmem
            rw [hh] at hmem
            cases hmem
          holds := fun g o hg _ x _ => by
            cases hg
            exact hholds x
          line := fun g o hg => by
            cases hg
            dsimp only [System.set]
            rw [Function.update_self]
            exact take_written _ _ n }
      · -- whoever has written to the file holds its first byte, and that is the writer
        dsimp only [System.set]
        by_cases hgf : g = f
        · subst hgf
          cases o with
          | zero => rfl
          | succ o =>
            have hrunning : j.pc = .running := by
              by_contra hne
              cases hj.unwritten g (o + 1) hg hne
            have hfirst := hj.holds g (o + 1) hg (Or.inr hrunning) 0 (Or.inl (Nat.succ_pos o))
            exact absurd (h.exclusive q p g 0 hfirst (hholds 0)) hqp
        · rw [Function.update_of_ne hgf] }

theorem LockInv.writesNothing (h : LockInv s) (hp : s.instances p = some i) (hpc : i.pc = .writing) :
    LockInv (s.set p { i with pc := .running }) := by
  have hi := h.instances p i hp
  exact h.set {
    known := hi.known
    number := hi.number
    unopened := fun hpc => by cases hpc
    unwritten := fun _ _ _ hne => absurd rfl hne
    closed := hi.closed
    holds := fun f offset hf _ => hi.holds f offset hf (Or.inl hpc)
    line := hi.line }

theorem LockInv.signalled (h : LockInv s) (hp : s.instances p = some i) : LockInv (s.set p { i with
    handlers := i.handlers ++ [if i.pidFd.isSome then .unlocking else .unlinking] }) := by
  have hi := h.instances p i hp
  refine h.set ?_
  exact {
    known := hi.known
    number := hi.number
    unopened := hi.unopened
    unwritten := hi.unwritten
    closed := fun hmem => by
      rcases List.mem_append.mp hmem with hmem | hmem
      · exact hi.closed hmem
      · cases hfd : i.pidFd with
        | none => exact hi.number hfd
        | some fd =>
          rw [List.mem_singleton, hfd] at hmem
          cases hmem
    holds := fun f offset hf hpc x hx => by
      refine hi.holds f offset hf hpc x (hx.imp_right fun hall h hmem => ?_)
      exact hall h (List.mem_append_left _ hmem)
    line := hi.line }

theorem LockInv.unlocks {k : Nat} (h : LockInv s) (hp : s.instances p = some i) (hk : i.handlers[k]? = some .unlocking) :
    LockInv ({ s with locks := i.file.elim s.locks fun (f, offset) => s.locks.ulock p f offset }.set p
      { i with handlers := i.handlers.set k .closing }) := by
  have hi := h.instances p i hp
  cases hfile : i.file with
  | none => exact h.set (instanceInv_of_closed rfl)
  | some fo =>
    obtain ⟨f, offset⟩ := fo
    dsimp only [Option.elim_some]
    exact {
      exclusive := h.exclusive.mono fun q g x hx => (Locks.holds_ulock.mp hx).1
      known := fun q g x hx => h.known q g x (Locks.holds_ulock.mp hx).1
      named := h.named
      instances := by
        refine h.set_instances ?_ rfl fun q j hqp _ hj => ?_
        · exact {
            known := fun g o hg => hi.known g o (hfile.trans hg)
            number := fun hfd => by
              rw [hi.number hfd] at hfile
              cases hfile
            unopened := fun hpc => by
              rw [hi.unopened hpc] at hfile
              cases hfile
            unwritten := fun g o hg => hi.unwritten g o (hfile.trans hg)
            closed := fun hmem => by
              rcases List.mem_or_eq_of_mem_set hmem with hmem | heq
              · rw [hi.closed hmem] at hfile
                cases hfile
              · cases heq
            holds := fun g o hg hpc x hx => by
              cases hg
              rcases hx with hlt | hall
              · refine Locks.holds_ulock.mpr ⟨?_, fun hle => Nat.not_le.mpr hlt hle.2.2⟩
                exact hi.holds f offset hfile hpc x (Or.inl hlt)
              · -- this handler is past its unlocking
                have hmem : HandlerPc.closing ∈ i.handlers.set k .closing :=
                  List.mem_set (List.getElem?_eq_some_iff.mp hk).1 _
                cases hall _ hmem
            line := fun g o hg => hi.line g o (hfile.trans hg) }
        · refine hj.frame le_rfl (fun g x hx => ?_) fun _ _ _ => rfl
          exact Locks.holds_ulock.mpr ⟨hx, fun heq => hqp heq.1⟩ }

theorem LockInv.closes {k : Nat} (h : LockInv s) : LockInv ({ s with
    locks := i.file.elim s.locks fun (f, _) => s.locks.release p f }.set p
      { i with handlers := i.handlers.set k .unlinking, file := none }) := by
  cases hfile : i.file with
  | none => exact h.set (instanceInv_of_closed rfl)
  | some fo =>
    obtain ⟨f, offset⟩ := fo
    dsimp only [Option.elim_some]
    exact {
      exclusive := h.exclusive.mono fun q g x hx => (Locks.holds_release.mp hx).1
      known := fun q g x hx => h.known q g x (Locks.holds_release.mp hx).1
      named := h.named
      instances := by
        refine h.set_instances (instanceInv_of_closed rfl) rfl fun q j hqp _ hj => ?_
        refine hj.frame le_rfl (fun g x hx => ?_) fun _ _ _ => rfl
        exact Locks.holds_release.mpr ⟨hx, fun heq => hqp heq.1⟩ }

theorem LockInv.unlinks {k : Nat} (h : LockInv s) (hp : s.instances p = some i) (hk : i.handlers[k]? = some .unlinking) :
    LockInv ({ s with entry := none }.set p { i with handlers := i.handlers.eraseIdx k }) := by
  have hfile := (h.instances p i hp).closed (List.mem_of_getElem? hk)
  exact {
    exclusive := h.exclusive
    known := h.known
    named := fun f hf => by cases hf
    instances := h.set_instances (instanceInv_of_closed hfile) rfl fun _ _ _ _ hj =>
      hj.frame le_rfl (fun _ _ hx => hx) fun _ _ _ => rfl }

theorem LockInv.changes {a : Act} (h : LockInv s) (hc : Changes s a s') : LockInv s' := by
  cases hc with
  | nothing => exact h
  | starts p daemonized _ => exact h.set (instanceInv_of_closed rfl)
  | exits p => exact h.exit p
  | opens fd _ _ hh => exact h.opens fd hh
  | locks hp hpc _ hfile hlock => exact h.locks hp hpc hfile hlock
  | writes n hp hpc hh hfile => exact h.writes n hp hpc hh hfile
  | writesNothing hp hpc _ => exact h.writesNothing hp hpc
  | signalled hp _ => exact h.signalled hp
  | unlocks hp hk => exact h.unlocks hp hk
  | closes _ _ => exact h.closes
  | unlinks _ hp hk => exact h.unlinks hp hk

end

/-! ## One daemon for each file -/

/-- The instance has locked the file and not closed it, and it has written to it or not begun to unlock it. -/
def Guards (i : Instance) (f : Inode) : Prop :=
  ∃ offset, i.file = some (f, offset) ∧ (i.pc = .writing ∨ i.pc = .running) ∧
    (0 < offset ∨ ∀ h ∈ i.handlers, h = .unlocking)

section
variable {s s' : System} {p q : Pid} {i j : Instance} {f g : Inode}

theorem LockInv.holds_first (h : LockInv s) (hp : s.instances p = some i) (hg : Guards i f) : s.locks.Holds p f 0 := by
  obtain ⟨offset, hfile, hpc, hkept⟩ := hg
  exact (h.instances p i hp).holds f offset hfile hpc 0 hkept

theorem LockInv.one_guard (h : LockInv s) (hp : s.instances p = some i) (hq : s.instances q = some j) (hi : Guards i f)
    (hj : Guards j f) : p = q :=
  h.exclusive p q f 0 (h.holds_first hp hi) (h.holds_first hq hj)

theorem lockInv_of_run {stale : Option (List Byte)} {acts : List Act} {out : List (Pid × DaemonCall)}
    (hrun : acts.foldlM step (init stale) = ⟨out, .ok s⟩) : LockInv s :=
  Proc.foldlM_inv (I := fun _ s => LockInv s) (lockInv_init stale) (fun _ _ _ _ h hs => h.changes (step_changes hs)) hrun

end

/-- A new instance with `-d`, up to the end of `daemonize`. -/
def comesIn (r : Pid) (fd n : Nat) : List Act := .start r true :: List.replicate 3 (.main r ⟨some fd, false, some n⟩)

/-- **In every interleaving of the instances, a file has at most one daemon, and the file begins with what that daemon
has written of its pid.** -/
theorem one_daemon_per_file {stale : Option (List Byte)} {acts : List Act} {out : List (Pid × DaemonCall)} {s : System}
    (hrun : acts.foldlM step (init stale) = ⟨out, .ok s⟩) :
    (∀ p q i j f, s.instances p = some i → s.instances q = some j → Guards i f → Guards j f → p = q) ∧
    ∀ p i f offset, s.instances p = some i → i.file = some (f, offset) →
      (s.content f).take offset = (pidLine p).take offset := by
  have hinv := lockInv_of_run hrun
  exact ⟨fun p q i j f hp hq hi hj => hinv.one_guard hp hq hi hj,
    fun p i f offset hp hf => (hinv.instances p i hp).line f offset hf⟩

def firstDaemon : Instance := ⟨.running, some 4, some (1, 3), []⟩

theorem guards_firstDaemon : Guards firstDaemon 1 := ⟨3, rfl, Or.inr rfl, Or.inl (by decide)⟩

/-- The second instance is refused the lock, and exits. -/
def twoStarts : List Act := comesIn 10 4 9 ++ comesIn 20 4 9

theorem twoStarts_run : ∃ out s, twoStarts.foldlM step (init none) = ⟨out, .ok s⟩ ∧ s.instances 10 = some firstDaemon ∧
    s.instances 20 = none ∧ s.content 1 = bytes "10\n" := by
  have hend : ((twoStarts.foldlM step (init none)).res.map fun s => (s.instances 10, s.instances 20, s.content 1)) =
      .ok (some firstDaemon, none, bytes "10\n") := by decide
  obtain ⟨s, hrun, hs⟩ := Proc.eq_ok_of_map hend
  simp only [Prod.mk.injEq] at hs
  exact ⟨_, s, hrun, hs⟩

theorem one_daemon_twoStarts : ∃ out s, twoStarts.foldlM step (init none) = ⟨out, .ok s⟩ ∧
    s.instances 10 = some firstDaemon ∧ (s.content 1).take 3 = (pidLine 10).take 3 ∧
    ∀ q j, s.instances q = some j → Guards j 1 → 10 = q := by
  obtain ⟨out, s, hrun, h10, -⟩ := twoStarts_run
  obtain ⟨hone, hline⟩ := one_daemon_per_file hrun
  exact ⟨out, s, hrun, h10, hline 10 _ 1 3 h10 rfl, fun q j hq hj => hone 10 q _ j 1 h10 hq guards_firstDaemon hj⟩

/-! ## A daemon comes in -/

theorem pidLine_ne_nil (p : Pid) : pidLine p ≠ [] := by
  unfold pidLine
  exact List.append_ne_nil_of_right_ne_nil _ (by decide)

section
variable {s : System} {p : Pid} {i : Instance}

theorem mainStep_opens (hp : s.instances p = some i) (hpc : i.pc = .opening) (hh : i.handlers = []) {fd : Nat}
    {env : MainEnv} (hfd : env.fd = some fd) : (s.mainStep p env).res =
      .ok (s.create.2.set p { i with pc := .locking, pidFd := some fd, file := some (s.create.1, 0) }) := by
  simp [mainStep, hp, hh, hpc, openStep, hfd, after, daemonizeOpen]

theorem mainStep_locks (hp : s.instances p = some i) (hpc : i.pc = .locking) (hh : i.handlers = []) {fd : Nat}
    (hfd : i.pidFd = some fd) {f : Inode} {offset : Nat} (hfile : i.file = some (f, offset)) {locks : Locks Pid Inode}
    (hlock : s.locks.tlock p f offset = some locks) {env : MainEnv} (henv : env.lockfFails = false) :
    (s.mainStep p env).res = .ok ({ s with locks := locks }.set p { i with pc := .writing }) := by
  simp [mainStep, hp, hh, hpc, hfd, lockStep, hfile, henv, hlock, after, daemonizeLock]

theorem mainStep_writes (hp : s.instances p = some i) (hpc : i.pc = .writing) (hh : i.handlers = []) {fd : Nat}
    (hfd : i.pidFd = some fd) {f : Inode} {offset : Nat} (hfile : i.file = some (f, offset)) {env : MainEnv} {n : Nat}
    (hwrite : env.write = some n) (hn : ((pidLine p).take n).length ≠ 0) : (s.mainStep p env).res =
      .ok ({ s with content := Function.update s.content f ((s.content f).take offset ++ (pidLine p).take n ++
          (s.content f).drop (offset + ((pidLine p).take n).length)) }.set p
        { i with pc := .running, file := some (f, offset + ((pidLine p).take n).length) }) := by
  have hret : ((((pidLine p).take n).length : Nat) : Int) ≠ 0 := Int.natCast_ne_zero.mpr hn
  simp only [mainStep, hp, hh, hpc, hfd, writeStep, hfile, hwrite, after, daemonizeWrite, Proc.emit_bind, if_neg hret]
  rfl

end

theorem comesIn_guards {s : System} (h : LockInv s) (hentry : s.entry = none) {r : Pid} (hr : s.instances r = none)
    (fd : Nat) {n : Nat} (hn : 0 < n) : ∃ out s', (comesIn r fd n).foldlM step s = ⟨out, .ok s'⟩ ∧
      (∀ q, q ≠ r → s'.instances q = s.instances q) ∧
      ∃ i, s'.instances r = some i ∧ i.pc = .running ∧ i.pidFd = some fd ∧ i.handlers = [] ∧ Guards i s.next := by
  -- the file is new, so nobody has locked it
  have hfree : s.locks.tlock r s.next 0 = some (⟨r, s.next, 0, none⟩ :: s.locks) :=
    Locks.tlock_of_free (fun q x hx => lt_irrefl _ (h.known q s.next x hx)) r 0
  have htext : ((pidLine r).take n).length ≠ 0 := by
    rw [List.length_take]
    have := List.length_pos_iff.mpr (pidLine_ne_nil r)
    omega
  obtain ⟨s₂, hcreate, hlocks₂, hinst₂⟩ : ∃ s₂ : System, (s.set r (.start true)).create = (s.next, s₂) ∧
      s₂.locks = s.locks ∧ s₂.instances = (s.set r (.start true)).instances := by
    rcases create_cases (s.set r (.start true)) with ⟨f, hf, -⟩ | ⟨-, heq⟩
    · rw [show (s.set r (.start true)).entry = s.entry from rfl, hentry] at hf
      cases hf
    · exact ⟨_, heq, rfl, rfl⟩
  let i₂ : Instance := ⟨.locking, some fd, some (s.next, 0), []⟩
  let s₃ : System := { s₂.set r i₂ with locks := ⟨r, s.next, 0, none⟩ :: s.locks }
  have h₁ : (s.step (.start r true)).res = .ok (s.set r (.start true)) := by simp [step, hr]
  have h₂ : ((s.set r (.start true)).step (.main r ⟨some fd, false, some n⟩)).res = .ok (s₂.set r i₂) := by
    have hopens := mainStep_opens (set_instances_self s r (.start true)) rfl rfl
      (show (⟨some fd, false, some n⟩ : MainEnv).fd = some fd from rfl)
    rw [hcreate] at hopens
    exact hopens
  have h₃ : ((s₂.set r i₂).step (.main r ⟨some fd, false, some n⟩)).res = .ok (s₃.set r { i₂ with pc := .writing }) :=
    mainStep_locks (set_instances_self s₂ r i₂) rfl rfl rfl rfl (hlocks₂ ▸ hfree) rfl
  obtain ⟨s₅, h₄, hr₅, hq₅⟩ : ∃ s₅ : System,
      ((s₃.set r { i₂ with pc := .writing }).step (.main r ⟨some fd, false, some n⟩)).res = .ok s₅ ∧
      s₅.instances r = some ⟨.running, some fd, some (s.next, 0 + ((pidLine r).take n).length), []⟩ ∧
      ∀ q, q ≠ r → s₅.instances q = s.instances q := by
    refine ⟨_, mainStep_writes (set_instances_self s₃ r { i₂ with pc := .writing }) rfl rfl rfl rfl rfl htext,
      set_instances_self .., fun q hqr => ?_⟩
    have hold : ∀ q, q ≠ r → s₂.instances q = s.instances q := by
      intro q hqr
      rw [hinst₂, set_instances_of_ne _ hqr]
    rw [set_instances_of_ne _ hqr]
    dsimp only
    rw [set_instances_of_ne _ hqr]
    dsimp only [s₃]
    rw [set_instances_of_ne _ hqr, hold q hqr]
  refine ⟨_, s₅, Proc.eq_of_ok ?_, hq₅, _, hr₅, rfl, rfl, rfl, _, rfl, Or.inr rfl, Or.inl (by omega)⟩
  simp only [comesIn, List.replicate, List.foldlM_cons, List.foldlM_nil, Proc.bind_of_ok h₁, Proc.bind_of_ok h₂,
    Proc.bind_of_ok h₃, Proc.bind_of_ok h₄, Proc.pure_res]

/-! ## One daemon in all -/

/-- A file loses its name only when no instance has it open. -/
def Orderly (s : System) : Act → Prop
  | .handler p k _ => (∃ i, s.instances p = some i ∧ i.handlers[k]? = some .unlinking) →
      ∀ q j f offset, s.instances q = some j → j.file = some (f, offset) → s.entry ≠ some f
  | _ => True

/-- Every file that is open has the name. -/
def Named (s : System) : Prop := ∀ p i f offset, s.instances p = some i → i.file = some (f, offset) → s.entry = some f

section
variable {s s' : System} {p : Pid} {i : Instance} {a : Act}

theorem named_init (stale : Option (List Byte)) : Named (init stale) := by
  intro p i f offset hp
  cases hp

/-- A step that leaves the name where it is. -/
theorem Named.set (h : Named s) (hentry : s'.entry = s.entry) (hsame : s'.instances = s.instances)
    (hi : ∀ f offset, i.file = some (f, offset) → s.entry = some f) : Named (s'.set p i) := by
  intro q j f offset hq hf
  show s'.entry = some f
  rw [hentry]
  by_cases hqp : q = p
  · subst hqp
    rw [set_instances_self] at hq
    cases hq
    exact hi f offset hf
  · rw [set_instances_of_ne _ hqp, hsame] at hq
    exact h q j f offset hq hf

theorem Named.opens (h : Named s) {fd : Nat} :
    Named (s.create.2.set p { i with pc := .locking, pidFd := some fd, file := some (s.create.1, 0) }) := by
  rcases create_cases s with ⟨f, hentry, heq⟩ | ⟨hentry, heq⟩
  · rw [heq]
    refine h.set rfl rfl fun g offset hg => ?_
    cases hg
    exact hentry
  · rw [heq]
    intro q j g offset hq hg
    by_cases hqp : q = p
    · subst hqp
      rw [set_instances_self] at hq
      cases hq
      cases hg
      rfl
    · -- there was no name, so nobody else has a file open
      rw [set_instances_of_ne _ hqp] at hq
      have hnone := h q j g offset hq hg
      rw [hentry] at hnone
      cases hnone

theorem Named.changes (h : Named s) (ho : Orderly s a) (hc : Changes s a s') : Named s' := by
  cases hc with
  | nothing => exact h
  | starts p daemonized _ => exact h.set rfl rfl fun f offset hf => by cases hf
  | exits p =>
    intro q j f offset hq hf
    by_cases hqp : q = p
    · subst hqp
      rw [exit_instances_self] at hq
      cases hq
    · rw [exit_instances_of_ne s hqp] at hq
      exact h q j f offset hq hf
  | opens fd _ _ _ => exact h.opens
  | locks hp _ _ _ _ => exact h.set rfl rfl fun f offset hf => h _ _ f offset hp hf
  | writes n hp _ _ hfile =>
    refine h.set rfl rfl fun g offset hg => ?_
    cases hg
    exact h _ _ _ _ hp hfile
  | writesNothing hp _ _ => exact h.set rfl rfl fun f offset hf => h _ _ f offset hp hf
  | signalled hp _ => exact h.set rfl rfl fun f offset hf => h _ _ f offset hp hf
  | unlocks hp _ => exact h.set rfl rfl fun f offset hf => h _ _ f offset hp hf
  | closes _ _ => exact h.set rfl rfl fun f offset hf => by cases hf
  | @unlinks p i k ha hp hk =>
    obtain ⟨reused, rfl⟩ := ha
    -- whoever has a file open has the one with the name
    have hnone : ∀ q j f offset, s.instances q = some j → j.file ≠ some (f, offset) := fun q j f offset hq hf =>
      ho ⟨i, hp, hk⟩ q j f offset hq hf (h q j f offset hq hf)
    intro q j f offset hq hf
    by_cases hqp : q = p
    · subst hqp
      rw [set_instances_self] at hq
      cases hq
      exact absurd hf (hnone q i f offset hp)
    · rw [set_instances_of_ne _ hqp] at hq
      exact absurd hf (hnone q j f offset hq)

end

/-- A daemon is interrupted, and nothing comes between the calls of its handler. -/
def leaves (p : Pid) : List Act := .sigint p :: List.replicate 3 (.handler p 0 false)

theorem orderly_comesIn (s : System) (r : Pid) (fd n : Nat) : Proc.Along step Orderly s (comesIn r fd n) := by
  simp [comesIn, List.replicate, Proc.Along, Orderly]

theorem orderly_handler {s : System} {p : Pid} {i : Instance} {k : Nat} (reused : Bool) (hp : s.instances p = some i)
    (hk : i.handlers[k]? ≠ some .unlinking) : Orderly s (.handler p k reused) := by
  rintro ⟨i', hp', hk'⟩
  cases hp.symm.trans hp'
  exact absurd hk' hk

section
variable {s : System} {p : Pid} {i : Instance} {k fd : Nat}

theorem handlerStep_unlocks (hp : s.instances p = some i) (hk : i.handlers[k]? = some .unlocking)
    (hfd : i.pidFd = some fd) (reused : Bool) : ∃ locks, (s.handlerStep p k reused).res =
      .ok ({ s with locks := locks }.set p { i with handlers := i.handlers.set k .closing }) := by
  refine ⟨i.file.elim s.locks fun (f, offset) => s.locks.ulock p f offset, ?_⟩
  simp only [handlerStep, hp, hk, hfd, Proc.emit_bind]
  split
  · rfl
  · rfl

theorem handlerStep_closes (hp : s.instances p = some i) (hk : i.handlers[k]? = some .closing)
    (hfd : i.pidFd = some fd) (reused : Bool) : ∃ locks, (s.handlerStep p k reused).res =
      .ok ({ s with locks := locks }.set p { i with handlers := i.handlers.set k .unlinking, file := none }) := by
  refine ⟨i.file.elim s.locks fun (f, _) => s.locks.release p f, ?_⟩
  simp only [handlerStep, hp, hk, hfd, Proc.emit_bind, Proc.pure_res]

/-- A daemon takes the name away in order if no other instance is there. -/
theorem orderly_leaves (hp : s.instances p = some i) (hpc : i.pc = .running) (hh : i.handlers = [])
    (hfd : i.pidFd = some fd) (halone : ∀ q, q ≠ p → s.instances q = none) :
    Proc.Along step Orderly s (leaves p) := by
  have hsigint : (step s (.sigint p)).res = .ok (s.set p { i with handlers := [.unlocking] }) := by
    simp [step, sigint, hp, hpc, hh, hfd]
  refine ⟨trivial, fun s₁ h₁ => ?_⟩
  cases hsigint.symm.trans h₁
  have hp₁ := set_instances_self s p { i with handlers := [.unlocking] }
  obtain ⟨locks, hunlocks⟩ := handlerStep_unlocks (k := 0) hp₁ rfl hfd false
  refine ⟨orderly_handler false hp₁ (by simp), fun s₂ h₂ => ?_⟩
  cases hunlocks.symm.trans h₂
  have hp₂ := set_instances_self { s.set p { i with handlers := [.unlocking] } with locks := locks } p
    { i with handlers := [.closing] }
  obtain ⟨locks', hcloses⟩ := handlerStep_closes (k := 0) hp₂ rfl hfd false
  refine ⟨orderly_handler false hp₂ (by simp), fun s₃ h₃ => ?_⟩
  cases hcloses.symm.trans h₃
  refine ⟨fun _ q j f offset hq hj => ?_, fun _ _ => trivial⟩
  -- its own file is closed by now
  by_cases hqp : q = p
  · subst hqp
    rw [set_instances_self] at hq
    cases hq
    cases hj
  · simp only [set_instances_of_ne _ hqp, halone q hqp] at hq
    cases hq

end

/-- **At most one daemon runs as long as no file loses its name while it is open**, and then its file is the one with
the name. -/
theorem one_daemon_of_orderly {stale : Option (List Byte)} {acts : List Act} {out : List (Pid × DaemonCall)} {s : System}
    (hrun : acts.foldlM step (init stale) = ⟨out, .ok s⟩) (ho : Proc.Along step Orderly (init stale) acts) {p q : Pid}
    {i j : Instance} {f g : Inode} (hp : s.instances p = some i) (hq : s.instances q = some j) (hi : Guards i f)
    (hj : Guards j g) : p = q ∧ s.entry = some f := by
  have hnamed : Named s := Proc.Along.inv step (fun _ _ _ h ho hs => h.changes ho (step_changes hs))
    (named_init stale) ho hrun
  obtain ⟨offset, hf, -⟩ := id hi
  obtain ⟨offset', hg, -⟩ := id hj
  have hentry := hnamed p i f offset hp hf
  have hfg := hentry.symm.trans (hnamed q j g offset' hq hg)
  cases hfg
  exact ⟨(lockInv_of_run hrun).one_guard hp hq hi hj, hentry⟩

/-- A daemon comes in, leaves and takes the name away. Of two that come in then, one is refused the lock. -/
def restart : List Act := comesIn 10 4 9 ++ (leaves 10 ++ (comesIn 20 4 9 ++ comesIn 30 4 9))

theorem orderly_restart : Proc.Along step Orderly (init none) restart := by
  obtain ⟨out, s, hrun, hothers, i, hp, hpc, hfd, hh, -⟩ :=
    comesIn_guards (lockInv_init none) rfl (r := 10) rfl 4 (show 0 < 9 by decide)
  refine Proc.Along.append step (orderly_comesIn _ 10 4 9) fun s' hs' => ?_
  cases hs'.symm.trans (congrArg Proc.res hrun)
  refine Proc.Along.append step (orderly_leaves hp hpc hh hfd hothers) fun s' _ => ?_
  exact Proc.Along.append step (orderly_comesIn s' 20 4 9) fun s' _ => orderly_comesIn s' 30 4 9

theorem one_daemon_orderly_restart : ∃ out s, restart.foldlM step (init none) = ⟨out, .ok s⟩ ∧
    Proc.Along step Orderly (init none) restart ∧ s.instances 10 = some ⟨.running, some 4, none, []⟩ ∧
    s.instances 20 = some ⟨.running, some 4, some (2, 3), []⟩ ∧ s.instances 30 = none ∧ s.entry = some 2 := by
  have hend : ((restart.foldlM step (init none)).res.map fun s => (s.instances 10, s.instances 20, s.instances 30)) =
      .ok (some ⟨.running, some 4, none, []⟩, some ⟨.running, some 4, some (2, 3), []⟩, none) := by decide
  obtain ⟨s, hrun, hs⟩ := Proc.eq_ok_of_map hend
  simp only [Prod.mk.injEq] at hs
  obtain ⟨h10, h20, h30⟩ := hs
  have hguards : Guards ⟨.running, some 4, some (2, 3), []⟩ 2 := ⟨3, rfl, .inr rfl, .inl (by decide)⟩
  exact ⟨_, s, hrun, orderly_restart, h10, h20, h30,
    (one_daemon_of_orderly hrun orderly_restart h20 h20 hguards hguards).2⟩

/-! ## A second daemon -/

/-- **Any unlink while a daemon runs lets a second one come in**: the instance that unlinks need not be a daemon, and
the first daemon is left as it is. -/
theorem second_daemon_after_unlink {stale : Option (List Byte)} {acts : List Act} {out : List (Pid × DaemonCall)}
    {s : System}
    (hrun : acts.foldlM step (init stale) = ⟨out, .ok s⟩) {p q r : Pid} {i j : Instance} {k : Nat} {f : Inode}
    (hp : s.instances p = some i) (hk : i.handlers[k]? = some .unlinking) (hq : s.instances q = some j) (hj : Guards j f)
    (hr : s.instances r = none) (reused : Bool) (fd : Nat) {n : Nat} (hn : 0 < n) :
    ∃ out' s' g, (.handler p k reused :: comesIn r fd n).foldlM step s = ⟨out', .ok s'⟩ ∧ s'.instances q = some j ∧
      ∃ i', s'.instances r = some i' ∧ i'.pc = .running ∧ i'.handlers = [] ∧ Guards i' g ∧ r ≠ q ∧ g ≠ f := by
  have hinv := lockInv_of_run hrun
  have hstep : (s.step (.handler p k reused)).res =
      .ok ({ s with entry := none }.set p { i with handlers := i.handlers.eraseIdx k }) := by
    simp [step, handlerStep, hp, hk]
  obtain ⟨offset, hfile, -⟩ := id hj
  have hqp : q ≠ p := by
    rintro rfl
    rw [hp] at hq
    cases hq
    rw [(hinv.instances q i hp).closed (List.mem_of_getElem? hk)] at hfile
    cases hfile
  have hrp : r ≠ p := by
    rintro rfl
    rw [hp] at hr
    cases hr
  have hrq : r ≠ q := by
    rintro rfl
    rw [hq] at hr
    cases hr
  obtain ⟨out', s', hcomes, hsame, i', hr', hpc, -, hh, hguards⟩ := comesIn_guards (hinv.changes (step_changes hstep)) rfl
    (r := r) (by rw [set_instances_of_ne _ hrp]; exact hr) fd hn
  refine ⟨_, s', s.next, Proc.eq_of_ok ?_, ?_, i', hr', hpc, hh, hguards, hrq, ?_⟩
  · rw [List.foldlM_cons, Proc.bind_of_ok hstep, hcomes]
  · rw [hsame q hrq.symm, set_instances_of_ne _ hqp]
    exact hq
  · exact ((hinv.instances q j hq).known f offset hfile).ne'

/-- A daemon, and an instance without `-d` that is at its unlink. -/
def atUnlink : List Act := comesIn 10 4 9 ++ [.start 20 false, .sigint 20]

theorem second_daemon_atUnlink : ∃ out s, atUnlink.foldlM step (init none) = ⟨out, .ok s⟩ ∧ ∃ out' s',
    (.handler 20 0 false :: comesIn 30 4 9).foldlM step s = ⟨out', .ok s'⟩ ∧ s'.instances 10 = some firstDaemon ∧
      ∃ i', s'.instances 30 = some i' ∧ i'.pc = .running := by
  have hend : ((atUnlink.foldlM step (init none)).res.map fun s => (s.instances 10, s.instances 20, s.instances 30)) =
      .ok (some firstDaemon, some ⟨.running, none, none, [.unlinking]⟩, none) := by decide
  obtain ⟨s, hrun, hs⟩ := Proc.eq_ok_of_map hend
  simp only [Prod.mk.injEq] at hs
  obtain ⟨h10, h20, h30⟩ := hs
  obtain ⟨out', s', g, hrun', h10', i', h30', hpc, -⟩ := second_daemon_after_unlink (k := 0) hrun h20 rfl h10
    guards_firstDaemon h30 false 4 (show 0 < 9 by decide)
  exact ⟨_, s, hrun, out', s', hrun', h10', i', h30', hpc⟩

end System

/-! ## The handler of an instance is `handle_signal` -/

def DaemonCall.effect? : DaemonCall → Option Effect
  | .close fd => some (.sys (.close fd))
  | .unlink path => some (.sys (.unlink path))
  | .stderr text => some (.stderr text [])
  | _ => none

/-- A run of the handler that nothing comes between does what `handle_signal` does before its loop. -/
theorem handlerSteps_handleSignal {s : System} {p : Pid} {i : Instance} {fd : Nat} (hp : s.instances p = some i)
    (hh : i.handlers = [.unlocking]) (hfd : i.pidFd = some fd) (reused : Bool) (threads : Nat → Tid) :
    ((List.replicate 3 (.handler p 0 reused)).foldlM System.step s).out.filterMap (·.2.effect?) =
      (handleSignal .sigint ⟨fd, if i.file.isSome || reused then 0 else -1⟩ threads 0).out := by
  have hne : ((fd : Nat) : Int) ≠ -1 := by omega
  obtain ⟨pc, pidFd, file, handlers⟩ := i
  cases hh
  cases hfd
  cases hret : (file.isSome || reused) with
  | true =>
    simp [System.step, System.handlerStep, hp, hret, DaemonCall.effect?, hne, handleSignal, killThreads, List.replicate]
  | false =>
    simp [System.step, System.handlerStep, hp, hret, DaemonCall.effect?, hne, handleSignal, killThreads, List.replicate]

/-! ## The descriptors of a daemon -/

theorem closeLoop_res (fds : Fds OpenFile) (n : Nat) : (closeLoop fds n).res = .ok (fds.closeDown n) := by
  induction n generalizing fds with
  | zero => rfl
  | succ n ih => exact ih (fds.close (n + 1))

theorem fopenNull_res {env : DaemonEnv} (hnull : env.devNull = true) (mode : String) (fds : Fds OpenFile) :
    (fopenNull env mode fds).res = .ok (fds.openFile env.limit (.devNull mode)).2 := by
  simp [fopenNull, hnull]

theorem daemonizeOpen_eq_ok {fd : Option Nat} {n : Nat} (h : (daemonizeOpen fd).res = .ok n) : fd = some n := by
  cases fd with
  | none => cases h
  | some m =>
    cases h
    rfl

/-- What `daemonize` has opened when it returns. -/
theorem daemonize_opened {env : DaemonEnv} {fds fds' : Fds OpenFile} {pidFd : Nat} (hnull : env.devNull = true)
    (h : (daemonize env fds).res = .ok (fds', pidFd)) :
    let fds₁ := (fds.closeDown env.openMax.toNat).openFile env.limit (.devNull "r")
    let fds₂ := fds₁.2.openFile env.limit (.devNull "w+")
    let fds₃ := fds₂.2.openFile env.limit (.devNull "w+")
    fds₃.2.openFile env.limit .pidFile = (some pidFd, fds') := by
  unfold daemonize at h
  obtain ⟨-, -, h, -⟩ := Proc.bind_eq_ok h
  obtain ⟨-, -, h, -⟩ := Proc.bind_eq_ok h
  split at h
  next => cases h
  next =>
    obtain ⟨-, -, h, -⟩ := Proc.bind_eq_ok h
    obtain ⟨-, -, h, -⟩ := Proc.bind_eq_ok h
    obtain ⟨-, -, h, -⟩ := Proc.bind_eq_ok h
    obtain ⟨-, -, h, -⟩ := Proc.bind_eq_ok h
    split at h
    next => cases h
    next =>
      obtain ⟨fds₀, h₀, h, -⟩ := Proc.bind_eq_ok h
      obtain ⟨fds₁, h₁, h, -⟩ := Proc.bind_eq_ok h
      obtain ⟨fds₂, h₂, h, -⟩ := Proc.bind_eq_ok h
      obtain ⟨fds₃, h₃, h, -⟩ := Proc.bind_eq_ok h
      rw [closeLoop_res] at h₀
      rw [fopenNull_res hnull] at h₁ h₂ h₃
      cases h₀
      cases h₁
      cases h₂
      cases h₃
      obtain ⟨fd, hfd, h, -⟩ := Proc.bind_eq_ok h
      obtain ⟨-, -, h, -⟩ := Proc.bind_eq_ok h
      obtain ⟨-, -, h, -⟩ := Proc.bind_eq_ok h
      have hopen := daemonizeOpen_eq_ok hfd
      cases hp : env.pidFile with
      | false =>
        rw [hp] at hopen
        cases hopen
      | true =>
        rw [hp] at hopen h
        cases h
        exact Prod.ext hopen rfl

/-- **The descriptors of a daemon, whatever was open before.** Number 0 is not closed, so the standard streams are one
higher than 0, 1 and 2 if it was open. -/
theorem daemonize_descriptors {env : DaemonEnv} {fds fds' : Fds OpenFile} {pidFd : Nat} (hnull : env.devNull = true)
    (hmax : ∀ n, env.openMax.toNat < n → fds n = none) (h : (daemonize env fds).res = .ok (fds', pidFd)) :
    ∃ b, b = (if (fds 0).isSome then 1 else 0) ∧ pidFd = b + 3 ∧ (∀ n < b, fds' n = fds n) ∧
      fds' b = some (.devNull "r") ∧ fds' (b + 1) = some (.devNull "w+") ∧ fds' (b + 2) = some (.devNull "w+") ∧
      fds' (b + 3) = some .pidFile ∧ ∀ n, b + 4 ≤ n → fds' n = none := by
  have hopened := daemonize_opened hnull h
  have h0 := Fds.packed_closeDown hmax
  have hkept : ∀ n < if (fds 0).isSome then 1 else 0, fds.closeDown env.openMax.toNat n = fds n := by
    intro n hn
    rw [Fds.closeDown_apply, if_neg (by split at hn <;> omega)]
  generalize (if (fds 0).isSome then 1 else 0) = b at h0 hkept ⊢
  generalize fds.closeDown env.openMax.toNat = t at hopened h0 hkept
  have h1 := h0.update (.devNull "r")
  have h2 := h1.update (.devNull "w+")
  have h3 := h2.update (.devNull "w+")
  by_cases hb : b + 3 < env.limit
  · have hb2 : b + 2 < env.limit := by omega
    have hb1 : b + 1 < env.limit := by omega
    have hb0 : b < env.limit := by omega
    simp only [h0.openFile, h1.openFile, h2.openFile, h3.openFile, hb0, hb1, hb2, hb, if_true, Prod.mk.injEq,
      Option.some.injEq] at hopened
    obtain ⟨rfl, rfl⟩ := hopened
    refine ⟨b, rfl, rfl, fun n hn => ?_, ?_, ?_, ?_, ?_, fun n hn => ?_⟩
    · rw [Function.update_of_ne (by omega), Function.update_of_ne (by omega), Function.update_of_ne (by omega),
        Function.update_of_ne (by omega), hkept n hn]
    · rw [Function.update_of_ne (by omega), Function.update_of_ne (by omega), Function.update_of_ne (by omega),
        Function.update_self]
    · rw [Function.update_of_ne (by omega), Function.update_of_ne (by omega), Function.update_self]
    · rw [Function.update_of_ne (by omega), Function.update_self]
    · exact Function.update_self ..
    · exact (h3.update OpenFile.pidFile n).mpr hn
  · -- once the numbers are used up, the lock file gets none
    by_cases hb0 : b < env.limit
    · by_cases hb1 : b + 1 < env.limit
      · by_cases hb2 : b + 2 < env.limit
        · simp [h0.openFile, h1.openFile, h2.openFile, h3.openFile, hb0, hb1, hb2, hb] at hopened
        · simp [h0.openFile, h1.openFile, h2.openFile, hb0, hb1, hb2] at hopened
      · simp [h0.openFile, h1.openFile, hb0, hb1] at hopened
    · simp [h0.openFile, hb0] at hopened

def sampleDaemonEnv : DaemonEnv where
  fork := 0
  setsid := 7
  forkAgain := 0
  chdir := 0
  openMax := 8
  limit := 8
  devNull := true
  pidFile := true
  lockf := 0
  pid := 10
  write := 3

/-- Started from a terminal, with one more file open. -/
def sampleFds : Fds OpenFile := fun n => if n < 4 then some .inherited else none

theorem daemonize_sampleFds : ∃ fds', (daemonize sampleDaemonEnv sampleFds).res = .ok (fds', 4) ∧
    fds' 0 = some .inherited ∧ fds' 1 = some (.devNull "r") ∧ ∀ n, 5 ≤ n → fds' n = none := by
  have hend : ((daemonize sampleDaemonEnv sampleFds).res.map Prod.snd) = .ok 4 := by decide
  obtain ⟨⟨fds', pidFd⟩, hrun, rfl⟩ := Proc.eq_ok_of_map hend
  have hres := congrArg Proc.res hrun
  have hmax : ∀ n, sampleDaemonEnv.openMax.toNat < n → sampleFds n = none := by
    intro n hn
    have hge : 8 < n := hn
    exact if_neg (by omega)
  obtain ⟨b, hb, -, hzero, hone, -, -, -, hrest⟩ := daemonize_descriptors rfl hmax hres
  have hb1 : b = 1 := hb
  subst hb1
  exact ⟨fds', hres, hzero 0 Nat.zero_lt_one, hone, hrest⟩

end Mqrestt
