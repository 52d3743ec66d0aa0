import Mqrestt.Effect

/-!
# Effects of interest

What a run published, answered and posted, and which stores it made into the buffer
of a body, read off from its effects. Code that only logs and works on its own memory
is quiet: it does none of this.
-/

namespace Mqrestt
open CSem

/-! ## Messages, answers and posts -/

def Effect.publish? : Effect → Option Publish
  | .publish p => some p
  | _ => none

def publishes (out : List Effect) : List Publish := out.filterMap Effect.publish?

def Effect.response? : Effect → Option Response
  | .queueResponse r => some r
  | _ => none

def responses (out : List Effect) : List Response := out.filterMap Effect.response?

def Effect.perform? : Effect → Option (HttpRequest × CurlCode)
  | .perform req res => some (req, res)
  | _ => none

def performs (out : List Effect) : List (HttpRequest × CurlCode) := out.filterMap Effect.perform?

theorem publishes_append (a b : List Effect) : publishes (a ++ b) = publishes a ++ publishes b :=
  List.filterMap_append

theorem responses_append (a b : List Effect) : responses (a ++ b) = responses a ++ responses b :=
  List.filterMap_append

theorem performs_append (a b : List Effect) : performs (a ++ b) = performs a ++ performs b :=
  List.filterMap_append

@[simp] theorem performs_nil : performs [] = [] := rfl

@[simp] theorem performs_log (t : LogMsgType) (f : String) (as : List LogArg) (out : List Effect) :
    performs (.log t f as :: out) = performs out := rfl

@[simp] theorem performs_perform (req : HttpRequest) (res : CurlCode) (out : List Effect) :
    performs (.perform req res :: out) = (req, res) :: performs out := rfl

/-! ## Stores into a body -/

/-- A store through `incoming->data`: the size last requested for the buffer, and the index. -/
def Effect.bodyWrite? : Effect → Option (Nat × Int)
  | .write .incomingData size index => some (size, index)
  | _ => none

def bodyWrites (out : List Effect) : List (Nat × Int) := out.filterMap Effect.bodyWrite?

theorem bodyWrites_append (a b : List Effect) : bodyWrites (a ++ b) = bodyWrites a ++ bodyWrites b :=
  List.filterMap_append

theorem bodyWrites_writes (n : Nat) (ss : Stores) :
    bodyWrites (writes .incomingData n ss) = ss.map fun s => (n, s.1) := by
  rw [bodyWrites, writes, List.filterMap_map, ← List.filterMap_eq_map]
  rfl

/-! ## Indices used -/

def Effect.access? (o : Obj) : Effect → Option Int
  | .read o' _ i | .write o' _ i => if o' = o then some i else none
  | _ => none

def accesses (o : Obj) (out : List Effect) : List Int := out.filterMap (Effect.access? o)

theorem accesses_append (o : Obj) (a b : List Effect) : accesses o (a ++ b) = accesses o a ++ accesses o b :=
  List.filterMap_append

@[simp] theorem accesses_nil (o : Obj) : accesses o [] = [] := rfl

@[simp] theorem accesses_log (o : Obj) (t : LogMsgType) (f : String) (as : List LogArg) (out : List Effect) :
    accesses o (.log t f as :: out) = accesses o out := rfl

@[simp] theorem accesses_perform (o : Obj) (req : HttpRequest) (res : CurlCode) (out : List Effect) :
    accesses o (.perform req res :: out) = accesses o out := rfl

@[simp] theorem accesses_read (o : Obj) (n : Nat) (i : Int) (out : List Effect) :
    accesses o (.read o n i :: out) = i :: accesses o out := by
  simp [accesses, Effect.access?]

@[simp] theorem accesses_writes (o : Obj) (n : Nat) (ss : Stores) : accesses o (writes o n ss) = ss.map Prod.fst := by
  simp [accesses, writes, Effect.access?, List.filterMap_map, Function.comp_def]

@[simp] theorem accesses_reads (o : Obj) (n : Nat) (is : List Int) : accesses o (reads o n is) = is := by
  simp [accesses, reads, Effect.access?, List.filterMap_map, Function.comp_def]

/-! ## Quiet code -/

def Effect.internal : Effect → Bool
  | .log .. | .stderr .. | .read .. | .write .. => true
  | _ => false

def Quiet (out : List Effect) : Prop := ∀ e ∈ out, e.internal = true

theorem quiet : Proc.Compositional Quiet := Proc.compositional_forall _

@[simp] theorem quiet_nil : Quiet [] := quiet.nil

@[simp] theorem quiet_cons (e : Effect) (out : List Effect) : Quiet (e :: out) ↔ e.internal = true ∧ Quiet out :=
  List.forall_mem_cons

@[simp] theorem quiet_log (t : LogMsgType) (f : String) (as : List LogArg) :
    Quiet (Proc.emit (.log t f as) : Run Unit).out := by
  simp [Effect.internal]

theorem quiet_writes (o : Obj) (n : Nat) (ss : Stores) : Quiet (Proc.emits (writes o n ss) : Run Unit).out := by
  intro e he
  obtain ⟨_, _, rfl⟩ := List.mem_map.mp he
  rfl

theorem quiet_reads (o : Obj) (n : Nat) (is : List Int) : Quiet (Proc.emits (reads o n is) : Run Unit).out := by
  intro e he
  obtain ⟨_, _, rfl⟩ := List.mem_map.mp he
  rfl

section
variable {out : List Effect} (h : Quiet out)
include h

theorem Quiet.filterMap_nil {α : Type} {f : Effect → Option α} (hf : ∀ e, e.internal = true → f e = none) :
    out.filterMap f = [] :=
  List.filterMap_eq_nil_iff.mpr fun e he => hf e (h e he)

theorem Quiet.publishes : publishes out = [] := by
  apply h.filterMap_nil
  intro e he
  cases e <;> first | rfl | cases he

theorem Quiet.responses : responses out = [] := by
  apply h.filterMap_nil
  intro e he
  cases e <;> first | rfl | cases he

theorem Quiet.performs : performs out = [] := by
  apply h.filterMap_nil
  intro e he
  cases e <;> first | rfl | cases he

end

end Mqrestt
