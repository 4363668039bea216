import Spineless.PrimOp.Registry
import Spineless.Proofs.Reference

/-!
# What a primitive operation may do

`Lawful call s outcome` says all that the later modules need to know about a call of a primitive
operation in a state: it is declined or refused and changes nothing, or it is answered as `Answered`
says. An answer touches at most one thing, and every reference in it was supplied by the arguments or
is the one that the call created.

A handler's program is a sequence of checks, which read the state and may refuse, and one last action.
`Lawful.bind` runs a check; the sections below list the checks.
-/

namespace Spineless

namespace Call

/-- A reference that a call is given: by an argument, or by the cell behind an argument that is a
handle. -/
def Supplies (call : Call) (sp : Spaces) (ref : Ref) : Prop :=
  ∃ a ∈ call.args, a.ref? = some ref ∨
    ∃ k h cell, a = k.handle h ∧ sp.cell? k h = some cell ∧ ∃ b ∈ cell.atoms, b.ref? = some ref

/-- An atom that carries no reference beyond those a call is given. -/
def Covers (call : Call) (sp : Spaces) (a : Atom) : Prop := ∀ ref, a.ref? = some ref → call.Supplies sp ref

/-- The operations that hand back a stored atom as their only result. -/
def fetches : List String := [
  "readMutVar#", "takeMVar#", "readMVar#", "readArray#", "indexArray#", "readSmallArray#",
  "indexSmallArray#", "deRefStablePtr#"]

variable {call : Call} {sp : Spaces} {a : Atom}

/-- A scalar carries no reference. -/
theorem Covers.scalar (h : a.ref? = none) : call.Covers sp a := by
  intro ref href
  rw [h] at href
  cases href

/-- An argument is covered. -/
theorem Covers.arg (h : a ∈ call.args) : call.Covers sp a :=
  fun _ href => ⟨a, h, .inl href⟩

/-- What a cell behind an argument holds is covered. -/
theorem Covers.cell (cell : Cell) {k : Space} {h : Handle} {b : Atom}
    (harg : k.handle h ∈ call.args) (hcell : sp.cell? k h = some cell) (hb : b ∈ cell.atoms) :
    call.Covers sp b :=
  fun _ href => ⟨_, harg, .inr ⟨k, h, cell, rfl, hcell, b, hb, href⟩⟩

end Call

/-- The state and the values after an answered call. -/
inductive Answered (call : Call) (s : State) : List Atom → State → Prop
  /-- Values of which none is new; the state stays as it is. -/
  | reply {atoms : List Atom} (covers : ∀ a ∈ atoms, call.Covers s.spaces a)
      (fetch : ∀ p, atoms = [.ptr p] → call.name ∈ Call.fetches) : Answered call s atoms s
  /-- One more weak pointer. -/
  | counted (name : call.name = "mkWeakNoFinalizer#") :
      Answered call s [.weak s.spaces.weakPointers]
        { s with spaces := { s.spaces with weakPointers := s.spaces.weakPointers + 1 } }
  /-- One constructor without fields, at a fresh address. -/
  | allocated (con : DataCon) (name : call.name = "tagToEnum#") :
      Answered call s [.ptr s.heap.size] (s.grow [some (.con con [])])
  /-- One new cell. -/
  | appended {space : Space} {cell : Cell} {sp : Spaces} {a : Atom}
      (appends : s.spaces.Appends sp space cell)
      (covers : ∀ b ∈ cell.atoms, call.Covers s.spaces b)
      (ref : a.ref? = some (.cell space (s.spaces.count space))) :
      Answered call s [a] { s with spaces := sp }
  /-- New contents of the cell behind an argument. -/
  | overwritten {space : Space} {h : Handle} {cell : Cell} {sp : Spaces} {atoms : List Atom}
      (arg : space.handle h ∈ call.args) (overwrites : s.spaces.Overwrites sp space h cell)
      (covers : ∀ b ∈ cell.atoms, call.Covers s.spaces b)
      (results : ∀ a ∈ atoms, call.Covers s.spaces a)
      (fetch : ∀ p, atoms = [.ptr p] → call.name ∈ Call.fetches) :
      Answered call s atoms { s with spaces := sp }

/-- An answered call changes neither the scope nor the frames nor the top-level variables. -/
theorem Answered.frame {call : Call} {s t : State} {atoms : List Atom} (h : Answered call s atoms t) :
    t.env = s.env ∧ t.stack = s.stack ∧ t.globals = s.globals := by
  cases h with
  | reply | counted | allocated | appended | overwritten => exact ⟨rfl, rfl, rfl⟩

/-- An answered call allocates at most one constructor without fields, and touches no other object. -/
theorem Answered.object?_cases {call : Call} {s t : State} {atoms : List Atom}
    (h : Answered call s atoms t) :
    t.heap = s.heap ∨ ∃ con, call.name = "tagToEnum#" ∧ atoms = [.ptr s.heap.size] ∧
      t = s.grow [some (.con con [])] := by
  cases h with
  | allocated con hname => exact .inr ⟨con, hname, rfl, rfl⟩
  | reply | counted | appended | overwritten => exact .inl rfl

/-- A single reference is the answer of an operation that fetches it, or refers to a new constructor. -/
theorem Answered.fetches_or_fresh {call : Call} {s t : State} {p : Addr} (h : Answered call s [.ptr p] t) :
    call.name ∈ Call.fetches ∨ ∃ con, t.object? p = some (.con con []) := by
  generalize hatoms : [Atom.ptr p] = atoms at h
  cases h with
  | reply _ hfetch | overwritten _ _ _ _ hfetch => exact .inl (hfetch p hatoms.symm)
  | counted => cases hatoms
  | allocated con =>
      cases hatoms
      exact .inr ⟨con, State.object?_grow_size _⟩
  | appended _ _ href =>
      cases hatoms
      cases href

/-- Why a call may be refused. -/
inductive Refused (call : Call) (s : State) : Cause → Prop
  /-- The arguments are of the right sorts, but not acceptable. -/
  | shape (misfit : Misfit) : Refused call s (.primOpShape call.name misfit)
  /-- The call would have to wait. -/
  | wouldBlock {h : Handle} (arg : .mvar h ∈ call.args) : Refused call s (.wouldBlock call.name h)
  /-- An argument refers to an address without an object. -/
  | unknownAddress {a : Addr} (arg : .ptr a ∈ call.args) (found : s.object? a = none) :
      Refused call s (.unknownAddress a)
  /-- An argument refers to an object that is no constructor. -/
  | notAConstructor {a : Addr} {o : Object} (arg : .ptr a ∈ call.args)
      (found : s.object? a = some o) : Refused call s (.notAConstructor a o.shape)
  /-- An argument is a handle without a cell. -/
  | unknownHandle {space : Space} {h : Handle}
      (arg : space.handle h ∈ call.args) (found : s.spaces.cell? space h = none) :
      Refused call s (.unknownHandle space h)

/-- What a handler may make of a call in a state. -/
inductive Lawful (call : Call) (s : State) : EStateM.Result Fault State Answer → Prop
  /-- The call is declined. -/
  | declined : Lawful call s (.ok none s)
  /-- The call is answered. -/
  | answered {atoms : List Atom} {t : State} (h : Answered call s atoms t) :
      Lawful call s (.ok (some atoms) t)
  /-- The call is refused. -/
  | refused {cause : Cause} (h : Refused call s cause) : Lawful call s (.error ⟨cause, s.trace⟩ s)

/-- What a check may give: a value with a property, or a refusal. -/
inductive Checks (call : Call) (s : State) {α : Type} (P : α → Prop) :
    EStateM.Result Fault State α → Prop
  /-- The check is passed. -/
  | passed {v : α} (h : P v) : Checks call s P (.ok v s)
  /-- The check is not passed. -/
  | refused {cause : Cause} (h : Refused call s cause) : Checks call s P (.error ⟨cause, s.trace⟩ s)

variable {call : Call} {s : State} {α β : Type} {P : α → Prop} {Q : β → Prop}

/-- After a check that is passed, the rest decides. -/
theorem Lawful.bind {x : Exec α} {f : α → Exec Answer} (hx : Checks call s P (x s))
    (hf : ∀ v, P v → Lawful call s (f v s)) : Lawful call s ((x >>= f) s) := by
  change Lawful call s (EStateM.bind x f s)
  unfold EStateM.bind
  generalize x s = outcome at hx
  cases hx with
  | passed h => exact hf _ h
  | refused h => exact .refused h

/-- After a check that is passed, another one follows. -/
theorem Checks.bind {x : Exec α} {f : α → Exec β} (hx : Checks call s P (x s))
    (hf : ∀ v, P v → Checks call s Q (f v s)) : Checks call s Q ((x >>= f) s) := by
  change Checks call s Q (EStateM.bind x f s)
  unfold EStateM.bind
  generalize x s = outcome at hx
  cases hx with
  | passed h => exact hf _ h
  | refused h => exact .refused h

/-- The answer of a value without a reference. -/
theorem Lawful.scalar {a : Atom} (h : a.ref? = none) : Lawful call s (Exec.answer a s) := by
  refine .answered (.reply (fun b hb => ?_) (fun p hp => ?_))
  · rw [List.mem_singleton.1 hb]
    exact .scalar h
  · rw [(List.cons.inj hp).1] at h
    cases h

/-- The answer of a value that the call was given, by an operation that may do so. -/
theorem Lawful.fetched {a : Atom} (hcovers : call.Covers s.spaces a)
    (hname : call.name ∈ Call.fetches) : Lawful call s (Exec.answer a s) := by
  refine .answered (.reply (fun b hb => ?_) (fun _ _ => hname))
  rw [List.mem_singleton.1 hb]
  exact hcovers

/-- The answer without values. -/
theorem Lawful.noValues : Lawful call s (Exec.noValues s) :=
  .answered (.reply (fun _ h => absurd h List.not_mem_nil) (fun _ h => nomatch h))

/-- The answer without values after a cell behind an argument was changed. -/
theorem Answered.written {space : Space} {h : Handle} {cell : Cell} {sp : Spaces}
    (hover : s.spaces.Overwrites sp space h cell) (harg : space.handle h ∈ call.args)
    (hcovers : ∀ b ∈ cell.atoms, call.Covers s.spaces b) :
    Answered call s [] { s with spaces := sp } :=
  .overwritten harg hover hcovers (fun _ h => absurd h List.not_mem_nil) (fun _ h => nomatch h)

/-! ## Checks -/

/-- A refusal is no answer. -/
theorem Lawful.refuse (misfit : Misfit) : Lawful call s ((call.refuse misfit : Exec Answer) s) :=
  .refused (.shape misfit)

/-- A refusal passes no check. -/
theorem Checks.refuse (misfit : Misfit) : Checks call s P ((call.refuse misfit : Exec α) s) :=
  .refused (.shape misfit)

/-- A value that must be there. -/
theorem Checks.orFail {v : Option α} {cause : Cause} (h : v = none → Refused call s cause) :
    Checks call s (fun a => v = some a) (Exec.orFail v cause s) := by
  cases v with
  | none => exact .refused (h rfl)
  | some a => exact .passed rfl

/-- An index is a number that is not negative. -/
theorem Checks.index (n : Int64) :
    Checks call s (fun i => ¬ n < 0 ∧ i = n.toNatClampNeg) (call.index n s) := by
  unfold Call.index
  split
  · exact .refuse _
  · next h => exact .passed ⟨h, rfl⟩

/-- An array of equal elements. -/
theorem Checks.filled (fits : Nat → Bool) (value : α) (size : Nat) :
    Checks call s (fun xs => xs = Array.replicate size value) (call.filled fits value size s) := by
  unfold Call.filled
  split
  · exact .passed rfl
  · exact .refuse _

/-- The constructor at an address. -/
theorem Checks.readCon {a : Addr} (harg : .ptr a ∈ call.args) :
    Checks call s (fun r => s.object? a = some (.con r.1 r.2)) (Exec.readCon a s) := by
  refine Checks.bind (Checks.orFail (v := s.object? a) (.unknownAddress harg)) fun o ho => ?_
  cases o with
  | con k args => exact .passed ho
  | closure c => exact .refused (.notAConstructor harg ho)
  | blackhole o => exact .refused (.notAConstructor harg ho)

section Cells

variable {h : Handle}

/-- The value of a mutable variable. -/
theorem Checks.readMutVar (harg : .mutVar h ∈ call.args) :
    Checks call s (fun a => s.spaces.mutVars[h]? = some a) (Exec.readMutVar h s) :=
  Checks.orFail fun hnone => .unknownHandle harg (by simp [Spaces.cell?, hnone])

/-- The contents of a synchronising variable. -/
theorem Checks.readMVar (harg : .mvar h ∈ call.args) :
    Checks call s (fun a => s.spaces.mvars[h]? = some a) (Exec.readMVar h s) :=
  Checks.orFail fun hnone => .unknownHandle harg (by simp [Spaces.cell?, hnone])

/-- The contents of a byte array. -/
theorem Checks.readBytes (harg : .byteArray h ∈ call.args) :
    Checks call s (fun b => s.spaces.byteArrays[h]? = some b) (Exec.readBytes h s) :=
  Checks.orFail fun hnone => .unknownHandle harg (by simp [Spaces.cell?, hnone])

/-- The elements of an array. -/
theorem Checks.readArray {kind : ArrayKind} (harg : kind.space.handle h ∈ call.args) :
    Checks call s (fun xs => (s.spaces.arraysOf kind)[h]? = some xs) (Exec.readArray kind h s) :=
  Checks.orFail fun hnone => .unknownHandle harg (by rw [Spaces.cell?_space, hnone]; rfl)

end Cells

end Spineless
