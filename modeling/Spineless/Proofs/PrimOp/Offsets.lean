import Spineless.Proofs.Offsets

/-!
# Offsets of string pointers in primitive operations

A primitive operation that is called with bounded arguments in a bounded state answers bounded atoms and
leaves a bounded state. Only two operations make a new pointer or take one out of another atom: `plusAddr#`
moves one, and the range is checked; `deRefStablePtr#` gives back what was put in. All others hand on what
they are given or find in the state.

There is one lemma for each family, and `Registry.standard_bounds` puts them together.
-/

namespace Spineless

open PrimOp

variable {host : Host}

/-- The values of an answer are bounded. -/
def Answer.Bounded (answer : Answer) : Prop := ∀ atoms, answer = some atoms → ∀ a ∈ atoms, a.Bounded

namespace Exec.Bounds

variable {α : Type} {P : α → Prop} {call : Call}

theorem answer {a : Atom} (ha : a.Bounded) : (Exec.answer a).Bounds Answer.Bounded :=
  .pure fun _ h => Option.some.inj h ▸ List.forall_mem_singleton.2 ha

/-- The answer of a scalar. -/
theorem scalar {a : Atom} (ha : a.stringPtr? = none) : (Exec.answer a).Bounds Answer.Bounded :=
  .answer (.scalar ha)

theorem noValues : Exec.noValues.Bounds Answer.Bounded :=
  .pure fun _ h => Option.some.inj h ▸ fun _ ha => absurd ha List.not_mem_nil

theorem declined : Exec.declined.Bounds Answer.Bounded := .pure fun _ h => (nomatch h)

theorem refuse (misfit : Misfit) : (call.refuse misfit : Exec α).Bounds P := .fail _

theorem index (n : Int64) : (call.index n).Bounds fun _ => True :=
  .ite (fun _ => .refuse _) fun _ => .pure trivial

theorem filled (fits : Nat → Bool) (value : α) (size : Nat) :
    (call.filled fits value size).Bounds fun xs => ∀ a ∈ xs, a = value :=
  .ite (fun _ => .pure fun _ ha => (Array.mem_replicate.1 ha).2) fun _ => .refuse _

theorem rangeOr (misfit : Nat → Nat → Nat → Misfit) (size : Nat) (offset count : Int64) :
    (call.rangeOr misfit size offset count).Bounds fun _ => True :=
  .bind (.index _) fun _ _ => .bind (.index _) fun _ _ => .ite (fun _ => .pure trivial) fun _ => .refuse _

end Exec.Bounds

namespace PrimOp

open Exec (Bounds)

variable {call : Call}

theorem IntOp.bounds (op : IntOp) : (op.run call).Bounds Answer.Bounded := by
  fun_cases IntOp.run op call
  all_goals first | exact .scalar rfl | exact .refuse _ | exact .declined

theorem WordOp.bounds (op : WordOp) : (op.run call).Bounds Answer.Bounded := by
  fun_cases WordOp.run op call
  all_goals first | exact .scalar rfl | exact .refuse _ | exact .declined

theorem CharOp.bounds (op : CharOp) : (op.run call).Bounds Answer.Bounded := by
  fun_cases CharOp.run op call
  all_goals first | exact .scalar rfl | exact .declined

theorem FloatOp.bounds {F : Type} (p : Precision F) (hto : ∀ x, (p.toAtom x).stringPtr? = none)
    (hconv : ∀ x, (p.converted x).stringPtr? = none) (op : FloatOp) :
    (op.run p call).Bounds Answer.Bounded := by
  fun_cases FloatOp.run p op call
  · exact .scalar rfl
  · exact .scalar (hto _)
  · exact .scalar (hto _)
  · exact .scalar rfl
  · exact .scalar (hconv _)
  · exact .declined

/-- A pointer that was moved is in the range, wherever it was. -/
theorem AddrOp.bounds_move (p : StringPtr) (n : Int64) :
    (AddrOp.move call p n).Bounds fun q => q.offset < Bound.int := by
  fun_cases AddrOp.move call p n with
  | case1 target hin =>
      obtain ⟨-, hnonneg, hlt⟩ := hin
      exact .pure ((Int.toNat_lt hnonneg).2 hlt)
  | case2 => exact .refuse _

theorem AddrOp.bounds_byteAt (p : StringPtr) (n : Int64) :
    (AddrOp.byteAt call p n).Bounds fun _ => True := by
  refine .bind (bounds_move p n) fun q _ => .bind .get fun s _ => ?_
  cases s.strings.byteAt? q with
  | none => exact .refuse _
  | some byte => exact .pure trivial

theorem AddrOp.bounds (op : AddrOp) : (op.run call).Bounds Answer.Bounded := by
  fun_cases AddrOp.run op call with
  | case1 => exact .bind (bounds_move _ _) fun q hq => .answer (Atom.bounded_str.2 hq)
  | case6 | case7 => exact .bind (bounds_byteAt _ _) fun _ _ => .scalar rfl
  | case2 | case4 => exact .scalar rfl
  | case3 | case5 | case8 => exact .declined

section Arguments

variable (hargs : ∀ a ∈ call.args, a.Bounded)
include hargs

theorem MutVarOp.bounds (op : MutVarOp) : (op.run call).Bounds Answer.Bounded := by
  fun_cases MutVarOp.run op call with
  | case1 value heq =>
      exact .bind (.newMutVar (hargs value (by simp [heq]))) fun _ _ => .scalar rfl
  | case2 h => exact .bind .readMutVar fun _ ha => .answer ha
  | case3 h value heq =>
      exact .bind (.writeMutVar (hargs value (by simp [heq]))) fun _ _ => .noValues
  | case4 => exact .declined

omit hargs in
/-- An attempt gives its success and what it found. -/
theorem MVarOp.bounded_attempt {found : Option Atom} (hfound : ∀ a ∈ found, a.Bounded) :
    Answer.Bounded (some (attempt found)) := by
  rintro _ ⟨⟩
  cases found with
  | none => exact List.forall_mem_cons.2 ⟨.scalar rfl, List.forall_mem_singleton.2 (.scalar rfl)⟩
  | some value => exact List.forall_mem_cons.2 ⟨.scalar rfl, List.forall_mem_singleton.2 (hfound value rfl)⟩

theorem MVarOp.bounds (op : MVarOp) : (op.run call).Bounds Answer.Bounded := by
  have hempty : ∀ a ∈ (none : Option Atom), a.Bounded := fun a ha => (nomatch ha)
  have hvalue : ∀ {h value}, call.args = [.mvar h, value, .void] → ∀ a ∈ some value, a.Bounded := by
    rintro h value heq _ ⟨⟩
    exact hargs value (by simp [heq])
  -- The cases are: create, take, read, put, then the three attempts at these, the test for emptiness,
  -- and arguments of the wrong sort.
  fun_cases MVarOp.run op call with
  | case1 => exact .bind .newMVar fun _ _ => .scalar rfl
  | case2 h =>
      refine .bind .readMVar fun found hfound => ?_
      cases found with
      | none => exact .fail _
      | some value => exact .bind (.writeMVar hempty) fun _ _ => .answer (hfound value rfl)
  | case3 h =>
      refine .bind .readMVar fun found hfound => ?_
      cases found with
      | none => exact .fail _
      | some value => exact .answer (hfound value rfl)
  | case4 h value heq =>
      refine .bind .readMVar fun found hfound => ?_
      cases found with
      | none => exact .bind (.writeMVar (hvalue heq)) fun _ _ => .noValues
      | some _ => exact .fail _
  | case5 h =>
      refine .bind .readMVar fun found hfound => ?_
      cases found with
      | none => exact .pure (bounded_attempt hfound)
      | some value => exact .bind (.writeMVar hempty) fun _ _ => .pure (bounded_attempt hfound)
  | case6 h => exact .bind .readMVar fun _ hfound => .pure (bounded_attempt hfound)
  | case7 h value heq =>
      refine .bind .readMVar fun found hfound => ?_
      cases found with
      | none => exact .bind (.writeMVar (hvalue heq)) fun _ _ => .scalar rfl
      | some _ => exact .scalar rfl
  | case8 h => exact .bind .readMVar fun _ _ => .scalar rfl
  | case9 => exact .declined

end Arguments

namespace ArrayOp

variable {kind source target : ArrayKind} {h : Handle}

theorem bounds_range (size : Nat) (offset count : Int64) :
    (ArrayOp.range call size offset count).Bounds fun _ => True :=
  .rangeOr .rangeOutside size offset count

theorem bounds_element (i : Int64) : (element kind call h i).Bounds Answer.Bounded := by
  refine .bind .readArray fun xs hxs => .bind (bounds_range _ _ _) fun r _ => .pure fun atoms hatoms => ?_
  obtain ⟨a, ha, rfl⟩ := Option.map_eq_some_iff.1 hatoms
  exact List.forall_mem_singleton.2 (hxs a (Array.mem_of_getElem? ha))

theorem bounds_copyWhole : (copyWhole source target h).Bounds fun _ => True :=
  .bind .readArray fun _ hxs => .newArray _ hxs

theorem bounded_slice {xs : Array Atom} (hxs : ∀ a ∈ xs, a.Bounded) (start count : Nat) :
    ∀ a ∈ slice xs start count, a.Bounded :=
  fun a ha => hxs a (mem_of_mem_slice ha)

theorem bounds_copyRange (offset count : Int64) :
    (copyRange source target call h offset count).Bounds fun _ => True :=
  .bind .readArray fun _ hxs => .bind (bounds_range _ _ _) fun _ _ => .newArray _ (bounded_slice hxs _ _)

theorem bounds_copyInto {src dst : Handle} (srcOffset dstOffset count : Int64) :
    (copyInto source target call src srcOffset dst dstOffset count).Bounds Answer.Bounded := by
  refine .bind .readArray fun xs hxs => .bind (bounds_range _ _ _) fun r _ => .bind .readArray fun _ _ =>
    .bind (bounds_range _ _ _) fun _ _ => .bind (.modifyArray fun old hold a ha => ?_) fun _ _ => .noValues
  rcases mem_of_mem_splice ha with ha | ha
  · exact hold a ha
  · exact bounded_slice hxs _ _ a ha

theorem bounds (fl : Flavour) (hargs : ∀ a ∈ call.args, a.Bounded) (op : ArrayOp) :
    (op.run host fl call).Bounds Answer.Bounded := by
  have hfrozen : ∀ i, (fl.frozen i).stringPtr? = none := by cases fl <;> exact fun _ => rfl
  have hmutable : ∀ i, (fl.mutable i).stringPtr? = none := by cases fl <;> exact fun _ => rfl
  -- Every second case is the one in which an argument is no array of the flavour.
  fun_cases ArrayOp.run host fl op call with
  | case1 count init heq =>
      refine .bind (.index _) fun n _ => .bind (.filled _ init n) fun xs hxs => ?_
      refine .bind (.newArray _ fun a ha => ?_) fun _ _ => .scalar (hmutable _)
      rw [hxs a ha]
      exact hargs init (by simp [heq])
  | case2 | case4 => exact bounds_element _
  | case6 arr i value heq =>
      refine .bind .readArray fun _ _ => .bind (bounds_range _ _ _) fun r _ =>
        .bind (.modifyArray fun old hold a ha => ?_) fun _ _ => .noValues
      rcases Array.mem_or_eq_of_mem_setIfInBounds ha with ha | rfl
      · exact hold a ha
      · exact hargs a (by simp [heq])
  | case8 | case10 | case12 => exact .bind .readArray fun _ _ => .scalar rfl
  | case14 => exact .bind bounds_copyWhole fun _ _ => .scalar (hfrozen _)
  | case16 => exact .bind bounds_copyWhole fun _ _ => .scalar (hmutable _)
  | case18 => exact .bind (bounds_copyRange _ _) fun _ _ => .scalar (hfrozen _)
  | case20 => exact .bind (bounds_copyRange _ _) fun _ _ => .scalar (hmutable _)
  | case22 | case24 => exact bounds_copyInto _ _ _
  | _ => exact .declined

end ArrayOp

namespace ByteOp

variable {h : Handle}

theorem bounds_range (size : Nat) (offset count : Int64) :
    (ByteOp.range call size offset count).Bounds fun _ => True :=
  .rangeOr .bytesOutside size offset count

theorem bounds_elementStart (size : Nat) (i : Int64) (width : Nat) :
    (elementStart call size i width).Bounds fun _ => True :=
  .bind (.index _) fun _ _ => .ite (fun _ => .pure trivial) fun _ => .refuse _

theorem bounds_create (size : Int64) (pinned : Bool) : (create host call size pinned).Bounds Answer.Bounded :=
  .bind (.index _) fun _ _ => .bind (.filled _ _ _) fun _ _ => .bind (.newBytes _ _) fun _ _ => .scalar rfl

theorem bounds_fetch (e : Element) (i : Int64) : (fetch e call h i).Bounds Answer.Bounded :=
  .bind .readBytes fun _ _ => .bind (bounds_elementStart _ _ _) fun _ _ => .scalar (by cases e <;> rfl)

theorem bounds (op : ByteOp) : (op.run host call).Bounds Answer.Bounded := by
  fun_cases ByteOp.run host op call with
  | case1 | case2 => exact bounds_create _ _
  | case3 | case4 | case6 | case7 => exact .bind .readBytes fun _ _ => .scalar rfl
  | case5 h count =>
      exact .bind (.index _) fun _ _ => .bind .readBytes fun _ _ =>
        .ite (fun _ => .refuse _) fun _ => .bind (.modifyBytes _) fun _ _ => .noValues
  | case8 =>
      exact .bind .readBytes fun _ _ => .bind (bounds_range _ _ _) fun _ _ => .bind .readBytes fun _ _ =>
        .bind (bounds_range _ _ _) fun _ _ => .bind (.modifyBytes _) fun _ _ => .noValues
  | case9 | case10 => exact bounds_fetch _ _
  | case11 e h i value =>
      refine .bind .readBytes fun _ _ => .bind (bounds_elementStart _ _ _) fun _ _ => ?_
      cases e.encode? value with
      | none => exact .declined
      | some encoded => exact .bind (.modifyBytes _) fun _ _ => .noValues
  | case12 => exact .declined

end ByteOp

theorem TagOp.bounds (op : TagOp) : (op.run call).Bounds Answer.Bounded := by
  fun_cases TagOp.run op call with
  | case1 => exact .bind (.readCon _) fun _ _ => .scalar rfl
  | case2 | case3 => exact .refuse _
  | case4 => exact .bind (.allocate fun _ hb => absurd hb List.not_mem_nil) fun _ _ => .scalar rfl
  | case5 => exact .declined

theorem ConcurrencyOp.bounds (hargs : ∀ a ∈ call.args, a.Bounded) (op : ConcurrencyOp) :
    (op.run call).Bounds Answer.Bounded := by
  fun_cases ConcurrencyOp.run op call with
  | case1 => exact .bind .get fun _ _ => .scalar rfl
  | case2 => exact .bind .newWeak fun _ _ => .scalar rfl
  | case3 => exact .noValues
  -- A stable pointer carries the pointer of the atom inside.
  | case4 value heq => exact .answer fun p hp => hargs value (by simp [heq]) p hp
  | case5 inner heq => exact .answer fun p hp => hargs (.stable inner) (by simp [heq]) p hp
  | case6 => exact .declined

end PrimOp

/-! ## The registry -/

variable {call : Call}

theorem Handler.bounds_ofNames {Op : Type} {family : String} {names : List String}
    {ofName? : String → Option Op} {run : Op → Call → Exec Answer}
    (hrun : ∀ op, (run op call).Bounds Answer.Bounded) :
    ((Handler.ofNames family names ofName? run).evaluate call).Bounds Answer.Bounded := by
  cases hop : ofName? call.name with
  | none =>
      rw [evaluate_ofNames_of_none hop]
      exact .declined
  | some op =>
      rw [evaluate_ofNames_of_some hop]
      exact hrun op

/-- Every standard family keeps string pointers in the range. -/
theorem PrimOp.bounds_of_mem_standardHandlers (hargs : ∀ a ∈ call.args, a.Bounded) {handler : Handler}
    (h : handler ∈ PrimOp.standardHandlers host) : (handler.evaluate call).Bounds Answer.Bounded := by
  simp only [standardHandlers, List.mem_cons, List.not_mem_nil, or_false] at h
  rcases h with rfl | rfl | rfl | rfl | rfl | rfl | rfl | rfl | rfl | rfl | rfl | rfl | rfl
  · exact Handler.bounds_ofNames (FloatOp.bounds single (fun _ => rfl) fun _ => rfl)
  · exact Handler.bounds_ofNames (FloatOp.bounds double (fun _ => rfl) fun _ => rfl)
  · exact Handler.bounds_ofNames IntOp.bounds
  · exact Handler.bounds_ofNames WordOp.bounds
  · exact Handler.bounds_ofNames CharOp.bounds
  · exact Handler.bounds_ofNames (MutVarOp.bounds hargs)
  · exact Handler.bounds_ofNames (MVarOp.bounds hargs)
  · exact Handler.bounds_ofNames (ArrayOp.bounds .large hargs)
  · exact Handler.bounds_ofNames (ArrayOp.bounds .small hargs)
  · exact Handler.bounds_ofNames ByteOp.bounds
  · exact Handler.bounds_ofNames AddrOp.bounds
  · exact Handler.bounds_ofNames TagOp.bounds
  · exact Handler.bounds_ofNames (ConcurrencyOp.bounds hargs)

/-- A call with bounded arguments is answered with bounded values. -/
theorem Registry.standard_bounds (hargs : ∀ a ∈ call.args, a.Bounded) :
    ((Registry.standard host).evaluate call).Bounds fun atoms => ∀ a ∈ atoms, a.Bounded := by
  have hanswer : ((Registry.standard host).answer call).Bounds Answer.Bounded := by
    unfold Registry.answer
    cases howner : (Registry.standard host).owner? call.name with
    | none => exact .pure fun _ h => (nomatch h)
    | some handler =>
        obtain ⟨i, -, hi⟩ := Option.bind_eq_some_iff.1 howner
        exact PrimOp.bounds_of_mem_standardHandlers hargs (mem_of_mem_ofHandlers (Array.mem_of_getElem? hi))
  refine .bind hanswer fun answer hbounded => ?_
  cases answer with
  | none => exact .fail _
  | some atoms => exact .pure (hbounded atoms rfl)

end Spineless
