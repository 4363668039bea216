import Spineless.Proofs.PrimOp.Ranges
import Spineless.Proofs.Reentrancy
import Spineless.Proofs.Timeline

/-!
# Frozen arrays and the elements of mutable ones

A frozen array and the mutable array that it was frozen from are two arrays in two spaces, and nothing
writes into a frozen one. `Spaces.Evolves` says what calls leave of the arrays: frozen arrays are as they
were, mutable arrays have the length that they had, and an element that is not as it was has been written
by one of the calls. It holds of one call, and it adds up over calls in a row.

A run of a machine changes its spaces by the primitive operations that it calls and by nothing else.
`Moment.Path` follows a session and keeps the calls that were answered on the way, so that the statement
about calls is one about sessions too (`Registry.arrays_evolve`).
-/

namespace Spineless

open PrimOp

variable {host : Host}

/-! ## Calls that write to an element -/

/-- The operation that writes an element of an array. -/
def PrimOp.Flavour.writeName : Flavour → String
  | .large => "writeArray#"
  | .small => "writeSmallArray#"

/-- A call writes to an element of a mutable array: it names the array as the destination, and what it
writes covers the element. -/
inductive Call.WritesTo (call : Call) (fl : Flavour) (h : Handle) (i : Nat) : Prop
  | write {index : Int64} {value : Atom}
      (asks : call.Asks fl.writeName [fl.mutable h, .int index, value, .void]) (covers : index.toInt = i)
  | copy {name : String} {source : Space} {src : Handle} {srcOffset dstOffset count : Int64}
      (copies : (name, source, fl.mutableKind.space) ∈ Registry.copies)
      (asks : call.Asks name
        [source.handle src, .int srcOffset, fl.mutable h, .int dstOffset, .int count, .void])
      (covers : dstOffset.toInt ≤ i ∧ i < dstOffset.toInt + count.toInt)

namespace PrimOp

variable {call : Call} {s t : State} {atoms : List Atom} {fl : Flavour} {op : ArrayOp}

theorem Flavour.mutable_eq_handle (fl : Flavour) (h : Handle) :
    fl.mutable h = fl.mutableKind.space.handle h := by
  cases fl <;> rfl

/-- The operations that write into mutable arrays of a flavour are the write of an element and the two
copies. -/
theorem Flavour.lookup_of_mem_writers {name : String} (hname : name ∈ fl.mutableKind.space.writers) :
    (name = fl.writeName ∧ fl.table.lookup name = some .write) ∨
    ∃ op source, ArrayOp.CopiesFrom fl op source ∧ fl.table.lookup name = some op ∧
      (name, source.space, fl.mutableKind.space) ∈ Registry.copies := by
  cases fl <;>
    simp only [mutableKind, ArrayKind.space, Space.writers, List.mem_cons, List.not_mem_nil,
      or_false] at hname <;>
    rcases hname with rfl | rfl | rfl
  all_goals first
    | exact .inl ⟨rfl, rfl⟩
    | exact .inr ⟨.copy, _, .frozen, rfl, by decide⟩
    | exact .inr ⟨.copyMutable, _, .mutable, rfl, by decide⟩

/-- A write that is answered changes one element of a mutable array. -/
theorem ArrayOp.run_write_cases (hrun : ArrayOp.run host fl .write call s = .ok (some atoms) t) :
    ∃ dst index value ys, call.args = [fl.mutable dst, .int index, value, .void] ∧
      (s.spaces.arraysOf fl.mutableKind)[dst]? = some ys ∧ Fits index 1 ys.size ∧
      t = { s with spaces := s.spaces.modifyArrays fl.mutableKind (·.modify dst fun old =>
        old.setIfInBounds index.toInt.toNat value) } := by
  generalize hop : ArrayOp.write = op at hrun
  revert hrun
  fun_cases ArrayOp.run host fl op call with
  | case6 arr index value hargs dst harr =>
      intro hrun
      obtain ⟨ys, u, hread, hrun⟩ := Exec.bind_eq_ok.1 hrun
      obtain ⟨hys, rfl⟩ := Exec.readArray_eq_ok.1 hread
      obtain ⟨r, u, hr, hrun⟩ := Exec.bind_eq_ok.1 hrun
      obtain ⟨hfits, rfl, rfl⟩ := ArrayOp.range_eq_ok.1 hr
      obtain ⟨_, u, hmodify, hrun⟩ := Exec.bind_eq_ok.1 hrun
      rw [Exec.modifyArray_of_eq hys] at hmodify
      cases hmodify
      obtain ⟨-, rfl⟩ := Exec.pure_eq_ok.1 hrun
      have harr := Flavour.eq_handle_of_mutable? harr
      rw [← Flavour.mutable_eq_handle] at harr
      exact ⟨dst, index, value, ys, harr ▸ hargs, hys, hfits, rfl⟩
  | case7 | case26 => rintro ⟨⟩
  | _ => cases hop

/-- A copy that is answered has the two arrays and the ranges as its arguments. -/
theorem ArrayOp.args_of_copy {source : ArrayKind}
    (hop : op.CopiesFrom fl source)
    (hrun : op.run host fl call s = .ok (some atoms) t) :
    ∃ src srcOffset dst dstOffset count, call.args =
      [source.space.handle src, .int srcOffset, fl.mutableKind.space.handle dst, .int dstOffset, .int count,
        .void] := by
  revert hrun
  fun_cases ArrayOp.run host fl op call with
  | case22 a srcOffset b dstOffset count hargs src dst hb ha =>
      intro _
      cases hop
      rw [Flavour.eq_handle_of_frozen? ha, Flavour.eq_handle_of_mutable? hb] at hargs
      exact ⟨src, srcOffset, dst, dstOffset, count, hargs⟩
  | case24 a srcOffset b dstOffset count hargs src dst hb ha =>
      intro _
      cases hop
      rw [Flavour.eq_handle_of_mutable? ha, Flavour.eq_handle_of_mutable? hb] at hargs
      exact ⟨src, srcOffset, dst, dstOffset, count, hargs⟩
  | case23 | case25 | case26 => rintro ⟨⟩
  | _ => cases hop

/-- A copy that is answered finds both arrays. -/
theorem ArrayOp.exists_of_copyInto {source target : ArrayKind} {src dst : Handle}
    {srcOffset dstOffset count : Int64} {answer : Answer}
    (hrun : copyInto source target call src srcOffset dst dstOffset count s = .ok answer t) :
    (∃ xs, (s.spaces.arraysOf source)[src]? = some xs) ∧
      ∃ ys, (s.spaces.arraysOf target)[dst]? = some ys := by
  obtain ⟨xs, u, hread, hrun⟩ := Exec.bind_eq_ok.1 hrun
  obtain ⟨hxs, rfl⟩ := Exec.readArray_eq_ok.1 hread
  obtain ⟨r, u, hr, hrun⟩ := Exec.bind_eq_ok.1 hrun
  obtain ⟨-, rfl, rfl⟩ := ArrayOp.range_eq_ok.1 hr
  obtain ⟨ys, u, hread, -⟩ := Exec.bind_eq_ok.1 hrun
  exact ⟨⟨xs, hxs⟩, ys, (Exec.readArray_eq_ok.1 hread).1⟩

end PrimOp

/-! ## What calls leave of arrays -/

/-- What calls leave of the arrays of atoms. -/
structure Spaces.Evolves (sp : Spaces) (calls : List Call) (sp' : Spaces) : Prop where
  /-- Frozen arrays are as they were. -/
  frozen : ∀ (fl : Flavour) (h : Handle) (xs : Array Atom), (sp.arraysOf fl.frozenKind)[h]? = some xs →
    (sp'.arraysOf fl.frozenKind)[h]? = some xs
  /-- Mutable arrays have their length, and elements that are not as they were have been written. -/
  mutable : ∀ (fl : Flavour) (h : Handle) (xs : Array Atom), (sp.arraysOf fl.mutableKind)[h]? = some xs →
    ∃ ys, (sp'.arraysOf fl.mutableKind)[h]? = some ys ∧ ys.size = xs.size ∧
      ∀ i, ys[i]? ≠ xs[i]? → ∃ call ∈ calls, call.WritesTo fl h i

namespace Spaces.Evolves

variable {sp sp' sp'' : Spaces} {call : Call} {calls more : List Call} {s t : State} {atoms : List Atom}
  {fl : Flavour}

/-- Nothing happens to arrays that are as they were. -/
theorem of_arraysOf (h : ∀ (kind : ArrayKind) (h : Handle) (xs : Array Atom),
      (sp.arraysOf kind)[h]? = some xs → (sp'.arraysOf kind)[h]? = some xs) :
    sp.Evolves calls sp' where
  frozen fl := h fl.frozenKind
  mutable fl k xs hxs := ⟨xs, h fl.mutableKind k xs hxs, rfl, fun _ hi => absurd rfl hi⟩

theorem of_eq (h : sp' = sp) : sp.Evolves calls sp' :=
  of_arraysOf fun _ _ _ hxs => h ▸ hxs

/-- Calls after calls. -/
theorem trans (h : sp.Evolves calls sp') (h' : sp'.Evolves more sp'') : sp.Evolves (calls ++ more) sp'' where
  frozen fl k xs hxs := h'.frozen fl k xs (h.frozen fl k xs hxs)
  mutable fl k xs hxs := by
    obtain ⟨ys, hys, hsize, hwritten⟩ := h.mutable fl k xs hxs
    obtain ⟨zs, hzs, hsize', hwritten'⟩ := h'.mutable fl k ys hys
    refine ⟨zs, hzs, hsize'.trans hsize, fun i hi => ?_⟩
    -- An element that is not as it was at first changed on the first or on the second part of the way.
    by_cases hmid : ys[i]? = xs[i]?
    · rw [← hmid] at hi
      obtain ⟨call, hmem, hwrites⟩ := hwritten' i hi
      exact ⟨call, List.mem_append_right _ hmem, hwrites⟩
    · obtain ⟨call, hmem, hwrites⟩ := hwritten i hmid
      exact ⟨call, List.mem_append_left _ hmem, hwrites⟩

/-- One mutable array is changed where a call writes to. -/
theorem of_modify {dst : Handle} {ys : Array Atom} {f : Array Atom → Array Atom}
    (hys : (sp.arraysOf fl.mutableKind)[dst]? = some ys) (hsize : (f ys).size = ys.size)
    (hwrites : ∀ i, (f ys)[i]? ≠ ys[i]? → call.WritesTo fl dst i) :
    sp.Evolves [call] (sp.modifyArrays fl.mutableKind (·.modify dst f)) := by
  have hover := Spaces.overwrites_array hys f
  have hkept : ∀ kind h xs, ¬ (kind = fl.mutableKind ∧ h = dst) → (sp.arraysOf kind)[h]? = some xs →
      ((sp.modifyArrays fl.mutableKind (·.modify dst f)).arraysOf kind)[h]? = some xs := by
    intro kind h xs hne hxs
    rw [← cell?_eq_array, hover.cell?, if_neg]
    · exact cell?_eq_array.2 hxs
    · rintro ⟨hkind, rfl⟩
      refine hne ⟨?_, rfl⟩
      revert hkind
      cases kind <;> cases fl <;> simp [ArrayKind.space, Flavour.mutableKind]
  constructor
  · intro fl' h xs hxs
    refine hkept _ h xs ?_ hxs
    rintro ⟨hkind, -⟩
    cases fl <;> cases fl' <;> cases hkind
  · intro fl' h xs hxs
    by_cases heq : fl'.mutableKind = fl.mutableKind ∧ h = dst
    · obtain ⟨hkind, rfl⟩ := heq
      obtain rfl : fl' = fl := by cases fl <;> cases fl' <;> first | rfl | cases hkind
      cases hys.symm.trans hxs
      refine ⟨f ys, ?_, hsize, fun i hi => ⟨call, by simp, hwrites i hi⟩⟩
      rw [← cell?_eq_array, hover.cell?, if_pos ⟨rfl, rfl⟩]
    · exact ⟨xs, hkept _ h xs heq hxs, rfl, fun _ hi => absurd rfl hi⟩

/-- An operation that writes into mutable arrays of a flavour writes where its call says. -/
theorem of_writer (fl : Flavour) (hname : call.name ∈ fl.mutableKind.space.writers)
    (hcall : (Registry.standard host).evaluate call s = .ok atoms t) : s.spaces.Evolves [call] t.spaces := by
  rcases Flavour.lookup_of_mem_writers hname with ⟨hwrite, hlookup⟩ | ⟨op, source, hop, hlookup, hcopies⟩
  · rw [Registry.array_evaluate_iff_run fl hlookup] at hcall
    obtain ⟨dst, index, value, ys, hargs, hys, hfits, rfl⟩ := ArrayOp.run_write_cases hcall
    refine of_modify hys Array.size_setIfInBounds fun i hi => .write ⟨hwrite, hargs⟩ ?_
    rw [Array.getElem?_setIfInBounds] at hi
    have hindex := hfits.1
    by_cases heq : index.toInt.toNat = i
    · omega
    · exact absurd (if_neg heq) hi
  · rw [Registry.array_evaluate_iff_run fl hlookup] at hcall
    obtain ⟨src, srcOffset, dst, dstOffset, count, hargs⟩ := ArrayOp.args_of_copy hop hcall
    rw [ArrayOp.run_copyInto hop hargs] at hcall
    obtain ⟨⟨xs, hxs⟩, ys, hys⟩ := ArrayOp.exists_of_copyInto hcall
    obtain ⟨hsrc, hdst, -, rfl⟩ := (ArrayOp.copyInto_eq_ok hxs hys).1 hcall
    have hsize := size_slice hsrc.le
    have hle : dstOffset.toInt.toNat +
        (slice xs srcOffset.toInt.toNat count.toInt.toNat).size ≤ ys.size := by
      rw [hsize]
      exact hdst.le
    refine of_modify hys (size_splice ys _ _ hle) fun i hi => ?_
    rw [← Flavour.mutable_eq_handle] at hargs
    refine .copy hcopies ⟨rfl, hargs⟩ ?_
    rw [getElem?_splice hle, hsize] at hi
    by_cases hinside : dstOffset.toInt.toNat ≤ i ∧ i < dstOffset.toInt.toNat + count.toInt.toNat
    · have hoffset := hdst.1
      have hcount := hdst.2.1
      omega
    · exact absurd (if_neg hinside) hi

/-- An answered call changes no frozen array, and of the mutable ones the elements that it writes to. -/
theorem of_call (hcall : (Registry.standard host).evaluate call s = .ok atoms t) :
    s.spaces.Evolves [call] t.spaces := by
  by_cases hlarge : call.name ∈ Space.mutableArray.writers
  · exact of_writer .large hlarge hcall
  · by_cases hsmall : call.name ∈ Space.smallMutableArray.writers
    · exact of_writer .small hsmall hcall
    · refine of_arraysOf fun kind h xs hxs => ?_
      have hname : call.name ∉ kind.space.writers := by
        cases kind with
        | array | smallArray => exact List.not_mem_nil
        | mutableArray => exact hlarge
        | smallMutableArray => exact hsmall
      exact cell?_eq_array.1 (Registry.standard_retains hcall hname h _ (cell?_eq_array.2 hxs))

end Spaces.Evolves

/-! ## Sessions -/

namespace Moment

/-- The call of a primitive operation that a run is about to make. -/
def opCall? : Moment → Option Call
  | .running _ _ ⟨.eval (.opApp op args resultType resultTyCon), s⟩ =>
    match Exec.arguments args s with
    | .ok atoms _ => some ⟨op, atoms, resultType, resultTyCon⟩
    | .error _ _ => none
  | _ => none

/-- The call that was answered between a moment and the next: the run goes on after it. -/
def answered? (μ : Moment) : Moment → Option Call
  | .running _ _ _ => μ.opCall?
  | .idle _ | .failed _ _ _ => none

/-- A session from one moment to another, with the calls that were answered on the way. -/
inductive Path : Moment → List Call → Moment → Prop
  | refl (μ : Moment) : Path μ [] μ
  | head {μ ν ξ : Moment} {calls : List Call} (next : Next μ ν) (rest : Path ν calls ξ) :
      Path μ ((answered? μ ν).toList ++ calls) ξ

/-- Every later moment is at the end of a path. -/
theorem Later.exists_path {μ ν : Moment} (h : Later μ ν) : ∃ calls, Path μ calls ν := by
  induction h using Relation.ReflTransGen.head_induction_on with
  | refl => exact ⟨[], .refl ν⟩
  | head hnext _ ih =>
      obtain ⟨calls, hpath⟩ := ih
      exact ⟨_, .head hnext hpath⟩

end Moment

section Sessions

open Snapshot Moment

variable {r : Registry} {base : Nat} {code code' : Code} {s t : State} {e : Fault} {μ ν : Moment}

/-- Loading a program, or failing to, touches neither the spaces nor the primitive operations. -/
theorem Called.spaces_of_load {m m' : Machine} {p : Program} {reply : Reply}
    (h : Called m (.load p) reply m') :
    m'.state.spaces = m.state.spaces ∧ m'.registry = m.registry := by
  cases h with
  | loaded hallocates =>
      obtain ⟨strings, objects, -, rfl⟩ := Exec.allocateGlobals_eq_ok hallocates
      exact ⟨rfl, rfl⟩
  | notLoaded hfails =>
      obtain ⟨strings, done, x, rhs, rest, objects, -, -, rfl, -⟩ := Exec.allocateGlobals_eq_error hfails
      exact ⟨rfl, rfl⟩
  | returned hstart | failed hstart | exhausted hstart => cases hstart

theorem Moment.spaces_of_load {m m' : Machine} {p : Program} {outcome : Outcome Machine Unit}
    (hload : Machine.load p m = outcome) (hm' : (Reply.ofOutcome (fun _ => []) outcome).2 = m') :
    m'.state.spaces = m.state.spaces ∧ m'.registry = m.registry := by
  have hperforms : (Command.load p).perform 0 m =
      some ((Reply.ofOutcome (fun _ => []) outcome).1, m') := by
    rw [Command.perform, hload, ← hm']
  exact (Command.perform_load hperforms).spaces_of_load

/-- Only a primitive operation changes the spaces. -/
theorem Transition.spaces_eq (h : Transition r base code s code' t)
    (hcode : ∀ op args resultType resultTyCon, code ≠ .eval (.opApp op args resultType resultTyCon)) :
    t.spaces = s.spaces := by
  cases h with
  | app => exact State.spaces_pushArgs
  | opApp => exact absurd rfl (hcode _ _ _ _)
  | applyFull => exact State.spaces_pushArgs
  | @select s frame rest binder _ _ atoms =>
      obtain ⟨env, henv⟩ := State.bindValue_eq (s.resumed frame rest) binder atoms
      rw [henv]
      rfl
  | lit | conApp | multiVal | case | letOne | letGroup | enterScalar | enterValue | enterThunk | update
  | applyPartial => rfl

/-- A transition that fails leaves the spaces alone. -/
theorem Failure.spaces_eq (h : Failure (.standard host) base code s e t) : t.spaces = s.spaces := by
  cases h with
  | unbound | unboundMember | overflow | dangling | blackholed | covered | rejected => rfl
  | operation _ heval =>
      obtain ⟨rfl, -⟩ := Registry.standard_evaluate_eq_error heval
      rfl

/-- A transition of a run changes the spaces by the call that it makes. -/
theorem Snapshot.Steps.evolves {c d : Snapshot} {m : Machine} {n : Nat} (h : Steps (.standard host) base c d) :
    c.state.spaces.Evolves (opCall? (.running m n c)).toList d.state.spaces := by
  obtain ⟨code, s⟩ := c
  by_cases hcode : ∃ op args resultType resultTyCon, code = .eval (.opApp op args resultType resultTyCon)
  · obtain ⟨op, args, resultType, resultTyCon, rfl⟩ := hcode
    obtain ⟨code', t, heval, h⟩ := Exec.bind_eq_ok.1 h
    obtain ⟨atoms, u, hargs, heval⟩ := Exec.bind_eq_ok.1 heval
    obtain ⟨results, v, hresults, heval⟩ := Exec.bind_eq_ok.1 heval
    obtain ⟨-, rfl⟩ := Exec.pure_eq_ok.1 heval
    obtain ⟨-, hstate⟩ := Exec.pure_eq_ok.1 h
    obtain ⟨⟨strings, rfl⟩, -⟩ := Exec.arguments_eq_ok hargs
    have hcalled := Spaces.Evolves.of_call hresults
    simp only [opCall?, hargs]
    rw [← hstate]
    exact hcalled
  · refine .of_eq (h.transition.spaces_eq fun op args resultType resultTyCon heq => hcode ?_)
    exact ⟨op, args, resultType, resultTyCon, heq⟩

/-- What happens next in a session leaves the primitive operations of the machine alone. -/
theorem Moment.Next.registry_eq (h : Next μ ν) : ν.machine.registry = μ.machine.registry := by
  cases h with
  | loaded hload | notLoaded hload => exact (spaces_of_load hload rfl).2
  | starts | steps | returns | fails | exhausted | unwinds => rfl

/-- What happens next in a session changes the spaces by the call that is answered. -/
theorem Moment.Next.evolves (h : Next μ ν) (hregistry : μ.machine.registry = .standard host) :
    μ.state.spaces.Evolves (answered? μ ν).toList ν.state.spaces := by
  cases h with
  | loaded hload | notLoaded hload => exact .of_eq (spaces_of_load hload rfl).1
  | @starts m command start hstart =>
      obtain ⟨name, env, hstate⟩ := Command.exists_scope_of_start? hstart
      refine .of_eq ?_
      change start.state.spaces = m.state.spaces
      rw [hstate]
      rfl
  | @steps m n c d _ hstep =>
      change m.registry = .standard host at hregistry
      rw [hregistry] at hstep
      exact hstep.evolves
  | @fails m n d e t _ hstep =>
      change m.registry = .standard host at hregistry
      rw [hregistry] at hstep
      exact .of_eq (step_eq_error hstep).spaces_eq
  | returns | exhausted | unwinds => exact .of_eq rfl

/-- A path changes the spaces by the calls that were answered on it. -/
theorem Moment.Path.evolves {calls : List Call} (h : Path μ calls ν)
    (hregistry : μ.machine.registry = .standard host) : μ.state.spaces.Evolves calls ν.state.spaces := by
  induction h with
  | refl => exact .of_eq rfl
  | head hnext _ ih =>
      exact (hnext.evolves hregistry).trans (ih (hnext.registry_eq.trans hregistry))

end Sessions

/-! ## Calls in a row -/

/-- The calls of a log that were answered. -/
def Entry.answered (log : List Entry) : List Call :=
  log.filterMap fun entry =>
    match entry.outcome with
    | .ok _ => some entry.call
    | .error _ => none

namespace Registry

/-- Calls in a row change the spaces by those that were answered. -/
theorem evolves_of_log (calls : List Call) (s : State) :
    s.spaces.Evolves (Entry.answered ((standard host).log calls s).1)
      ((standard host).log calls s).2.spaces := by
  refine standard_log_induction (motive := fun s log t => s.spaces.Evolves (Entry.answered log) t.spaces)
    ?_ ?_ ?_ calls s
  · exact fun s => .of_eq rfl
  · intro call s atoms t log u hcall ih
    exact (Spaces.Evolves.of_call hcall).trans ih
  · intro call s e log u _ ih
    exact ih

/-- Whatever is called, and whatever a machine runs, frozen arrays stay as they are, mutable arrays keep
their length, and their elements change by the writes and copies that were answered and that cover them. -/
theorem arrays_evolve :
    (∀ (calls : List Call) (s : State),
      s.spaces.Evolves (Entry.answered ((standard host).log calls s).1)
        ((standard host).log calls s).2.spaces) ∧
    (∀ (μ ν : Moment) (calls : List Call), μ.machine.registry = .standard host → Moment.Path μ calls ν →
      μ.state.spaces.Evolves calls ν.state.spaces) ∧
    ∀ μ ν : Moment, Moment.Later μ ν → ∃ calls, Moment.Path μ calls ν :=
  ⟨evolves_of_log, fun _ _ _ hregistry hpath => hpath.evolves hregistry, fun _ _ => Moment.Later.exists_path⟩

/-- A machine with a mutable array and a frozen copy of it. -/
def frozenCopy : Machine where
  state := { traceLimit := 0, maxStackDepth := 0, spaces := {
    arrays := #[#[.int 1, .int 2]], mutableArrays := #[#[.int 1, .int 2]] } }
  registry := .standard
  config := {}

/-- The first element of the mutable array is written. -/
def writeFirst : Call := ⟨"writeArray#", [.mutableArray 0, .int 0, .int 9, .void], .poly, none⟩

/-- A run writes to the mutable array, and the frozen copy stays. -/
theorem arrays_evolve_frozenCopy :
    ∃ ν, Moment.Path (.idle frozenCopy) [writeFirst] ν ∧
      (ν.state.spaces.arraysOf .mutableArray)[0]? = some #[.int 9, .int 2] ∧
      (ν.state.spaces.arraysOf .array)[0]? = some #[.int 1, .int 2] := by
  let arr : Ident := ⟨"arr", "1"⟩
  let args : List Arg := [.var arr, .lit (.int 0), .lit (.int 9), .var .realWorld]
  let env : Env := Env.empty.bind arr (.mutableArray 0)
  let write : Expr := .opApp "writeArray#" args .poly none
  let start : State := frozenCopy.state.enterScope arr env
  let written : State := { start with spaces := { start.spaces with mutableArrays := #[#[.int 9, .int 2]] } }
  have hargs : Exec.arguments args start = .ok writeFirst.args start := rfl
  have hcall : standard.evaluate writeFirst start = .ok [] written :=
    (array_evaluate_iff_run .large rfl).2 rfl
  have hregistry : frozenCopy.registry = .standard := by rw [frozenCopy]
  have hstep : Snapshot.Steps frozenCopy.registry 0 ⟨.eval write, start⟩ ⟨.ret [], written⟩ := by
    rw [hregistry]
    refine Exec.bind_eq_ok.2 ⟨.ret [], written, ?_, rfl⟩
    exact Exec.bind_eq_ok.2 ⟨_, _, hargs, Exec.bind_eq_ok.2 ⟨[], written, hcall, rfl⟩⟩
  have hstarts : Moment.Next (.idle frozenCopy) (.running frozenCopy 0 ⟨.eval write, start⟩) :=
    .starts (show (Command.eval arr env write).start? frozenCopy = some _ from rfl)
  have hsteps : Moment.Next (.running frozenCopy 0 ⟨.eval write, start⟩)
      (.running frozenCopy 1 ⟨.ret [], written⟩) := .steps rfl hstep
  have hreturns : Moment.Next (.running frozenCopy 1 ⟨.ret [], written⟩)
      (.idle (frozenCopy.after 2 written)) := .returns rfl rfl (Nat.le_refl 0)
  have hpath : Moment.Path (.idle frozenCopy) [writeFirst] (.idle (frozenCopy.after 2 written)) :=
    .head hstarts (.head hsteps (.head hreturns (.refl _)))
  have hevolves := arrays_evolve.2.1 (.idle frozenCopy) _ _ hregistry hpath
  exact ⟨_, hpath, rfl, hevolves.frozen .large 0 _ rfl⟩

end Registry

end Spineless
