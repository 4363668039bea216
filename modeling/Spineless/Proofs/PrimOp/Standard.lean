import Spineless.PrimOp.Standard
import Spineless.Proofs.PrimOp.Answer
import Spineless.Proofs.PrimOp.Names

/-!
# The standard families are lawful

One lemma per family, each by cases over the operations and the sorts of their arguments. The
arithmetic families only compute; the others read and change cells. `Registry.standard_answer` puts
them together: whatever the standard registry makes of a call is lawful.
-/

namespace Spineless

variable {host : Host}

namespace PrimOp

variable {call : Call} {s : State}

/-! ## Arithmetic -/

/-- Integer operations only compute. -/
theorem IntOp.lawful (op : IntOp) : Lawful call s (op.run call s) := by
  fun_cases IntOp.run op call
  all_goals first | exact .scalar rfl | exact .refuse _ | exact .declined

/-- Word operations only compute. -/
theorem WordOp.lawful (op : WordOp) : Lawful call s (op.run call s) := by
  fun_cases WordOp.run op call
  all_goals first | exact .scalar rfl | exact .refuse _ | exact .declined

/-- Character operations only compute. -/
theorem CharOp.lawful (op : CharOp) : Lawful call s (op.run call s) := by
  fun_cases CharOp.run op call
  all_goals first | exact .scalar rfl | exact .declined

/-- Floating-point operations only compute, if the numbers of a precision are scalars. -/
theorem FloatOp.lawful {F : Type} (p : Precision F) (hto : ∀ x, (p.toAtom x).ref? = none)
    (hconv : ∀ x, (p.converted x).ref? = none) (op : FloatOp) : Lawful call s (op.run p call s) := by
  fun_cases FloatOp.run p op call
  · exact .scalar rfl
  · exact .scalar (hto _)
  · exact .scalar (hto _)
  · exact .scalar rfl
  · exact .scalar (hconv _)
  · exact .declined

/-! ## String pointers -/

/-- Moving a string pointer is a check. -/
theorem AddrOp.checks_move (p : StringPtr) (n : Int64) :
    Checks call s (fun _ => True) (AddrOp.move call p n s) := by
  fun_cases AddrOp.move call p n
  · exact .passed trivial
  · exact .refuse _

/-- Reading a byte of a literal is a check. -/
theorem AddrOp.checks_byteAt (p : StringPtr) (n : Int64) :
    Checks call s (fun _ => True) (AddrOp.byteAt call p n s) := by
  refine Checks.bind (AddrOp.checks_move p n) fun q _ => ?_
  rw [Exec.get_bind]
  cases s.strings.byteAt? q with
  | none => exact .refuse _
  | some byte => exact .passed trivial

/-- Operations on string pointers only compute. -/
theorem AddrOp.lawful (op : AddrOp) : Lawful call s (op.run call s) := by
  fun_cases AddrOp.run op call with
  | case1 => exact .bind (AddrOp.checks_move _ _) fun _ _ => .scalar rfl
  | case2 => exact .scalar rfl
  | case3 => exact .declined
  | case4 => exact .scalar rfl
  | case5 => exact .declined
  | case6 => exact .bind (AddrOp.checks_byteAt _ _) fun _ _ => .scalar rfl
  | case7 => exact .bind (AddrOp.checks_byteAt _ _) fun _ _ => .scalar rfl
  | case8 => exact .declined

/-! ## Variables -/

/-- Operations on mutable variables touch the variable that they are given. -/
theorem MutVarOp.lawful {op : MutVarOp} (hop : ofName? call.name = some op) :
    Lawful call s (op.run call s) := by
  -- The cases are: create, read, write, and arguments of the wrong sort.
  fun_cases MutVarOp.run op call with
  | case1 value hargs =>
      refine .answered (.appended (s.spaces.appends_mutVar value) (fun b hb => ?_) rfl)
      rw [List.mem_singleton.1 hb]
      exact .arg (by simp [hargs])
  | case2 h hargs =>
      have harg : Atom.mutVar h ∈ call.args := by simp [hargs]
      have hname : call.name ∈ Call.fetches := by
        unfold ofName? at hop
        split at hop <;> simp_all [Call.fetches]
      refine .bind (.readMutVar harg) fun a ha => .fetched ?_ hname
      exact .cell (k := .mutVar) (.mutVar a) harg (by simp [Spaces.cell?, ha])
        (List.mem_singleton_self a)
  | case3 h value hargs =>
      have harg : Atom.mutVar h ∈ call.args := by simp [hargs]
      rw [Exec.writeMutVar, bind_assoc]
      refine .bind (.readMutVar harg) fun old hold => .answered ?_
      refine .written (Spaces.overwrites_mutVar hold value) harg fun b hb => ?_
      rw [List.mem_singleton.1 hb]
      exact .arg (by simp [hargs])
  | case4 => exact .declined

/-- A synchronising variable that was read is given new contents, and values are answered. -/
theorem MVarOp.lawful_write {h : Handle} {old contents : Option Atom} {atoms : List Atom}
    (harg : .mvar h ∈ call.args) (hold : s.spaces.mvars[h]? = some old)
    (hcovers : ∀ b ∈ contents, call.Covers s.spaces b)
    (hresults : ∀ a ∈ atoms, call.Covers s.spaces a)
    (hfetch : ∀ p, atoms = [.ptr p] → call.name ∈ Call.fetches) :
    Lawful call s ((do Exec.writeMVar h contents; pure (some atoms) : Exec Answer) s) := by
  rw [Exec.writeMVar, bind_assoc]
  have hhandle : Space.mvar.handle h ∈ call.args := harg
  refine .bind (.readMVar harg) fun _ _ => .answered ?_
  refine .overwritten hhandle (Spaces.overwrites_mvar hold contents) ?_ hresults hfetch
  intro b hb
  exact hcovers b (Option.mem_toList.1 hb)

/-- The value of a synchronising variable is covered by its handle. -/
theorem MVarOp.covers {h : Handle} {value : Atom} (harg : .mvar h ∈ call.args)
    (hfound : s.spaces.mvars[h]? = some (some value)) : call.Covers s.spaces value :=
  .cell (k := .mvar) (.mvar (some value)) harg (by simp [Spaces.cell?, hfound])
    (Option.mem_toList.2 rfl)

/-- The values of an attempt are covered, and are never one reference. -/
theorem MVarOp.covers_attempt {h : Handle} {found : Option Atom} (harg : .mvar h ∈ call.args)
    (hfound : s.spaces.mvars[h]? = some found) :
    (∀ a ∈ attempt found, call.Covers s.spaces a) ∧
      ∀ p, attempt found = [.ptr p] → call.name ∈ Call.fetches := by
  cases found with
  | none =>
      refine ⟨fun a ha => ?_, fun p hp => by cases hp⟩
      simp only [attempt, List.mem_cons, List.not_mem_nil, or_false] at ha
      rcases ha with rfl | rfl
      · exact .scalar rfl
      · exact .scalar rfl
  | some value =>
      refine ⟨fun a ha => ?_, fun p hp => by cases hp⟩
      simp only [attempt, List.mem_cons, List.not_mem_nil, or_false] at ha
      rcases ha with rfl | rfl
      · exact .scalar rfl
      · exact MVarOp.covers harg hfound

/-- Operations on synchronising variables touch the variable that they are given. -/
theorem MVarOp.lawful {op : MVarOp} (hop : ofName? call.name = some op) :
    Lawful call s (op.run call s) := by
  -- The cases are: create, take, read, put, then the three attempts at these, the test for emptiness,
  -- and arguments of the wrong sort.
  fun_cases MVarOp.run op call with
  | case1 hargs =>
      exact .answered (.appended (s.spaces.appends_mvar none) (fun _ h => absurd h List.not_mem_nil) rfl)
  | case2 h hargs =>
      have harg : Atom.mvar h ∈ call.args := by simp [hargs]
      have hname : call.name ∈ Call.fetches := by
        unfold ofName? at hop
        split at hop <;> simp_all [Call.fetches]
      refine .bind (.readMVar harg) fun found hfound => ?_
      cases found with
      | none => exact .refused (.wouldBlock harg)
      | some value =>
          refine lawful_write harg hfound (by simp) (fun a ha => ?_) (fun _ _ => hname)
          rw [List.mem_singleton.1 ha]
          exact MVarOp.covers harg hfound
  | case3 h hargs =>
      have harg : Atom.mvar h ∈ call.args := by simp [hargs]
      have hname : call.name ∈ Call.fetches := by
        unfold ofName? at hop
        split at hop <;> simp_all [Call.fetches]
      refine .bind (.readMVar harg) fun found hfound => ?_
      cases found with
      | none => exact .refused (.wouldBlock harg)
      | some value => exact .fetched (MVarOp.covers harg hfound) hname
  | case4 h value hargs =>
      have harg : Atom.mvar h ∈ call.args := by simp [hargs]
      have hvalue : value ∈ call.args := by simp [hargs]
      refine .bind (.readMVar harg) fun found hfound => ?_
      cases found with
      | some _ => exact .refused (.wouldBlock harg)
      | none =>
          refine lawful_write harg hfound (fun b hb => ?_) (by simp) (by simp)
          rw [← Option.some.inj hb]
          exact .arg hvalue
  | case5 h hargs =>
      have harg : Atom.mvar h ∈ call.args := by simp [hargs]
      refine .bind (.readMVar harg) fun found hfound => ?_
      obtain ⟨hcovers, hfetch⟩ := MVarOp.covers_attempt harg hfound
      cases found with
      | none => exact .answered (.reply hcovers hfetch)
      | some value => exact lawful_write harg hfound (by simp) hcovers hfetch
  | case6 h hargs =>
      have harg : Atom.mvar h ∈ call.args := by simp [hargs]
      refine .bind (.readMVar harg) fun found hfound => ?_
      obtain ⟨hcovers, hfetch⟩ := MVarOp.covers_attempt harg hfound
      exact .answered (.reply hcovers hfetch)
  | case7 h value hargs =>
      have harg : Atom.mvar h ∈ call.args := by simp [hargs]
      have hvalue : value ∈ call.args := by simp [hargs]
      refine .bind (.readMVar harg) fun found hfound => ?_
      cases found with
      | some _ => exact .scalar rfl
      | none =>
          refine lawful_write harg hfound (fun b hb => ?_) (fun a ha => ?_) (fun p hp => by cases hp)
          · rw [← Option.some.inj hb]
            exact .arg hvalue
          · rw [List.mem_singleton.1 ha]
            exact .scalar rfl
  | case8 h hargs =>
      have harg : Atom.mvar h ∈ call.args := by simp [hargs]
      exact .bind (.readMVar harg) fun _ _ => .scalar rfl
  | case9 => exact .declined

/-! ## Arrays -/

/-- A checked range lies inside the array. -/
theorem ArrayOp.checks_range (size : Nat) (offset count : Int64) :
    Checks call s (fun r => r.1 + r.2 ≤ size) (ArrayOp.range call size offset count s) := by
  refine Checks.bind (.index offset) fun start _ => Checks.bind (.index count) fun n _ => ?_
  by_cases hle : start + n ≤ size
  · rw [if_pos hle]
    exact .passed hle
  · rw [if_neg hle]
    exact .refuse _

/-- A slice holds elements of its array. -/
theorem mem_of_mem_slice {α : Type} {xs : Array α} {start count : Nat} {x : α}
    (h : x ∈ slice xs start count) : x ∈ xs := by
  obtain ⟨k, _, rfl⟩ := Array.mem_extract_iff_getElem.1 h
  exact Array.getElem_mem _

/-- A splice holds elements of its array and of what was put in. -/
theorem mem_of_mem_splice {α : Type} {xs new : Array α} {start : Nat} {x : α}
    (h : x ∈ splice xs start new) : x ∈ xs ∨ x ∈ new := by
  rcases Array.mem_append.1 h with h | h
  · rcases Array.mem_append.1 h with h | h
    · obtain ⟨k, _, rfl⟩ := Array.mem_extract_iff_getElem.1 h
      exact .inl (Array.getElem_mem _)
    · exact .inr h
  · obtain ⟨k, _, rfl⟩ := Array.mem_extract_iff_getElem.1 h
    exact .inl (Array.getElem_mem _)

/-- An atom that is a frozen array is a handle of the frozen space. -/
theorem Flavour.eq_handle_of_frozen? {fl : Flavour} {a : Atom} {h : Handle} (ha : fl.frozen? a = some h) :
    a = fl.frozenKind.space.handle h := by
  unfold Flavour.frozen? at ha
  split at ha
  · cases ha; rfl
  · cases ha; rfl
  · cases ha

/-- An atom that is a mutable array is a handle of the mutable space. -/
theorem Flavour.eq_handle_of_mutable? {fl : Flavour} {a : Atom} {h : Handle} (ha : fl.mutable? a = some h) :
    a = fl.mutableKind.space.handle h := by
  unfold Flavour.mutable? at ha
  split at ha
  · cases ha; rfl
  · cases ha; rfl
  · cases ha

namespace ArrayOp

variable {kind source target : ArrayKind} {h : Handle}

/-- The elements of an array behind an argument are covered. -/
theorem covers_elements (harg : kind.space.handle h ∈ call.args)
    {elements : Array Atom} (hread : (s.spaces.arraysOf kind)[h]? = some elements) {b : Atom}
    (hb : b ∈ elements) : call.Covers s.spaces b :=
  .cell (.array elements) harg (by rw [Spaces.cell?_space, hread]; rfl)
    (Array.mem_toList_iff.2 hb)

/-- Reading an element answers one of the array's. -/
theorem lawful_element (harg : kind.space.handle h ∈ call.args) (i : Int64)
    (hname : call.name ∈ Call.fetches) : Lawful call s (element kind call h i s) := by
  refine .bind (.readArray harg) fun elements hread => .bind (checks_range _ _ _) fun r _ => ?_
  cases hslot : elements[r.1]? with
  | none =>
      simp only [hslot, Option.map_none]
      exact .declined
  | some a =>
      simp only [hslot, Option.map_some]
      exact .fetched (covers_elements harg hread (Array.mem_of_getElem? hslot)) hname

/-- Asking for a size only computes. -/
theorem lawful_sizeOf (harg : kind.space.handle h ∈ call.args) :
    Lawful call s (sizeOf kind h s) :=
  .bind (.readArray harg) fun _ _ => .scalar rfl

/-- A fresh array is answered by its handle. -/
theorem lawful_newArray {elements : Array Atom} (hcovers : ∀ b ∈ elements, call.Covers s.spaces b)
    (wrap : Handle → Atom) (hwrap : ∀ h, (wrap h).ref? = some (.cell kind.space h)) :
    Lawful call s ((do Exec.answer (wrap (← Exec.newArray kind elements)) : Exec Answer) s) := by
  have hcount : s.spaces.count kind.space = (s.spaces.arraysOf kind).size := by cases kind <;> rfl
  refine .answered (.appended (s.spaces.appends_array kind elements) (fun b hb => ?_) ?_)
  · exact hcovers b (Array.mem_toList_iff.1 hb)
  · rw [hcount]
    exact hwrap _

/-- A copy of a whole array is a fresh array of its elements. -/
theorem lawful_copyWhole (harg : source.space.handle h ∈ call.args)
    (wrap : Handle → Atom) (hwrap : ∀ h, (wrap h).ref? = some (.cell target.space h)) :
    Lawful call s ((do Exec.answer (wrap (← copyWhole source target h)) : Exec Answer) s) := by
  rw [copyWhole, bind_assoc]
  refine .bind (.readArray harg) fun elements hread => ?_
  exact lawful_newArray (fun b hb => covers_elements harg hread hb) wrap hwrap

/-- A copy of a range is a fresh array of some of the elements. -/
theorem lawful_copyRange (harg : source.space.handle h ∈ call.args)
    (offset count : Int64) (wrap : Handle → Atom)
    (hwrap : ∀ h, (wrap h).ref? = some (.cell target.space h)) :
    Lawful call s ((do
      Exec.answer (wrap (← copyRange source target call h offset count)) : Exec Answer) s) := by
  rw [copyRange, bind_assoc]
  refine .bind (.readArray harg) fun elements hread => ?_
  rw [bind_assoc]
  refine .bind (checks_range _ _ _) fun r _ => ?_
  refine lawful_newArray (fun b hb => covers_elements harg hread ?_) wrap hwrap
  exact mem_of_mem_slice hb

/-- Changing the elements of an array behind an argument answers nothing. -/
theorem lawful_modifyArray (harg : kind.space.handle h ∈ call.args)
    {f : Array Atom → Array Atom}
    (hcovers : ∀ old, (s.spaces.arraysOf kind)[h]? = some old →
      ∀ b ∈ f old, call.Covers s.spaces b) :
    Lawful call s ((do Exec.modifyArray kind h f; Exec.noValues : Exec Answer) s) := by
  rw [Exec.modifyArray, bind_assoc]
  refine .bind (.readArray harg) fun old hold => .answered ?_
  refine .written (Spaces.overwrites_array hold f) harg fun b hb => ?_
  exact hcovers old hold b (Array.mem_toList_iff.1 hb)

/-- Copying a range puts elements of the source into the target. -/
theorem lawful_copyInto {src dst : Handle}
    (hsrc : source.space.handle src ∈ call.args) (hdst : target.space.handle dst ∈ call.args)
    (srcOffset dstOffset count : Int64) :
    Lawful call s (copyInto source target call src srcOffset dst dstOffset count s) := by
  refine .bind (.readArray hsrc) fun elements hread => .bind (checks_range _ _ _) fun r _ => ?_
  refine .bind (.readArray hdst) fun _ _ => .bind (checks_range _ _ _) fun r' _ => ?_
  refine lawful_modifyArray hdst fun old hold b hb => ?_
  rcases mem_of_mem_splice hb with hb | hb
  · exact covers_elements hdst hold hb
  · exact covers_elements hsrc hread (mem_of_mem_slice hb)

/-- Operations on arrays touch the arrays that they are given. -/
theorem lawful {fl : Flavour} {op : ArrayOp}
    (hop : op = .read ∨ op = .index → call.name ∈ Call.fetches) : Lawful call s (op.run host fl call s) := by
  have hfrozen : ∀ {a h}, a ∈ call.args → fl.frozen? a = some h →
      fl.frozenKind.space.handle h ∈ call.args :=
    fun ha hh => Flavour.eq_handle_of_frozen? hh ▸ ha
  have hmutable : ∀ {a h}, a ∈ call.args → fl.mutable? a = some h →
      fl.mutableKind.space.handle h ∈ call.args :=
    fun ha hh => Flavour.eq_handle_of_mutable? hh ▸ ha
  have hwrapF : ∀ h, (fl.frozen h).ref? = some (.cell fl.frozenKind.space h) := by
    cases fl <;> exact fun _ => rfl
  have hwrapM : ∀ h, (fl.mutable h).ref? = some (.cell fl.mutableKind.space h) := by
    cases fl <;> exact fun _ => rfl
  -- Every second case is the one in which an argument is no array of the flavour.
  fun_cases ArrayOp.run host fl op call with
  | case1 count init hargs =>
      refine .bind (.index count) fun n _ => .bind (.filled _ init n) fun elements helements => ?_
      refine lawful_newArray (fun b hb => ?_) _ hwrapM
      rw [helements] at hb
      rw [(Array.mem_replicate.1 hb).2]
      exact .arg (by simp [hargs])
  | case2 arr i hargs h harr =>
      exact lawful_element (hmutable (by simp [hargs]) harr) i (hop (.inl rfl))
  | case4 arr i hargs h harr =>
      exact lawful_element (hfrozen (by simp [hargs]) harr) i (hop (.inr rfl))
  | case6 arr i value hargs h harr =>
      have harg := hmutable (a := arr) (by simp [hargs]) harr
      refine .bind (.readArray harg) fun elements _ => .bind (checks_range _ _ _) fun r _ => ?_
      refine lawful_modifyArray harg fun old hold b hb => ?_
      rcases Array.mem_or_eq_of_mem_setIfInBounds hb with hb | rfl
      · exact covers_elements harg hold hb
      · exact .arg (by simp [hargs])
  | case8 arr hargs h harr => exact lawful_sizeOf (hfrozen (by simp [hargs]) harr)
  | case10 arr hargs h harr => exact lawful_sizeOf (hmutable (by simp [hargs]) harr)
  | case12 arr hargs h harr => exact lawful_sizeOf (hmutable (by simp [hargs]) harr)
  | case14 arr hargs h harr => exact lawful_copyWhole (hmutable (by simp [hargs]) harr) _ hwrapF
  | case16 arr hargs h harr => exact lawful_copyWhole (hfrozen (by simp [hargs]) harr) _ hwrapM
  | case18 arr offset count hargs h harr =>
      exact lawful_copyRange (hmutable (by simp [hargs]) harr) _ _ _ hwrapF
  | case20 arr offset count hargs h harr =>
      exact lawful_copyRange (hfrozen (by simp [hargs]) harr) _ _ _ hwrapM
  | case22 src srcOffset dst dstOffset count hargs h d hdst hsrc =>
      exact lawful_copyInto (hfrozen (by simp [hargs]) hsrc) (hmutable (by simp [hargs]) hdst) _ _ _
  | case24 src srcOffset dst dstOffset count hargs h d hdst hsrc =>
      exact lawful_copyInto (hmutable (by simp [hargs]) hsrc) (hmutable (by simp [hargs]) hdst) _ _ _
  | _ => exact .declined

end ArrayOp

/-! ## Byte arrays -/

namespace ByteOp

variable {h : Handle}

/-- A range of bytes is a check. -/
theorem checks_range (size : Nat) (offset count : Int64) :
    Checks call s (fun _ => True) (ByteOp.range call size offset count s) := by
  refine Checks.bind (.index offset) fun start _ => Checks.bind (.index count) fun n _ => ?_
  by_cases hle : start + n ≤ size
  · rw [if_pos hle]
    exact .passed trivial
  · rw [if_neg hle]
    exact .refuse _

/-- The position of an element is a check. -/
theorem checks_elementStart (size : Nat) (i : Int64) (width : Nat) :
    Checks call s (fun _ => True) (elementStart call size i width s) := by
  refine Checks.bind (.index i) fun index _ => ?_
  by_cases hle : index * width + width ≤ size
  · rw [if_pos hle]
    exact .passed trivial
  · rw [if_neg hle]
    exact .refuse _

/-- An element read from bytes is a scalar. -/
theorem ref?_decode (e : Element) (bytes : List UInt8) : (e.decode bytes).ref? = none := by
  cases e <;> rfl

/-- A fresh byte array is answered by its handle. -/
theorem lawful_create (size : Int64) (pinned : Bool) : Lawful call s (create host call size pinned s) := by
  refine .bind (.index size) fun n _ => .bind (.filled _ 0 n) fun bytes _ => ?_
  exact .answered (.appended (s.spaces.appends_bytes ⟨bytes, pinned⟩)
    (fun _ hb => absurd hb List.not_mem_nil) rfl)

/-- Changing the bytes of an array behind an argument answers nothing. -/
theorem lawful_modifyBytes (harg : .byteArray h ∈ call.args) (f : Array UInt8 → Array UInt8) :
    Lawful call s ((do Exec.modifyBytes h f; Exec.noValues : Exec Answer) s) := by
  rw [Exec.modifyBytes, bind_assoc]
  refine .bind (.readBytes harg) fun old hold => .answered ?_
  exact .written (Spaces.overwrites_bytes hold _) harg (fun _ hb => absurd hb List.not_mem_nil)

/-- Reading an element only computes. -/
theorem lawful_fetch (e : Element) (harg : .byteArray h ∈ call.args) (i : Int64) :
    Lawful call s (fetch e call h i s) :=
  .bind (.readBytes harg) fun _ _ => .bind (checks_elementStart _ _ _) fun _ _ =>
    .scalar (ref?_decode e _)

/-- Operations on byte arrays touch the array that they are given. -/
theorem lawful (op : ByteOp) : Lawful call s (op.run host call s) := by
  fun_cases ByteOp.run host op call with
  | case1 pinned count hargs => exact lawful_create count pinned
  | case2 count align hargs => exact lawful_create count true
  | case3 h hargs => exact .bind (.readBytes (by simp [hargs])) fun _ _ => .scalar rfl
  | case4 h hargs => exact .bind (.readBytes (by simp [hargs])) fun _ _ => .scalar rfl
  | case5 h count hargs =>
      have harg : Atom.byteArray h ∈ call.args := by simp [hargs]
      refine .bind (.index count) fun wanted _ => .bind (.readBytes harg) fun bytes _ => ?_
      by_cases hlt : bytes.bytes.size < wanted
      · rw [if_pos hlt]
        exact .refuse _
      · rw [if_neg hlt]
        exact lawful_modifyBytes harg _
  | case6 h hargs => exact .bind (.readBytes (by simp [hargs])) fun _ _ => .scalar rfl
  | case7 h hargs =>
      have harg : Atom.byteArray h ∈ call.args := by simp [hargs]
      refine .bind (.readBytes harg) fun _ _ =>
        .answered (.reply (fun a ha => ?_) (fun p hp => by cases hp))
      rw [List.mem_singleton.1 ha]
      exact .arg harg
  | case8 src srcOffset dst dstOffset count hargs =>
      have hdst : Atom.byteArray dst ∈ call.args := by simp [hargs]
      refine .bind (.readBytes (by simp [hargs])) fun _ _ => .bind (checks_range _ _ _) fun r _ => ?_
      refine .bind (.readBytes hdst) fun _ _ => .bind (checks_range _ _ _) fun r' _ => ?_
      exact lawful_modifyBytes hdst _
  | case9 e h i hargs => exact lawful_fetch e (by simp [hargs]) i
  | case10 e h i hargs => exact lawful_fetch e (by simp [hargs]) i
  | case11 e h i value hargs =>
      have harg : Atom.byteArray h ∈ call.args := by simp [hargs]
      refine .bind (.readBytes harg) fun _ _ => .bind (checks_elementStart _ _ _) fun start _ => ?_
      cases e.encode? value with
      | none => exact .declined
      | some encoded => exact lawful_modifyBytes harg _
  | case12 => exact .declined

end ByteOp

/-! ## Tags, threads and stable pointers -/

/-- Operations on tags read a constructor or allocate one without fields. -/
theorem TagOp.lawful {op : TagOp} (hop : ofName? call.name = some op) :
    Lawful call s (op.run call s) := by
  fun_cases TagOp.run op call with
  | case1 addr hargs => exact .bind (.readCon (by simp [hargs])) fun _ _ => .scalar rfl
  | case2 => exact .refuse _
  | case3 => exact .refuse _
  | case4 tag hargs tycon htycon con hcon =>
      have hname : call.name = "tagToEnum#" := by
        unfold ofName? at hop
        split at hop <;> simp_all
      rw [Exec.bind_of_ok (Exec.allocate_apply _)]
      exact .answered (.allocated con hname)
  | case5 => exact .declined

/-- Operations on threads, weak pointers and stable pointers hand on what they are given. -/
theorem ConcurrencyOp.lawful {op : ConcurrencyOp} (hop : ofName? call.name = some op) :
    Lawful call s (op.run call s) := by
  fun_cases ConcurrencyOp.run op call with
  | case1 => exact .scalar rfl
  | case2 =>
      have hname : call.name = "mkWeakNoFinalizer#" := by
        unfold ofName? at hop
        split at hop <;> simp_all
      exact .answered (.counted hname)
  | case3 => exact .noValues
  | case4 value hargs =>
      refine .answered (.reply (fun a ha => ?_) (fun p hp => by cases hp))
      rw [List.mem_singleton.1 ha]
      exact fun ref href => ⟨value, by simp [hargs], .inl href⟩
  | case5 inner hargs =>
      have hname : call.name ∈ Call.fetches := by
        unfold ofName? at hop
        split at hop <;> simp_all [Call.fetches]
      exact .fetched (fun ref href => ⟨.stable inner, by simp [hargs], .inl href⟩) hname
  | case6 => exact .declined

end PrimOp

/-! ## The registry -/

variable {call : Call} {s : State}

/-- A handler is lawful if the operations are that it matches names with. -/
theorem Handler.lawful_ofNames {Op : Type} {family : String} {names : List String}
    {ofName? : String → Option Op} {run : Op → Call → Exec Answer}
    (hrun : ∀ op, ofName? call.name = some op → Lawful call s (run op call s)) :
    Lawful call s ((Handler.ofNames family names ofName? run).evaluate call s) := by
  cases hop : ofName? call.name with
  | none =>
      rw [evaluate_ofNames_of_none hop]
      exact .declined
  | some op =>
      rw [evaluate_ofNames_of_some hop]
      exact hrun op hop

/-- Every standard family is lawful. -/
theorem PrimOp.lawful_of_mem_standardHandlers {handler : Handler}
    (h : handler ∈ PrimOp.standardHandlers host) : Lawful call s (handler.evaluate call s) := by
  simp only [standardHandlers, List.mem_cons, List.not_mem_nil, or_false] at h
  rcases h with rfl | rfl | rfl | rfl | rfl | rfl | rfl | rfl | rfl | rfl | rfl | rfl | rfl
  · exact Handler.lawful_ofNames fun op _ => FloatOp.lawful single (fun _ => rfl) (fun _ => rfl) op
  · exact Handler.lawful_ofNames fun op _ => FloatOp.lawful double (fun _ => rfl) (fun _ => rfl) op
  · exact Handler.lawful_ofNames fun op _ => IntOp.lawful op
  · exact Handler.lawful_ofNames fun op _ => WordOp.lawful op
  · exact Handler.lawful_ofNames fun op _ => CharOp.lawful op
  · exact Handler.lawful_ofNames fun _ hop => MutVarOp.lawful hop
  · exact Handler.lawful_ofNames fun _ hop => MVarOp.lawful hop
  · refine Handler.lawful_ofNames fun op hop => ArrayOp.lawful fun hcase => ?_
    have hentry := Handler.mem_of_lookup hop
    rcases hcase with rfl | rfl <;> simp_all [ArrayOp.largeTable, Call.fetches]
  · refine Handler.lawful_ofNames fun op hop => ArrayOp.lawful fun hcase => ?_
    have hentry := Handler.mem_of_lookup hop
    rcases hcase with rfl | rfl <;> simp_all [ArrayOp.smallTable, Call.fetches]
  · exact Handler.lawful_ofNames fun op _ => ByteOp.lawful op
  · exact Handler.lawful_ofNames fun op _ => AddrOp.lawful op
  · exact Handler.lawful_ofNames fun _ hop => TagOp.lawful hop
  · exact Handler.lawful_ofNames fun _ hop => ConcurrencyOp.lawful hop

namespace Registry

/-- A handler that is offered is entered, unless one of its names is claimed; the failure names the first
such name, and the registry is then as it was. -/
theorem offer_apply (handler : Handler) (r : Registry) :
    offer handler r =
      match handler.operations.find? r.claims with
      | some name => .error { cause := .duplicatePrimOp name } r
      | none => .ok () (r.enter handler) := by
  -- The registry is read first.
  change (match handler.operations.find? r.claims with
    | some name => throw { cause := .duplicatePrimOp name }
    | none => modify (enter handler) : EStateM Fault Registry Unit) r = _
  cases handler.operations.find? r.claims with
  | none => rfl
  | some name => rfl

/-- An offer leaves the registry as it was, or with the handler entered. -/
theorem afterOffer_eq_or (r : Registry) (handler : Handler) :
    r.afterOffer handler = r ∨ r.afterOffer handler = r.enter handler := by
  rw [afterOffer, offer_apply]
  cases handler.operations.find? r.claims with
  | none => exact .inr rfl
  | some name => exact .inl rfl

/-- The handlers of a registry are among those that were offered to it. -/
theorem mem_of_mem_ofHandlers {handlers : List Handler} {handler : Handler}
    (h : handler ∈ (ofHandlers handlers).handlers) : handler ∈ handlers := by
  -- Registration folds over the handlers; generalise the registry that it starts from.
  have hloop : ∀ (rest : List Handler) (r : Registry),
      handler ∈ (rest.foldl afterOffer r).handlers → handler ∈ r.handlers ∨ handler ∈ rest := by
    intro rest
    induction rest with
    | nil => exact fun r hr => .inl hr
    | cons first rest ih =>
        intro r hr
        rcases ih _ hr with hr | hr
        · rcases afterOffer_eq_or r first with heq | heq <;> rw [heq] at hr
          · exact .inl hr
          · rcases Array.mem_push.1 hr with hr | rfl
            · exact .inl hr
            · exact .inr List.mem_cons_self
        · exact .inr (List.mem_cons_of_mem _ hr)
  rcases hloop handlers empty h with h | h
  · exact absurd h (Array.not_mem_empty handler)
  · exact h

/-- A registry of lawful handlers is lawful. -/
theorem lawful_answer {r : Registry}
    (hlawful : ∀ handler ∈ r.handlers, Lawful call s (handler.evaluate call s)) :
    Lawful call s (r.answer call s) := by
  unfold answer
  cases howner : r.owner? call.name with
  | none => exact .declined
  | some handler =>
      obtain ⟨i, -, hi⟩ := Option.bind_eq_some_iff.1 howner
      exact hlawful handler (Array.mem_of_getElem? hi)

/-- Whatever the standard registry makes of a call is lawful. -/
theorem standard_answer (host : Host) (call : Call) (s : State) :
    Lawful call s ((standard host).answer call s) := by
  rw [standard]
  exact lawful_answer fun handler h => PrimOp.lawful_of_mem_standardHandlers (mem_of_mem_ofHandlers h)

variable {t : State} {e : Fault}

/-- A standard operation that gives values was answered. -/
theorem standard_evaluate_eq_ok {atoms : List Atom} (h : (standard host).evaluate call s = .ok atoms t) :
    Answered call s atoms t := by
  obtain ⟨answer, u, hanswer, h⟩ := Exec.bind_eq_ok.1 h
  have hlawful := standard_answer host call s
  rw [hanswer] at hlawful
  cases hlawful with
  | declined => exact (Exec.fail_ne_ok.1 h).elim
  | answered hans =>
      obtain ⟨rfl, rfl⟩ := Exec.pure_eq_ok.1 h
      exact hans

/-- A standard operation that fails was refused, or is not known; it changes nothing. -/
theorem standard_evaluate_eq_error (h : (standard host).evaluate call s = .error e t) :
    t = s ∧ e.trace = s.trace ∧
      (Refused call s e.cause ∨ e.cause = .unknownPrimOp call.name call.args.length) := by
  have hlawful := standard_answer host call s
  rcases Exec.bind_eq_error.1 h with h | ⟨answer, u, hanswer, h⟩
  · rw [h] at hlawful
    cases hlawful with
    | refused hrefused => exact ⟨rfl, rfl, .inl hrefused⟩
  · rw [hanswer] at hlawful
    cases hlawful with
    | declined =>
        obtain ⟨rfl, rfl⟩ := Exec.fail_eq_error.1 h
        exact ⟨rfl, rfl, .inr rfl⟩
    | answered hans => exact (Exec.pure_ne_error.1 h).elim

end Registry

end Spineless
