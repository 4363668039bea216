import Spineless.Proofs.Partial.Basic
import Spineless.Proofs.PrimOp.ElementViews

/-!
# Variables and arrays with partial operations

The families of variables and arrays again, with a partial operation wherever they number a new object, index,
slice or copy. A range is checked in machine words, where its end may not be a size; the end of a range that
is checked here always is, because its offset and its length are signed integers (`range_bind`).
-/

namespace Spineless

open PrimOp

namespace Partial

variable {fits : Prop} {host : Host} {call : Call} {s : State}

/-! ## New objects -/

/-- The position of the last of some objects. -/
def lastOf (count : State → Nat) : Partial Handle := do
  subSize (count (← get)) 1

/-- A fresh mutable variable. -/
def newMutVar (value : Atom) : Partial Handle := do
  Exec.modifySpaces fun sp => { sp with mutVars := sp.mutVars.push value }
  lastOf fun s => s.spaces.mutVars.size

/-- A fresh, empty synchronising variable. -/
def newMVar : Partial Handle := do
  Exec.modifySpaces fun sp => { sp with mvars := sp.mvars.push none }
  lastOf fun s => s.spaces.mvars.size

/-- A fresh array of a kind. -/
def newArray (kind : ArrayKind) (elements : Array Atom) : Partial Handle := do
  Exec.modifySpaces fun sp => sp.modifyArrays kind fun arrays => arrays.push elements
  lastOf fun s => (s.spaces.arraysOf kind).size

/-- A fresh byte array. -/
def newBytes (bytes : Array UInt8) (pinned : Bool) : Partial Handle := do
  Exec.modifySpaces fun sp => { sp with byteArrays := sp.byteArrays.push ⟨bytes, pinned⟩ }
  lastOf fun s => s.spaces.byteArrays.size

/-- Answers a call of an operation on mutable variables. -/
def mutVarRun (op : MutVarOp) (call : Call) : Partial Answer :=
  match op, call.args with
  | .new, [value, .void] => do Exec.answer (.mutVar (← newMutVar value))
  | op, _ => op.run call

/-- Answers a call of an operation on synchronising variables. -/
def mvarRun (op : MVarOp) (call : Call) : Partial Answer :=
  match op, call.args with
  | .new, [.void] => do Exec.answer (.mvar (← newMVar))
  | op, _ => op.run call

/-- After an object was added there is a last one. -/
theorem modify_lastOf {f : Spaces → Spaces} {count : State → Nat} {n : Nat}
    (hcount : count { s with spaces := f s.spaces } = n + 1) :
    ((Exec.modifySpaces f : Partial Unit) >>= fun _ => lastOf count) s =
      .ok n { s with spaces := f s.spaces } := by
  change subSize (count { s with spaces := f s.spaces }) 1 { s with spaces := f s.spaces } = _
  rw [hcount, subSize, onlyIf, if_pos (by omega)]
  rfl

theorem newMutVar_agrees (value : Atom) : Agrees fits (newMutVar value) (Exec.newMutVar value) s :=
  .of_eq (modify_lastOf (Array.size_push _))

theorem newMVar_agrees : Agrees fits newMVar Exec.newMVar s := .of_eq (modify_lastOf (Array.size_push _))

theorem newArray_agrees (kind : ArrayKind) (elements : Array Atom) :
    Agrees fits (newArray kind elements) (Exec.newArray kind elements) s := by
  refine .of_eq (modify_lastOf ?_)
  cases kind <;> exact Array.size_push _

theorem newBytes_agrees (bytes : Array UInt8) (pinned : Bool) :
    Agrees fits (newBytes bytes pinned) (Exec.newBytes bytes pinned) s :=
  .of_eq (modify_lastOf (Array.size_push _))

theorem mutVarRun_agrees (op : MutVarOp) : Agrees fits (mutVarRun op call) (op.run call) s := by
  fun_cases mutVarRun op call with
  | case1 value hargs =>
      simp only [MutVarOp.run, hargs]
      exact .bind (newMutVar_agrees value) fun _ _ _ => .lift _
  | case2 => exact .lift _

theorem mvarRun_agrees (op : MVarOp) : Agrees fits (mvarRun op call) (op.run call) s := by
  fun_cases mvarRun op call with
  | case1 hargs =>
      simp only [MVarOp.run, hargs]
      exact .bind newMVar_agrees fun _ _ _ => .lift _
  | case2 => exact .lift _

/-! ## Arrays -/

/-- The range of `count` elements from `offset`, from its start up to its end, checked against a size. -/
def range (misfit : Nat → Nat → Nat → Misfit) (call : Call) (size : Nat) (offset count : Int64) :
    Partial (Nat × Nat) := do
  let start ← call.index offset
  let count ← call.index count
  match sum? start count with
  | some stop => if stop ≤ size then pure (start, stop) else call.refuse (misfit start count size)
  | none => call.refuse (misfit start count size)

/-- The elements of an array that is about to be changed. -/
def elementsToChange (kind : ArrayKind) (h : Handle) : Partial (Array Atom) := do
  let arrays := (← get).spaces.arraysOf kind
  if arrays.size ≤ h then Exec.fail (.unknownHandle kind.space h) else entry arrays[h]?

/-- The element at an index. -/
def element (kind : ArrayKind) (call : Call) (h : Handle) (i : Int64) : Partial Answer := do
  let elements ← Exec.readArray kind h
  let (slot, _) ← range .rangeOutside call elements.size i 1
  Exec.answer (← entry elements[slot]?)

/-- Changes the element at an index. -/
def putElement (kind : ArrayKind) (call : Call) (h : Handle) (i : Int64) (value : Atom) :
    Partial Answer := do
  let (slot, _) ← range .rangeOutside call (← Exec.readArray kind h).size i 1
  let changed ← setEntry (← elementsToChange kind h) slot value
  Exec.modifyArray kind h fun _ => changed
  Exec.noValues

/-- A copy of a whole array in a fresh array of another kind. -/
def copyWhole (source target : ArrayKind) (h : Handle) : Partial Handle := do
  newArray target (← Exec.readArray source h)

/-- A copy of a range in a fresh array of another kind. -/
def copyRange (source target : ArrayKind) (call : Call) (h : Handle) (offset count : Int64) :
    Partial Handle := do
  let elements ← Exec.readArray source h
  let (start, stop) ← range .rangeOutside call elements.size offset count
  newArray target (← stretch elements start stop)

/-- Copies a range of one array over a range of another. -/
def copyInto (source target : ArrayKind) (call : Call) (src : Handle) (srcOffset : Int64)
    (dst : Handle) (dstOffset count : Int64) : Partial Answer := do
  let elements ← Exec.readArray source src
  let (start, stop) ← range .rangeOutside call elements.size srcOffset count
  let copied ← stretch elements start stop
  let (start, stop) ← range .rangeOutside call (← Exec.readArray target dst).size dstOffset count
  let changed ← overwrite (← elementsToChange target dst) start stop copied
  Exec.modifyArray target dst fun _ => changed
  Exec.noValues

/-- Answers a call of an operation on arrays. -/
def arrayRun (host : Host) (fl : Flavour) (op : ArrayOp) (call : Call) : Partial Answer :=
  match op, call.args with
  | .new, [.int count, init, .void] => do
    let elements ← call.filled host.atoms init (← call.index count)
    Exec.answer (fl.mutable (← newArray fl.mutableKind elements))
  | .read, [arr, .int i, .void] =>
    match fl.mutable? arr with
    | some h => element fl.mutableKind call h i
    | none => Exec.declined
  | .index, [arr, .int i] =>
    match fl.frozen? arr with
    | some h => element fl.frozenKind call h i
    | none => Exec.declined
  | .write, [arr, .int i, value, .void] =>
    match fl.mutable? arr with
    | some h => putElement fl.mutableKind call h i value
    | none => Exec.declined
  | .unsafeFreeze, [arr, .void] =>
    match fl.mutable? arr with
    | some h => do Exec.answer (fl.frozen (← copyWhole fl.mutableKind fl.frozenKind h))
    | none => Exec.declined
  | .unsafeThaw, [arr, .void] =>
    match fl.frozen? arr with
    | some h => do Exec.answer (fl.mutable (← copyWhole fl.frozenKind fl.mutableKind h))
    | none => Exec.declined
  | .freeze, [arr, .int offset, .int count, .void] =>
    match fl.mutable? arr with
    | some h => do
      Exec.answer (fl.frozen (← copyRange fl.mutableKind fl.frozenKind call h offset count))
    | none => Exec.declined
  | .thaw, [arr, .int offset, .int count, .void] =>
    match fl.frozen? arr with
    | some h => do
      Exec.answer (fl.mutable (← copyRange fl.frozenKind fl.mutableKind call h offset count))
    | none => Exec.declined
  | .copy, [src, .int srcOffset, dst, .int dstOffset, .int count, .void] =>
    match fl.frozen? src, fl.mutable? dst with
    | some a, some b => copyInto fl.frozenKind fl.mutableKind call a srcOffset b dstOffset count
    | _, _ => Exec.declined
  | .copyMutable, [src, .int srcOffset, dst, .int dstOffset, .int count, .void] =>
    match fl.mutable? src, fl.mutable? dst with
    | some a, some b => copyInto fl.mutableKind fl.mutableKind call a srcOffset b dstOffset count
    | _, _ => Exec.declined
  | op, _ => op.run host fl call

/-- An index is a signed integer that is not negative. -/
theorem index_lt {n : Int64} {i : Nat} {t : State} (h : call.index n s = .ok i t) : i < Bound.int := by
  obtain ⟨-, rfl, -⟩ := Call.index_eq_ok.1 h
  have hlt := n.toInt_lt
  unfold Bound.int
  omega

/-- A range is checked in machine words as it is in unbounded ones: two indices have a sum. -/
theorem range_bind {α : Type} {misfit : Nat → Nat → Nat → Misfit} {size : Nat} {offset count : Int64}
    {f : Nat × Nat → Partial α} {g : Nat × Nat → Exec α}
    (h : Fits offset count size → Agrees fits
      (f (offset.toInt.toNat, offset.toInt.toNat + count.toInt.toNat))
      (g (offset.toInt.toNat, count.toInt.toNat)) s) :
    Agrees fits (range misfit call size offset count >>= f)
      (call.rangeOr misfit size offset count >>= g) s := by
  unfold range Call.rangeOr
  simp only [bind_assoc]
  refine .bind (.lift _) fun start t hstart => .bind (.lift _) fun n u hn => ?_
  have hlt : start + n < Bound.word := by
    have hstart := index_lt hstart
    have hn := index_lt hn
    unfold Bound.int at hstart hn
    unfold Bound.word
    omega
  obtain ⟨hoffset, rfl, rfl⟩ := Call.index_eq_ok.1 hstart
  obtain ⟨hcount, rfl, rfl⟩ := Call.index_eq_ok.1 hn
  rw [sum?, if_pos hlt]
  by_cases hle : offset.toInt.toNat + count.toInt.toNat ≤ size
  · simp only [hle, if_true, pure_bind]
    exact h ⟨hoffset, hcount, by omega⟩
  · simp only [hle, if_false]
    exact .of_eq rfl

/-- The elements of an array that is there can be changed. -/
theorem elementsToChange_bind {α : Type} {kind : ArrayKind} {h : Handle} {xs : Array Atom}
    {f : Array Atom → Partial α} (hxs : (s.spaces.arraysOf kind)[h]? = some xs) :
    (elementsToChange kind h >>= f) s = f xs s := by
  have hlt : ¬ (s.spaces.arraysOf kind).size ≤ h :=
    Nat.not_le.2 (Array.getElem?_eq_some_iff.1 hxs).1
  have helements : elementsToChange kind h s = .ok xs s := by
    rw [elementsToChange, get_bind, if_neg hlt, hxs]
    rfl
  change EStateM.bind _ _ s = _
  rw [EStateM.bind, helements]

/-- What stands at an index is changed in the same way by functions that agree on it. -/
theorem modify_congr {α : Type} {xs : Array α} {i : Nat} {x : α} {f g : α → α} (hx : xs[i]? = some x)
    (h : f x = g x) : xs.modify i f = xs.modify i g := by
  refine Array.ext_getElem? fun j => ?_
  rw [Array.getElem?_modify, Array.getElem?_modify]
  split
  · next hij =>
      subst hij
      rw [hx, Option.map_some, Option.map_some, h]
  · rfl

/-- A stretch that lies inside is the slice of that many entries. -/
theorem stretch_bind {α β : Type} {xs : Array α} {start count : Nat} {f : Array α → Partial β} {z : Exec β}
    (hle : start + count ≤ xs.size) (hf : Agrees fits (f (slice xs start count)) z s) :
    Agrees fits (stretch xs start (start + count) >>= f) z s :=
  .defined_bind ⟨Nat.le_add_right _ _, hle⟩ hf

theorem modifyArrays_congr {sp : Spaces} {kind : ArrayKind} {f g : Array (Array Atom) → Array (Array Atom)}
    (h : f (sp.arraysOf kind) = g (sp.arraysOf kind)) : sp.modifyArrays kind f = sp.modifyArrays kind g := by
  cases kind <;> simp_all [Spaces.modifyArrays, Spaces.arraysOf]

/-- As many entries as are overwritten are laid over them. -/
theorem overwrite_eq {α : Type} {xs new : Array α} {start count : Nat} (hsize : new.size = count)
    (hle : start + count ≤ xs.size) :
    overwrite xs start (start + count) new = pure (splice xs start new) := by
  subst hsize
  exact onlyIf_of ⟨Nat.le_add_right _ _, hle, (Nat.add_sub_cancel_left _ _).symm⟩

/-- Elements that are changed aside are put in the place of the old ones. -/
theorem change_agrees {kind : ArrayKind} {h : Handle} {xs : Array Atom}
    {change : Array Atom → Partial (Array Atom)} {f : Array Atom → Array Atom}
    (hxs : (s.spaces.arraysOf kind)[h]? = some xs) (hchange : change xs = pure (f xs)) :
    Agrees fits
      (do
        let changed ← change (← elementsToChange kind h)
        Exec.modifyArray kind h fun _ => changed
        Exec.noValues)
      (do
        Exec.modifyArray kind h f
        Exec.noValues) s := by
  have hspaces : s.spaces.modifyArrays kind (·.modify h fun _ => f xs) =
      s.spaces.modifyArrays kind (·.modify h f) := modifyArrays_congr (modify_congr hxs rfl)
  refine .congr (elementsToChange_bind hxs) ?_
  rw [hchange, pure_bind]
  refine .bind (.lift_congr ?_) fun _ _ _ => .lift _
  rw [Exec.modifyArray_of_eq hxs, Exec.modifyArray_of_eq hxs, hspaces]

theorem element_agrees (kind : ArrayKind) (h : Handle) (i : Int64) :
    Agrees fits (element kind call h i) (ArrayOp.element kind call h i) s := by
  refine .bind (.lift _) fun xs t hread => ?_
  obtain ⟨-, rfl⟩ := Exec.readArray_eq_ok.1 hread
  refine range_bind fun hfits => ?_
  obtain ⟨a, ha⟩ : ∃ a, xs[i.toInt.toNat]? = some a := ⟨_, Array.getElem?_eq_getElem hfits.le⟩
  refine .entry_bind ha ?_
  change Agrees fits _ (pure (xs[i.toInt.toNat]?.map ([·]))) s
  rw [ha]
  exact .lift (Exec.answer a)

theorem putElement_agrees (kind : ArrayKind) (h : Handle) (i : Int64) (value : Atom) :
    Agrees fits (putElement kind call h i value)
      (do
        let (slot, _) ← ArrayOp.range call (← Exec.readArray kind h).size i 1
        Exec.modifyArray kind h fun old => old.setIfInBounds slot value
        Exec.noValues) s := by
  refine .bind (.lift _) fun xs t hread => ?_
  obtain ⟨hxs, rfl⟩ := Exec.readArray_eq_ok.1 hread
  refine range_bind fun hfits => ?_
  exact change_agrees hxs (onlyIf_of hfits.le)

theorem copyWhole_agrees (source target : ArrayKind) (h : Handle) :
    Agrees fits (copyWhole source target h) (ArrayOp.copyWhole source target h) s :=
  .bind (.lift _) fun xs _ _ => newArray_agrees target xs

theorem copyRange_agrees (source target : ArrayKind) (h : Handle) (offset count : Int64) :
    Agrees fits (copyRange source target call h offset count)
      (ArrayOp.copyRange source target call h offset count) s := by
  refine .bind (.lift _) fun xs t hread => ?_
  obtain ⟨-, rfl⟩ := Exec.readArray_eq_ok.1 hread
  exact range_bind fun hfits => stretch_bind hfits.le (newArray_agrees target _)

theorem copyInto_agrees (source target : ArrayKind) (src : Handle) (srcOffset : Int64)
    (dst : Handle) (dstOffset count : Int64) :
    Agrees fits (copyInto source target call src srcOffset dst dstOffset count)
      (ArrayOp.copyInto source target call src srcOffset dst dstOffset count) s := by
  refine .bind (.lift _) fun xs t hread => ?_
  obtain ⟨-, rfl⟩ := Exec.readArray_eq_ok.1 hread
  refine range_bind fun hsrc => stretch_bind hsrc.le ?_
  refine .bind (.lift _) fun ys t hread => ?_
  obtain ⟨hys, rfl⟩ := Exec.readArray_eq_ok.1 hread
  exact range_bind fun hdst => change_agrees hys (overwrite_eq (size_slice hsrc.le) hdst.le)

theorem arrayRun_agrees (fl : Flavour) (op : ArrayOp) :
    Agrees fits (arrayRun host fl op call) (op.run host fl call) s := by
  -- Every second case is the one in which an argument is no array of the flavour.
  fun_cases arrayRun host fl op call with
  | case1 count init hargs =>
      simp only [ArrayOp.run, hargs]
      exact .bind (.lift _) fun _ _ _ => .bind (.lift _) fun xs _ _ =>
        .bind (newArray_agrees _ xs) fun _ _ _ => .lift _
  | case2 arr i hargs h harr | case4 arr i hargs h harr =>
      simp only [ArrayOp.run, hargs, harr]
      exact element_agrees _ h i
  | case6 arr i value hargs h harr =>
      simp only [ArrayOp.run, hargs, harr]
      exact putElement_agrees _ h i value
  | case8 arr hargs h harr | case10 arr hargs h harr =>
      simp only [ArrayOp.run, hargs, harr]
      exact .bind (copyWhole_agrees _ _ h) fun _ _ _ => .lift _
  | case12 arr offset count hargs h harr | case14 arr offset count hargs h harr =>
      simp only [ArrayOp.run, hargs, harr]
      exact .bind (copyRange_agrees _ _ h offset count) fun _ _ _ => .lift _
  | case16 src srcOffset dst dstOffset count hargs a b hsrc hdst
  | case18 src srcOffset dst dstOffset count hargs a b hsrc hdst =>
      simp only [ArrayOp.run, hargs, hsrc, hdst]
      exact copyInto_agrees _ _ a srcOffset b dstOffset count
  | case3 arr i hargs harr | case5 arr i hargs harr | case7 arr i value hargs harr
  | case9 arr hargs harr | case11 arr hargs harr | case13 arr offset count hargs harr
  | case15 arr offset count hargs harr =>
      simp only [ArrayOp.run, hargs, harr]
      exact .lift _
  | case17 src srcOffset dst dstOffset count hargs
  | case19 src srcOffset dst dstOffset count hargs =>
      simp only [ArrayOp.run, hargs]
      exact .lift _
  | case20 => exact .lift _

end Partial

end Spineless
