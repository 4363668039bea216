import Spineless.PrimOp.Call

/-!
# Arrays of atoms

Arrays come in two flavours, and each flavour has a frozen and a mutable space. Freezing and thawing
copy the elements into a fresh array of the other space. Every index and every range is checked.
-/

namespace Spineless.PrimOp

/-- `count` elements from `start`. -/
def slice {α : Type} (a : Array α) (start count : Nat) : Array α := a.extract start (start + count)

/-- The array with the elements from `start` on replaced by others; the length stays. -/
def splice {α : Type} (a : Array α) (start : Nat) (new : Array α) : Array α :=
  a.extract 0 start ++ new ++ a.extract (start + new.size) a.size

/-- Replacing elements inside an array keeps its length. -/
theorem size_splice {α : Type} (a : Array α) (start : Nat) (new : Array α)
    (h : start + new.size ≤ a.size) : (splice a start new).size = a.size := by
  simp [splice]
  omega

/-- The two flavours of arrays. -/
inductive Flavour where
  | large | small
deriving DecidableEq

namespace Flavour

/-- The frozen space of a flavour. -/
def frozenKind : Flavour → ArrayKind
  | .large => .array
  | .small => .smallArray

/-- The mutable space of a flavour. -/
def mutableKind : Flavour → ArrayKind
  | .large => .mutableArray
  | .small => .smallMutableArray

/-- A frozen array as an atom. -/
def frozen : Flavour → Handle → Atom
  | .large => .array
  | .small => .smallArray

/-- A mutable array as an atom. -/
def mutable : Flavour → Handle → Atom
  | .large => .mutableArray
  | .small => .smallMutableArray

/-- The handle of a frozen array. -/
def frozen? : Flavour → Atom → Option Handle
  | .large, .array h => some h
  | .small, .smallArray h => some h
  | _, _ => none

/-- The handle of a mutable array. -/
def mutable? : Flavour → Atom → Option Handle
  | .large, .mutableArray h => some h
  | .small, .smallMutableArray h => some h
  | _, _ => none

end Flavour

/-- The operations on arrays. -/
inductive ArrayOp where
  | new | read | write | index | size | sizeMutable | getSizeMutable
  | unsafeFreeze | unsafeThaw | freeze | thaw | copy | copyMutable

namespace ArrayOp

/-- The operations on large arrays by name. -/
def largeTable : List (String × ArrayOp) := [
  ("newArray#", new), ("readArray#", read), ("writeArray#", write), ("indexArray#", index),
  ("sizeofArray#", size), ("sizeofMutableArray#", sizeMutable),
  ("unsafeFreezeArray#", unsafeFreeze), ("unsafeThawArray#", unsafeThaw),
  ("freezeArray#", freeze), ("thawArray#", thaw), ("copyArray#", copy),
  ("copyMutableArray#", copyMutable)]

/-- The operations on small arrays by name. -/
def smallTable : List (String × ArrayOp) := [
  ("newSmallArray#", new), ("readSmallArray#", read), ("writeSmallArray#", write),
  ("indexSmallArray#", index), ("sizeofSmallArray#", size),
  ("sizeofSmallMutableArray#", sizeMutable), ("getSizeofSmallMutableArray#", getSizeMutable),
  ("unsafeFreezeSmallArray#", unsafeFreeze), ("unsafeThawSmallArray#", unsafeThaw),
  ("freezeSmallArray#", freeze), ("thawSmallArray#", thaw), ("copySmallArray#", copy),
  ("copySmallMutableArray#", copyMutable)]

/-- The range of `count` elements from `offset`, checked against a size. -/
def range (call : Call) (size : Nat) (offset count : Int64) : Exec (Nat × Nat) := do
  let start ← call.index offset
  let count ← call.index count
  if start + count ≤ size then pure (start, count)
  else call.refuse (.rangeOutside start count size)

/-- The element at an index. -/
def element (kind : ArrayKind) (call : Call) (h : Handle) (i : Int64) : Exec Answer := do
  let elements ← Exec.readArray kind h
  let (slot, _) ← range call elements.size i 1
  pure (elements[slot]?.map ([·]))

/-- The size of an array. -/
def sizeOf (kind : ArrayKind) (h : Handle) : Exec Answer := do
  .answer (.int (Int64.ofNat (← Exec.readArray kind h).size))

/-- A copy of a whole array in a fresh array of another kind. -/
def copyWhole (source target : ArrayKind) (h : Handle) : Exec Handle := do
  Exec.newArray target (← Exec.readArray source h)

/-- A copy of a range in a fresh array of another kind. -/
def copyRange (source target : ArrayKind) (call : Call) (h : Handle) (offset count : Int64) :
    Exec Handle := do
  let elements ← Exec.readArray source h
  let (start, count) ← range call elements.size offset count
  Exec.newArray target (slice elements start count)

/-- Copies a range of one array over a range of another. -/
def copyInto (source target : ArrayKind) (call : Call) (src : Handle) (srcOffset : Int64)
    (dst : Handle) (dstOffset count : Int64) : Exec Answer := do
  let elements ← Exec.readArray source src
  let (start, n) ← range call elements.size srcOffset count
  let copied := slice elements start n
  let (start, _) ← range call (← Exec.readArray target dst).size dstOffset count
  Exec.modifyArray target dst fun old => splice old start copied
  .noValues

/-- Answers a call. -/
def run (host : Host) (fl : Flavour) (op : ArrayOp) (call : Call) : Exec Answer :=
  match op, call.args with
  | new, [.int count, init, .void] => do
    let elements ← call.filled host.atoms init (← call.index count)
    .answer (fl.mutable (← Exec.newArray fl.mutableKind elements))
  | read, [arr, .int i, .void] =>
    match fl.mutable? arr with
    | some h => element fl.mutableKind call h i
    | none => .declined
  | index, [arr, .int i] =>
    match fl.frozen? arr with
    | some h => element fl.frozenKind call h i
    | none => .declined
  | write, [arr, .int i, value, .void] =>
    match fl.mutable? arr with
    | some h => do
      let (slot, _) ← range call (← Exec.readArray fl.mutableKind h).size i 1
      Exec.modifyArray fl.mutableKind h fun old => old.setIfInBounds slot value
      .noValues
    | none => .declined
  | size, [arr] =>
    match fl.frozen? arr with
    | some h => sizeOf fl.frozenKind h
    | none => .declined
  | sizeMutable, [arr] | getSizeMutable, [arr, .void] =>
    match fl.mutable? arr with
    | some h => sizeOf fl.mutableKind h
    | none => .declined
  | unsafeFreeze, [arr, .void] =>
    match fl.mutable? arr with
    | some h => do .answer (fl.frozen (← copyWhole fl.mutableKind fl.frozenKind h))
    | none => .declined
  | unsafeThaw, [arr, .void] =>
    match fl.frozen? arr with
    | some h => do .answer (fl.mutable (← copyWhole fl.frozenKind fl.mutableKind h))
    | none => .declined
  | freeze, [arr, .int offset, .int count, .void] =>
    match fl.mutable? arr with
    | some h => do
      .answer (fl.frozen (← copyRange fl.mutableKind fl.frozenKind call h offset count))
    | none => .declined
  | thaw, [arr, .int offset, .int count, .void] =>
    match fl.frozen? arr with
    | some h => do
      .answer (fl.mutable (← copyRange fl.frozenKind fl.mutableKind call h offset count))
    | none => .declined
  | copy, [src, .int srcOffset, dst, .int dstOffset, .int count, .void] =>
    match fl.frozen? src, fl.mutable? dst with
    | some s, some d => copyInto fl.frozenKind fl.mutableKind call s srcOffset d dstOffset count
    | _, _ => .declined
  | copyMutable, [src, .int srcOffset, dst, .int dstOffset, .int count, .void] =>
    match fl.mutable? src, fl.mutable? dst with
    | some s, some d => copyInto fl.mutableKind fl.mutableKind call s srcOffset d dstOffset count
    | _, _ => .declined
  | _, _ => .declined

end ArrayOp

/-- The family of operations on large arrays. -/
def arrayHandler (host : Host) : Handler :=
  .ofNames "Array" (ArrayOp.largeTable.map Prod.fst) (ArrayOp.largeTable.lookup ·)
    (ArrayOp.run host .large)

/-- The family of operations on small arrays. -/
def smallArrayHandler (host : Host) : Handler :=
  .ofNames "SmallArray" (ArrayOp.smallTable.map Prod.fst) (ArrayOp.smallTable.lookup ·)
    (ArrayOp.run host .small)

end Spineless.PrimOp
