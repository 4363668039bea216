import Spineless.Machine.Allocate
import Spineless.Proofs.Action

/-!
# References and cells

An atom carries at most one reference: a heap address or a handle of an object space. The spaces are
seen through one view, `Spaces.cell?`, which gives the contents behind a handle whatever the space.
An operation on the spaces does one of two things to this view: it puts one new cell behind the last
handle of a space (`Appends`), or it changes the one cell behind a handle (`Overwrites`).
-/

namespace Spineless

/-- What an atom may refer to. -/
inductive Ref where
  /-- The object at a heap address. -/
  | addr (a : Addr)
  /-- The cell behind a handle. -/
  | cell (space : Space) (h : Handle)
deriving DecidableEq

/-- The reference that an atom carries; a stable pointer carries that of the atom inside. Weak
pointers and threads are counted, but there is nothing behind them. -/
def Atom.ref? : Atom → Option Ref
  | .ptr a => some (.addr a)
  | .stable inner => inner.ref?
  | .mvar h => some (.cell .mvar h)
  | .array h => some (.cell .array h)
  | .mutableArray h => some (.cell .mutableArray h)
  | .smallArray h => some (.cell .smallArray h)
  | .smallMutableArray h => some (.cell .smallMutableArray h)
  | .mutVar h => some (.cell .mutVar h)
  | .byteArray h => some (.cell .byteArray h)
  | _ => none

/-- The atom that is a handle of a space. -/
def Space.handle : Space → Handle → Atom
  | .mvar => .mvar
  | .array => .array
  | .mutableArray => .mutableArray
  | .smallArray => .smallArray
  | .smallMutableArray => .smallMutableArray
  | .mutVar => .mutVar
  | .byteArray => .byteArray

/-- A handle refers to the cell behind it. -/
@[simp]
theorem Space.ref?_handle (space : Space) (h : Handle) : (space.handle h).ref? = some (.cell space h) := by
  cases space <;> rfl

/-- A literal carries no reference. -/
theorem Lit.ref?_of_atom? {l : Lit} {a : Atom} (h : l.atom? = some a) : a.ref? = none := by
  cases l <;> cases h <;> rfl

/-- The contents behind a handle. -/
inductive Cell where
  /-- The value of a mutable variable. -/
  | mutVar (value : Atom)
  /-- The contents of a synchronising variable. -/
  | mvar (contents : Option Atom)
  /-- The elements of an array. -/
  | array (elements : Array Atom)
  /-- The contents of a byte array. -/
  | bytes (contents : Bytes)

/-- The atoms in a cell. -/
def Cell.atoms : Cell → List Atom
  | .mutVar value => [value]
  | .mvar contents => contents.toList
  | .array elements => elements.toList
  | .bytes _ => []

namespace Spaces

/-- The cell behind a handle of a space. -/
def cell? (sp : Spaces) : Space → Handle → Option Cell
  | .mutVar, h => sp.mutVars[h]?.map .mutVar
  | .mvar, h => sp.mvars[h]?.map .mvar
  | .array, h => sp.arrays[h]?.map .array
  | .mutableArray, h => sp.mutableArrays[h]?.map .array
  | .smallArray, h => sp.smallArrays[h]?.map .array
  | .smallMutableArray, h => sp.smallMutableArrays[h]?.map .array
  | .byteArray, h => sp.byteArrays[h]?.map .bytes

/-- How many cells a space has. -/
def count (sp : Spaces) : Space → Nat
  | .mutVar => sp.mutVars.size
  | .mvar => sp.mvars.size
  | .array => sp.arrays.size
  | .mutableArray => sp.mutableArrays.size
  | .smallArray => sp.smallArrays.size
  | .smallMutableArray => sp.smallMutableArrays.size
  | .byteArray => sp.byteArrays.size

/-- The cell of an array kind is the array. -/
theorem cell?_space (sp : Spaces) (kind : ArrayKind) (h : Handle) :
    sp.cell? kind.space h = ((sp.arraysOf kind)[h]?).map .array := by
  cases kind <;> rfl

/-- One space has one new cell, behind its last handle. -/
structure Appends (sp sp' : Spaces) (space : Space) (cell : Cell) : Prop where
  cell? : ∀ k h, sp'.cell? k h = if k = space ∧ h = sp.count space then some cell else sp.cell? k h
  weakPointers : sp'.weakPointers = sp.weakPointers

/-- One cell has new contents. -/
structure Overwrites (sp sp' : Spaces) (space : Space) (handle : Handle) (cell : Cell) : Prop where
  known : (sp.cell? space handle).isSome
  cell? : ∀ k h, sp'.cell? k h = if k = space ∧ h = handle then some cell else sp.cell? k h
  weakPointers : sp'.weakPointers = sp.weakPointers

/-! ## The operations on spaces -/

/-- A pushed element is found behind the last index. -/
private theorem map_getElem?_push {α : Type} (xs : Array α) (x : α) (f : α → Cell) (h : Handle) :
    ((xs.push x)[h]?).map f = if h = xs.size then some (f x) else (xs[h]?).map f := by
  rw [Array.getElem?_push]
  split <;> rfl

/-- An element that is set is found at its index. -/
private theorem map_getElem?_set {α : Type} {xs : Array α} {x : α} (f : α → Cell) {i : Handle}
    (hi : (xs[i]?).isSome) (h : Handle) :
    ((xs.setIfInBounds i x)[h]?).map f = if h = i then some (f x) else (xs[h]?).map f := by
  rw [Array.getElem?_setIfInBounds]
  by_cases hih : i = h
  · subst hih
    have hlt : i < xs.size := by simpa using hi
    simp [hlt]
  · rw [if_neg hih, if_neg (fun hc => hih hc.symm)]

/-- An element that is changed is found at its index. -/
private theorem map_getElem?_modify {α : Type} {xs : Array α} {g : α → α} {x : α} (f : α → Cell)
    {i : Handle} (hi : xs[i]? = some x) (h : Handle) :
    ((xs.modify i g)[h]?).map f = if h = i then some (f (g x)) else (xs[h]?).map f := by
  rw [Array.getElem?_modify]
  by_cases hih : i = h
  · subst hih
    simp [hi]
  · rw [if_neg hih, if_neg (fun hc => hih hc.symm)]

/-- A fresh mutable variable. -/
theorem appends_mutVar (sp : Spaces) (value : Atom) :
    sp.Appends { sp with mutVars := sp.mutVars.push value } .mutVar (.mutVar value) where
  weakPointers := rfl
  cell? k h := by
    cases k <;> simp only [Spaces.cell?, count, reduceCtorEq, false_and, true_and, if_false]
    exact map_getElem?_push ..

/-- A fresh synchronising variable. -/
theorem appends_mvar (sp : Spaces) (contents : Option Atom) :
    sp.Appends { sp with mvars := sp.mvars.push contents } .mvar (.mvar contents) where
  weakPointers := rfl
  cell? k h := by
    cases k <;> simp only [Spaces.cell?, count, reduceCtorEq, false_and, true_and, if_false]
    exact map_getElem?_push ..

/-- A fresh byte array. -/
theorem appends_bytes (sp : Spaces) (contents : Bytes) :
    sp.Appends { sp with byteArrays := sp.byteArrays.push contents } .byteArray (.bytes contents) where
  weakPointers := rfl
  cell? k h := by
    cases k <;> simp only [Spaces.cell?, count, reduceCtorEq, false_and, true_and, if_false]
    exact map_getElem?_push ..

/-- A fresh array of a kind. -/
theorem appends_array (sp : Spaces) (kind : ArrayKind) (elements : Array Atom) :
    sp.Appends (sp.modifyArrays kind (·.push elements)) kind.space (.array elements) where
  weakPointers := by cases kind <;> rfl
  cell? k h := by
    cases kind <;> cases k <;>
      simp only [Spaces.cell?, count, modifyArrays, ArrayKind.space, reduceCtorEq, false_and, true_and,
        if_false]
    all_goals exact map_getElem?_push ..

/-- A mutable variable is given a value. -/
theorem overwrites_mutVar {sp : Spaces} {h : Handle} {old : Atom} (hold : sp.mutVars[h]? = some old)
    (value : Atom) :
    sp.Overwrites { sp with mutVars := sp.mutVars.setIfInBounds h value } .mutVar h (.mutVar value) where
  known := by simp [Spaces.cell?, hold]
  weakPointers := rfl
  cell? k h' := by
    cases k <;> simp only [Spaces.cell?, reduceCtorEq, false_and, true_and, if_false]
    exact map_getElem?_set _ (by rw [hold]; rfl) h'

/-- A synchronising variable is filled or emptied. -/
theorem overwrites_mvar {sp : Spaces} {h : Handle} {old : Option Atom} (hold : sp.mvars[h]? = some old)
    (contents : Option Atom) :
    sp.Overwrites { sp with mvars := sp.mvars.setIfInBounds h contents } .mvar h (.mvar contents) where
  known := by simp [Spaces.cell?, hold]
  weakPointers := rfl
  cell? k h' := by
    cases k <;> simp only [Spaces.cell?, reduceCtorEq, false_and, true_and, if_false]
    exact map_getElem?_set _ (by rw [hold]; rfl) h'

/-- The bytes of a byte array are changed. -/
theorem overwrites_bytes {sp : Spaces} {h : Handle} {old : Bytes} (hold : sp.byteArrays[h]? = some old)
    (f : Bytes → Bytes) :
    sp.Overwrites { sp with byteArrays := sp.byteArrays.modify h f } .byteArray h (.bytes (f old)) where
  known := by simp [Spaces.cell?, hold]
  weakPointers := rfl
  cell? k h' := by
    cases k <;> simp only [Spaces.cell?, reduceCtorEq, false_and, true_and, if_false]
    exact map_getElem?_modify _ hold h'

/-- The elements of an array are changed. -/
theorem overwrites_array {sp : Spaces} {kind : ArrayKind} {h : Handle} {old : Array Atom}
    (hold : (sp.arraysOf kind)[h]? = some old) (f : Array Atom → Array Atom) :
    sp.Overwrites (sp.modifyArrays kind (·.modify h f)) kind.space h (.array (f old)) where
  known := by rw [cell?_space, hold]; rfl
  weakPointers := by cases kind <;> rfl
  cell? k h' := by
    cases kind <;> cases k <;>
      simp only [Spaces.cell?, modifyArrays, ArrayKind.space, reduceCtorEq, false_and, true_and, if_false]
    all_goals exact map_getElem?_modify _ hold h'

end Spaces

end Spineless
