import Spineless.Atom

/-!
# String literals

The table gives every byte string a number, in the order of first occurrence. A literal reads as if
a zero byte stood behind its last byte.
-/

namespace Spineless

/-- The string literals seen so far. -/
structure StringTable where
  /-- The literals, by number. -/
  literals : Array (List UInt8) := #[]
deriving Inhabited

namespace StringTable

/-- A pointer to the start of a literal, which is entered into the table if it is new. -/
def intern (t : StringTable) (bytes : List UInt8) : StringPtr × StringTable :=
  match t.literals.findIdx? (· == bytes) with
  | some id => (⟨id, 0⟩, t)
  | none => (⟨t.literals.size, 0⟩, ⟨t.literals.push bytes⟩)

/-- The bytes of a literal. -/
def resolve? (t : StringTable) (id : Nat) : Option (List UInt8) := t.literals[id]?

/-- The byte at a pointer; the position behind the last byte reads as zero. -/
def byteAt? (t : StringTable) (p : StringPtr) : Option UInt8 :=
  match t.resolve? p.id with
  | none => none
  | some bytes => if p.offset = bytes.length then some 0 else bytes[p.offset]?

/-- How many literals there are. -/
def size (t : StringTable) : Nat := t.literals.size

/-- A literal reads back under the number that it was given. -/
theorem resolve?_intern (t : StringTable) (bytes : List UInt8) :
    (t.intern bytes).2.resolve? (t.intern bytes).1.id = some bytes := by
  simp only [intern]
  split
  · next id h =>
    obtain ⟨hlt, heq, _⟩ := Array.findIdx?_eq_some_iff_getElem.1 h
    simp [resolve?, hlt, (by simpa using heq : t.literals[id] = bytes)]
  · simp [resolve?]

end StringTable

end Spineless
