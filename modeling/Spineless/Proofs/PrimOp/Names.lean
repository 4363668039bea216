import Mathlib.Data.List.Infix
import Spineless.PrimOp.Standard

/-!
# Lists of names and what is matched

A family says twice what its operations are: in the list of names with which it is registered, and where
it matches the name of a call. Four families do both from one table. In the other nine the list and the
match are written apart, and `isSome_ofName?_iff` says of each that they agree: a name is matched exactly
if it is listed.

The names of byte accesses are not matched as a whole. What comes first in them is taken off, and the rest
names the element; that this finds the twelve names in the list and no others is `Element.exists_access`.
-/

namespace Spineless

namespace Handler

variable {Op : Type} {family : String} {names : List String} {ofName? : String → Option Op}
  {run : Op → Call → Exec Answer} {call : Call}

/-- A name that is matched with no operation is declined. -/
theorem evaluate_ofNames_of_none (h : ofName? call.name = none) :
    (ofNames family names ofName? run).evaluate call = pure none := by
  simp only [ofNames, h]

/-- A call goes to the operation that its name is matched with. -/
theorem evaluate_ofNames_of_some {op : Op} (h : ofName? call.name = some op) :
    (ofNames family names ofName? run).evaluate call = run op call := by
  simp only [ofNames, h]

/-- What is found in a table stands in it. -/
theorem mem_of_lookup {table : List (String × Op)} {name : String} {op : Op}
    (h : table.lookup name = some op) : (name, op) ∈ table := by
  obtain ⟨before, after, htable, -⟩ := List.lookup_eq_some_iff.1 h
  simp [htable]

/-- A name that is found in a table stands in its first column. -/
theorem mem_fst_of_isSome_lookup {table : List (String × Op)} {name : String}
    (h : (table.lookup name).isSome) : name ∈ table.map Prod.fst := by
  obtain ⟨op, hop⟩ := Option.isSome_iff_exists.1 h
  exact List.mem_map.2 ⟨(name, op), mem_of_lookup hop, rfl⟩

end Handler

namespace PrimOp

variable {name : String}

/-- Signed integers match the names that they list. -/
theorem IntOp.isSome_ofName?_iff : (ofName? name).isSome ↔ name ∈ names := by
  unfold ofName?
  split <;> simp_all [names]

/-- Unsigned integers match the names that they list. -/
theorem WordOp.isSome_ofName?_iff : (ofName? name).isSome ↔ name ∈ names := by
  unfold ofName?
  split <;> simp_all [names]

/-- Characters match the names that they list. -/
theorem CharOp.isSome_ofName?_iff : (ofName? name).isSome ↔ name ∈ names := by
  unfold ofName?
  split <;> simp_all [names]

/-- Mutable variables match the names that they list. -/
theorem MutVarOp.isSome_ofName?_iff : (ofName? name).isSome ↔ name ∈ names := by
  unfold ofName?
  split <;> simp_all [names]

/-- Synchronising variables match the names that they list. -/
theorem MVarOp.isSome_ofName?_iff : (ofName? name).isSome ↔ name ∈ names := by
  unfold ofName?
  split <;> simp_all [names]

/-- String pointers match the names that they list. -/
theorem AddrOp.isSome_ofName?_iff : (ofName? name).isSome ↔ name ∈ names := by
  unfold ofName?
  split <;> simp_all [names]

/-- Tags match the names that they list. -/
theorem TagOp.isSome_ofName?_iff : (ofName? name).isSome ↔ name ∈ names := by
  unfold ofName?
  split <;> simp_all [names]

/-- Threads, weak pointers and stable pointers match the names that they list. -/
theorem ConcurrencyOp.isSome_ofName?_iff : (ofName? name).isSome ↔ name ∈ names := by
  unfold ofName?
  split <;> simp_all [names]

/-! ## Accesses to bytes -/

/-- What follows a beginning is the rest of the name. -/
theorem after?_eq_some_iff {beginning rest : String} :
    after? beginning name = some rest ↔ name = beginning ++ rest := by
  rw [after?, Option.map_eq_some_iff, ← String.toList_inj, String.toList_append]
  constructor
  · rintro ⟨chars, hchars, rfl⟩
    rw [← List.isPrefixOf?_eq_some_iff_append_eq.1 hchars, String.toList_ofList]
  · intro hname
    exact ⟨rest.toList, List.isPrefixOf?_eq_some_iff_append_eq.2 hname.symm, String.ofList_toList⟩

namespace Element

/-- What is left of a name when the access is taken off. -/
def suffix : Element → String
  | .int => "IntArray#"
  | .word => "WordArray#"
  | .word8 => "Word8Array#"
  | .char => "CharArray#"

/-- A name that gives access to elements consists of an access and the element. -/
theorem exists_access {e : Element} (h : ofName? name = some e) :
    ∃ access ∈ ["index", "read", "write"], name = access ++ e.suffix := by
  have hrest : ∀ rest, (after? "index" name <|> after? "read" name <|> after? "write" name) = some rest →
      ∃ access ∈ ["index", "read", "write"], name = access ++ rest := by
    intro rest hrest
    simp only [Option.orElse_eq_orElse, Option.orElse_eq_or, Option.or_eq_some_iff, after?_eq_some_iff]
      at hrest
    rcases hrest with hname | ⟨-, hname | ⟨-, hname⟩⟩
    · exact ⟨"index", by simp, hname⟩
    · exact ⟨"read", by simp, hname⟩
    · exact ⟨"write", by simp, hname⟩
  unfold ofName? at h
  split at h <;> cases h
  all_goals exact hrest _ ‹_›

end Element

namespace ByteOp

/-- The names of accesses are listed. -/
theorem mem_names_of_element {e : Element} (h : Element.ofName? name = some e) : name ∈ names := by
  obtain ⟨access, haccess, rfl⟩ := Element.exists_access h
  have hlisted : ∀ access ∈ ["index", "read", "write"], access ++ e.suffix ∈ names := by
    cases e <;> decide
  exact hlisted access haccess

/-- Byte arrays match the names that they list. -/
theorem isSome_ofName?_iff : (ofName? name).isSome ↔ name ∈ names := by
  constructor
  · intro h
    unfold ofName? at h
    split at h
    · next e he => exact mem_names_of_element he
    · split at h <;> simp_all [names]
  · have hmatched : ∀ name ∈ names, (ofName? name).isSome := by decide
    exact hmatched name

end ByteOp

end PrimOp

end Spineless
