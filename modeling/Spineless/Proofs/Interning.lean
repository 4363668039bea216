import Mathlib.Data.Finset.Card
import Mathlib.Data.Finset.Dedup
import Spineless.Proofs.Loading

/-!
# Interning

Literals are entered into an empty table, some of them more than once. The pointers that come back stand for
the literals (`interning_stable`): equal literals have the same pointer and different ones have different
pointers; the numbers go up from zero in the order in which literals come for the first time; and a
pointer reads the bytes of its literal, with a zero byte behind the last one, whatever is entered later.

A table searches its literals from the front. An `IndexedTable` finds them through a map, in which a
number is a word of 32 bits. The two cannot be told apart while there are fewer literals than such words;
beyond that a number would be cut off.
-/

namespace Spineless

/-! ## Calls one after the other -/

/-- Enters literals into a table, one after the other. Each comes with the pointer that is given for it. -/
def enterAll {T : Type} (enter : T → List UInt8 → StringPtr × T) :
    T → List (List UInt8) → List (List UInt8 × StringPtr) × T
  | t, [] => ([], t)
  | t, bytes :: rest =>
    let entered := enter t bytes
    let later := enterAll enter entered.2 rest
    ((bytes, entered.1) :: later.1, later.2)

section Calls

variable {T : Type} {enter : T → List UInt8 → StringPtr × T} {t : T}

/-- There is one pointer for each literal that is entered. -/
theorem map_fst_enterAll (literals : List (List UInt8)) :
    (enterAll enter t literals).1.map Prod.fst = literals := by
  induction literals generalizing t with
  | nil => rfl
  | cons bytes rest ih => exact congrArg (bytes :: ·) ih

/-- What literals are given does not depend on what is entered later. -/
theorem enterAll_mono {xs ys : List (List UInt8)} (h : xs <+: ys) :
    (enterAll enter t xs).1 <+: (enterAll enter t ys).1 := by
  obtain ⟨later, rfl⟩ := h
  induction xs generalizing t with
  | nil => exact List.nil_prefix
  | cons bytes rest ih =>
      rw [List.cons_append, enterAll, enterAll]
      exact (List.prefix_cons_inj _).2 ih

/-- The pointer for a literal is given by the table in which the literals before it were entered. -/
theorem pointer_of_enterAll_eq {literals : List (List UInt8)} {before after : List (List UInt8 × StringPtr)}
    {bytes : List UInt8} {p : StringPtr}
    (h : (enterAll enter t literals).1 = before ++ (bytes, p) :: after) :
    p = (enter (enterAll enter t (before.map Prod.fst)).2 bytes).1 := by
  induction literals generalizing t before with
  | nil => simp [enterAll] at h
  | cons first rest ih =>
      cases before with
      | nil =>
          obtain ⟨hhead, -⟩ := List.cons.inj h
          cases hhead
          rfl
      | cons entry before =>
          obtain ⟨rfl, hrest⟩ := List.cons.inj h
          exact (ih hrest :)

end Calls

namespace StringTable

variable {t : StringTable} {literals : List (List UInt8)}

theorem enterAll_table : (enterAll intern t literals).2 = t.internAll literals := by
  induction literals generalizing t with
  | nil => rfl
  | cons bytes rest ih => exact ih (t := (t.intern bytes).2)

/-- A pointer that is given has the number under which the literal is found from then on. -/
theorem number?_of_mem_enterAll {entry : List UInt8 × StringPtr}
    (h : entry ∈ (enterAll intern t literals).1) :
    ∃ id, entry.2 = ⟨id, 0⟩ ∧ (t.internAll literals).number? entry.1 = some id := by
  induction literals generalizing t with
  | nil => exact absurd h List.not_mem_nil
  | cons bytes rest ih =>
      rcases List.mem_cons.1 h with rfl | hlater
      · obtain ⟨id, hpointer, hnumber⟩ := t.exists_number?_intern bytes
        exact ⟨id, hpointer, number?_internAll (t := (t.intern bytes).2) hnumber⟩
      · exact ih (t := (t.intern bytes).2) hlater

/-- A literal that is new to a table is numbered by the size. -/
theorem intern_of_notMem {bytes : List UInt8} (h : bytes ∉ t.literals) :
    t.intern bytes = (⟨t.size, 0⟩, ⟨t.literals.push bytes⟩) := by
  rcases t.intern_cases bytes with ⟨id, hnumber, -⟩ | ⟨-, hintern⟩
  · rw [number?_eq_none.2 h] at hnumber
    cases hnumber
  · exact hintern

/-- The size of a table is the number of different literals that were entered. -/
theorem size_internAll (literals : List (List UInt8)) :
    (internAll {} literals).size = literals.toFinset.card := by
  have hnodup : (internAll {} literals).literals.toList.Nodup := nodup_internAll .nil
  have hmem : (internAll {} literals).literals.toList.toFinset = literals.toFinset := by
    ext bytes
    rw [List.mem_toFinset, List.mem_toFinset, Array.mem_toList_iff, mem_internAll]
    simp
  rw [← hmem, List.toFinset_card_of_nodup hnodup, Array.length_toList]
  rfl

theorem size_le_internAll : t.size ≤ (t.internAll literals).size := by
  induction literals generalizing t with
  | nil => exact Nat.le_refl _
  | cons bytes rest ih =>
      refine Nat.le_trans ?_ (ih (t := (t.intern bytes).2))
      rcases t.intern_cases bytes with ⟨_, -, hintern⟩ | ⟨-, hintern⟩
      · rw [hintern]
      · rw [hintern, size, size, Array.size_push]
        exact Nat.le_succ _

/-! ## What pointers stand for -/

/-- What literals were given when they were entered into an empty table, and the table afterwards. -/
structure Interned (literals : List (List UInt8)) (given : List (List UInt8 × StringPtr))
    (t : StringTable) : Prop where
  literals_eq : given.map Prod.fst = literals
  /-- Two calls give the same pointer exactly if their literals are equal. -/
  pointer_eq_iff : ∀ entry ∈ given, ∀ other ∈ given, entry.2 = other.2 ↔ entry.1 = other.1
  /-- A literal that comes for the first time is numbered by the different literals before it. -/
  first : ∀ before bytes p after, given = before ++ (bytes, p) :: after →
    bytes ∉ before.map Prod.fst → p = ⟨(before.map Prod.fst).toFinset.card, 0⟩
  size : t.size = literals.toFinset.card
  resolve? : ∀ entry ∈ given, t.resolve? entry.2.id = some entry.1
  byte : ∀ entry ∈ given, ∀ i, (h : i < entry.1.length) →
    t.byteAt? { entry.2 with offset := i } = some entry.1[i]
  terminator : ∀ entry ∈ given, t.byteAt? { entry.2 with offset := entry.1.length } = some 0
  behind : ∀ entry ∈ given, ∀ i, entry.1.length < i → t.byteAt? { entry.2 with offset := i } = none

/-- Where literals are entered, each is found by the pointer that it is given. -/
theorem interned (literals : List (List UInt8)) :
    Interned literals (enterAll intern {} literals).1 (internAll {} literals) := by
  have hnodup : (internAll {} literals).literals.toList.Nodup := nodup_internAll .nil
  have hresolve : ∀ entry ∈ (enterAll intern {} literals).1,
      (internAll {} literals).resolve? entry.2.id = some entry.1 := by
    intro entry hentry
    obtain ⟨id, hpointer, hnumber⟩ := number?_of_mem_enterAll hentry
    rw [hpointer]
    exact (number?_eq_some_iff hnodup).1 hnumber
  refine ⟨map_fst_enterAll literals, fun entry hentry other hother => ⟨fun h => ?_, fun h => ?_⟩,
    fun before bytes p after hgiven hnew => ?_, size_internAll literals, hresolve,
    fun entry hentry i hi => ?_, fun entry hentry => ?_, fun entry hentry i hi => ?_⟩
  · have hsame := hresolve entry hentry
    rw [h, hresolve other hother] at hsame
    exact (Option.some.inj hsame).symm
  · obtain ⟨id, hpointer, hnumber⟩ := number?_of_mem_enterAll hentry
    obtain ⟨id', hpointer', hnumber'⟩ := number?_of_mem_enterAll hother
    rw [h, hnumber'] at hnumber
    rw [hpointer, hpointer', Option.some.inj hnumber]
  · have hmem : bytes ∉ (internAll {} (before.map Prod.fst)).literals := by
      rw [mem_internAll]
      exact not_or.2 ⟨Array.not_mem_empty bytes, hnew⟩
    rw [pointer_of_enterAll_eq hgiven, enterAll_table, intern_of_notMem hmem, size_internAll]
  · rw [byteAt?, hresolve entry hentry]
    simp only [if_neg (Nat.ne_of_lt hi), List.getElem?_eq_getElem hi]
  · rw [byteAt?, hresolve entry hentry]
    exact if_pos rfl
  · rw [byteAt?, hresolve entry hentry]
    simp only [if_neg (Nat.ne_of_gt hi), List.getElem?_eq_none (Nat.le_of_lt hi)]

end StringTable

/-! ## Tables with an index -/

/-- A table of literals that are found through a map. Their numbers are words of 32 bits. -/
structure IndexedTable extends StringTable where
  /-- The numbers of the literals. -/
  index : Std.HashMap (List UInt8) UInt32 := {}

namespace IndexedTable

/-- A pointer to the start of a literal. A literal that is not in the map is entered; its number is the
count of those before it, as far as that fits into a word. -/
def intern (t : IndexedTable) (bytes : List UInt8) : StringPtr × IndexedTable :=
  match t.index[bytes]? with
  | some id => (⟨id.toNat, 0⟩, t)
  | none =>
    let id := t.literals.size.toUInt32
    (⟨id.toNat, 0⟩, ⟨⟨t.literals.push bytes⟩, t.index.insert bytes id⟩)

variable {t : IndexedTable} {literals : List (List UInt8)}

/-- Whether the map finds what a search finds. -/
def Indexed (t : IndexedTable) : Prop :=
  ∀ bytes, t.index[bytes]?.map UInt32.toNat = t.toStringTable.number? bytes

/-- What an indexed table answers is what the table without the index answers. -/
structure Agrees {α : Type} (indexed : α × IndexedTable) (plain : α × StringTable) : Prop where
  answer : indexed.1 = plain.1
  table : indexed.2.toStringTable = plain.2
  indexed : indexed.2.Indexed

/-- One call keeps the index right, as long as the number of a new literal fits into a word. -/
theorem agrees_intern (h : t.Indexed) (hsize : t.size < UInt32.size) (bytes : List UInt8) :
    Agrees (t.intern bytes) (t.toStringTable.intern bytes) := by
  have hfound := h bytes
  rcases t.toStringTable.intern_cases bytes with ⟨id, hnumber, hintern⟩ | ⟨hnumber, hintern⟩
  · obtain ⟨word, hword, rfl⟩ := Option.map_eq_some_iff.1 (hfound.trans hnumber)
    have hcall : t.intern bytes = (⟨word.toNat, 0⟩, t) := by rw [IndexedTable.intern, hword]
    rw [hintern, hcall]
    exact ⟨rfl, rfl, h⟩
  · have hmissing := Option.map_eq_none_iff.1 (hfound.trans hnumber)
    have hword : t.literals.size.toUInt32.toNat = t.size := UInt32.toNat_ofNat_of_lt' hsize
    have hcall : t.intern bytes = (⟨t.size, 0⟩,
        ⟨⟨t.literals.push bytes⟩, t.index.insert bytes t.literals.size.toUInt32⟩) := by
      rw [IndexedTable.intern, hmissing, ← hword]
    rw [hintern, hcall]
    refine ⟨rfl, rfl, fun other => ?_⟩
    rw [Std.HashMap.getElem?_insert, StringTable.Renamed.number?_push, ← h other]
    by_cases hsame : bytes = other
    · rw [if_pos (beq_iff_eq.2 hsame), if_pos hsame, ← hsame, hmissing, Option.map_some, hword]
      rfl
    · rw [if_neg (mt beq_iff_eq.1 hsame), if_neg hsame, Option.or_none]

/-- Entering literals keeps the index right, as long as all the numbers fit into words. -/
theorem agrees_enterAll (h : t.Indexed)
    (hsize : (t.toStringTable.internAll literals).size < UInt32.size) :
    Agrees (enterAll intern t literals) (enterAll StringTable.intern t.toStringTable literals) := by
  induction literals generalizing t with
  | nil => exact ⟨rfl, rfl, h⟩
  | cons bytes rest ih =>
      have hstart : t.size < UInt32.size := Nat.lt_of_le_of_lt StringTable.size_le_internAll hsize
      obtain ⟨hpointer, htable, hindexed⟩ := agrees_intern h hstart bytes
      have hrest : ((t.intern bytes).2.toStringTable.internAll rest).size < UInt32.size := by
        rw [htable]
        exact hsize
      obtain ⟨hpointers, htables, hlater⟩ := ih hindexed hrest
      rw [htable] at hpointers htables
      exact ⟨congrArg₂ (fun p given => (bytes, p) :: given) hpointer hpointers, htables, hlater⟩

end IndexedTable

/-- With fewer different literals than words, pointers stand for literals, those that were given earlier
included. So they do in a table with an index, where the index is the inverse of the list of literals. -/
theorem StringTable.interning_stable (literals : List (List UInt8))
    (hfew : literals.toFinset.card < UInt32.size) :
    let plain := enterAll StringTable.intern {} literals
    let indexed := enterAll IndexedTable.intern {} literals
    Interned literals plain.1 plain.2 ∧
    (∀ earlier, earlier <+: literals → (enterAll StringTable.intern {} earlier).1 <+: plain.1) ∧
    indexed.1 = plain.1 ∧ indexed.2.toStringTable = plain.2 ∧
    ∀ bytes id, indexed.2.index[bytes]? = some id ↔ indexed.2.resolve? id.toNat = some bytes := by
  intro plain indexed
  have hplain : plain.2 = internAll {} literals := enterAll_table
  have hempty : IndexedTable.Indexed {} := fun bytes => by simp [number?]
  have hsize : (internAll {} literals).size < UInt32.size := by rwa [size_internAll]
  obtain ⟨hpointers, htable, hindexed⟩ := IndexedTable.agrees_enterAll hempty hsize
  refine ⟨?_, fun earlier hearlier => enterAll_mono hearlier, hpointers, htable, fun bytes id => ?_⟩
  · rw [hplain]
    exact interned literals
  · have hnodup : indexed.2.literals.toList.Nodup := by
      rw [htable, enterAll_table]
      exact nodup_internAll .nil
    rw [← number?_eq_some_iff hnodup, ← hindexed bytes]
    constructor
    · intro h
      rw [h, Option.map_some]
    · intro h
      obtain ⟨word, hword, heq⟩ := Option.map_eq_some_iff.1 h
      rw [hword, UInt32.toNat_inj.1 heq]

/-- A literal that ends with a zero byte is another one than the literal without it, although both read
alike up to there; when it is entered again it keeps its pointer. -/
theorem StringTable.interning_stable_zeroByte :
    let literals : List (List UInt8) := [[97, 0], [97], [97, 0]]
    let plain := enterAll StringTable.intern {} literals
    literals.toFinset.card < UInt32.size ∧
    plain.1 = [([97, 0], ⟨0, 0⟩), ([97], ⟨1, 0⟩), ([97, 0], ⟨0, 0⟩)] ∧ plain.2.size = 2 ∧
    plain.2.byteAt? ⟨0, 1⟩ = some 0 ∧ plain.2.byteAt? ⟨1, 1⟩ = some 0 ∧
    plain.2.byteAt? ⟨0, 2⟩ = some 0 ∧ plain.2.byteAt? ⟨1, 2⟩ = none ∧
    (enterAll IndexedTable.intern {} literals).1 = plain.1 := by
  intro literals plain
  have hfew : literals.toFinset.card < UInt32.size := by decide
  obtain ⟨hinterned, -, hpointers, -⟩ := interning_stable literals hfew
  have hgiven : plain.1 = [([97, 0], ⟨0, 0⟩), ([97], ⟨1, 0⟩), ([97, 0], ⟨0, 0⟩)] := by decide +kernel
  have hlong : ([97, 0], ⟨0, 0⟩) ∈ plain.1 := by simp [hgiven]
  have hshort : ([97], ⟨1, 0⟩) ∈ plain.1 := by simp [hgiven]
  exact ⟨hfew, hgiven, hinterned.size, hinterned.byte _ hlong 1 (by decide), hinterned.terminator _ hshort,
    hinterned.terminator _ hlong, hinterned.behind _ hshort 2 (by decide), hpointers⟩

end Spineless
