import Spineless.Proofs.PrimOp.Writers

/-!
# Ranges and copies

A range is given by two signed machine integers, and it is checked in two places, once for arrays of atoms
and once for byte arrays. `Fits` says in unbounded integers which ranges pass; since a start and a count
that are not negative are below 2 to the 63, their sum cannot wrap, and `Call.rangeOr_eq_ok` shows that
both checks decide `Fits`.

A copy reads the elements that it copies before it writes any of them, so it does not matter whether the
two arrays are the same and the ranges overlap. `Registry.copies_exact` gives the contents afterwards in
terms of `List.take` and `List.drop`.
-/

namespace Spineless

open PrimOp

variable {host : Host}

/-- `count` elements from `offset` on lie inside `size` elements, in unbounded integers. -/
def Fits (offset count : Int64) (size : Nat) : Prop :=
  0 ≤ offset.toInt ∧ 0 ≤ count.toInt ∧ offset.toInt + count.toInt ≤ size

instance (offset count : Int64) (size : Nat) : Decidable (Fits offset count size) :=
  inferInstanceAs (Decidable (_ ∧ _ ∧ _))

/-- A range that fits ends inside. -/
theorem Fits.le {offset count : Int64} {size : Nat} (h : Fits offset count size) :
    offset.toInt.toNat + count.toInt.toNat ≤ size := by
  obtain ⟨hoffset, hcount, hle⟩ := h
  omega

/-! ## Stretches of arrays -/

namespace PrimOp

variable {α : Type}

theorem toList_slice (xs : Array α) (start count : Nat) :
    (slice xs start count).toList = (xs.toList.drop start).take count := by
  simp [slice]

theorem size_slice {xs : Array α} {start count : Nat} (h : start + count ≤ xs.size) :
    (slice xs start count).size = count := by
  rw [slice, Array.size_extract]
  omega

theorem toList_splice (ys new : Array α) (start : Nat) :
    (splice ys start new).toList =
      ys.toList.take start ++ new.toList ++ ys.toList.drop (start + new.size) := by
  have hend : (ys.toList.drop (start + new.size)).take (ys.size - (start + new.size)) =
      ys.toList.drop (start + new.size) := List.take_of_length_le (by simp)
  simp [splice, hend]

/-- Inside the stretch a splice has the new elements, outside the old ones. -/
theorem getElem?_splice {ys new : Array α} {start : Nat} (h : start + new.size ≤ ys.size) (i : Nat) :
    (splice ys start new)[i]? =
      if start ≤ i ∧ i < start + new.size then new[i - start]? else ys[i]? := by
  have hlen : (ys.toList.take start).length = start := by
    rw [List.length_take, Array.length_toList]
    omega
  rw [← Array.getElem?_toList, toList_splice, List.append_assoc]
  by_cases hbefore : i < start
  · rw [List.getElem?_append_left (by omega), List.getElem?_take_of_lt hbefore, if_neg (by omega)]
    exact Array.getElem?_toList
  · rw [List.getElem?_append_right (by omega), hlen]
    by_cases hinside : i < start + new.size
    · rw [List.getElem?_append_left (by rw [Array.length_toList]; omega), if_pos ⟨by omega, hinside⟩]
      exact Array.getElem?_toList
    · have hindex : start + new.size + (i - start - new.size) = i := by omega
      rw [List.getElem?_append_right (by rw [Array.length_toList]; omega), if_neg (by omega),
        List.getElem?_drop, Array.length_toList, hindex]
      exact Array.getElem?_toList

end PrimOp

/-! ## Checks -/

section Checks

variable {call : Call} {s t : State}

/-- An index is a number that is not negative. -/
theorem Call.index_eq_ok {n : Int64} {i : Nat} :
    call.index n s = .ok i t ↔ 0 ≤ n.toInt ∧ i = n.toInt.toNat ∧ s = t := by
  have hneg : n < 0 ↔ n.toInt < 0 := Int64.lt_iff_toInt_lt
  unfold Call.index
  split
  · next h =>
      rw [hneg] at h
      exact ⟨fun hok => (Exec.fail_ne_ok.1 hok).elim, fun hok => by omega⟩
  · next h =>
      rw [hneg] at h
      rw [Exec.pure_eq_ok]
      exact ⟨fun hok => ⟨by omega, hok.1.symm, hok.2⟩, fun hok => ⟨hok.2.1.symm, hok.2.2⟩⟩

/-- A range, checked against a size; what lies outside is refused with a misfit. -/
def Call.rangeOr (call : Call) (misfit : Nat → Nat → Nat → Misfit) (size : Nat) (offset count : Int64) :
    Exec (Nat × Nat) := do
  let start ← call.index offset
  let count ← call.index count
  if start + count ≤ size then pure (start, count)
  else call.refuse (misfit start count size)

/-- The ranges that pass are those that fit. -/
theorem Call.rangeOr_eq_ok {misfit : Nat → Nat → Nat → Misfit} {size : Nat} {offset count : Int64}
    {r : Nat × Nat} :
    call.rangeOr misfit size offset count s = .ok r t ↔
      Fits offset count size ∧ r = (offset.toInt.toNat, count.toInt.toNat) ∧ s = t := by
  unfold Call.rangeOr
  constructor
  · intro hok
    obtain ⟨start, u, hstart, hok⟩ := Exec.bind_eq_ok.1 hok
    obtain ⟨hoffset, rfl, rfl⟩ := Call.index_eq_ok.1 hstart
    obtain ⟨n, u, hn, hok⟩ := Exec.bind_eq_ok.1 hok
    obtain ⟨hcount, rfl, rfl⟩ := Call.index_eq_ok.1 hn
    split at hok
    · next hle =>
        obtain ⟨rfl, rfl⟩ := Exec.pure_eq_ok.1 hok
        exact ⟨⟨hoffset, hcount, by omega⟩, rfl, rfl⟩
    · exact (Exec.fail_ne_ok.1 hok).elim
  · rintro ⟨hfits, rfl, rfl⟩
    rw [Exec.bind_of_ok (Call.index_eq_ok.2 ⟨hfits.1, rfl, rfl⟩),
      Exec.bind_of_ok (Call.index_eq_ok.2 ⟨hfits.2.1, rfl, rfl⟩), if_pos hfits.le]
    rfl

/-! The two checks are this one, each with its own misfit. -/

theorem PrimOp.ArrayOp.range_eq_ok {size : Nat} {offset count : Int64} {r : Nat × Nat} :
    ArrayOp.range call size offset count s = .ok r t ↔
      Fits offset count size ∧ r = (offset.toInt.toNat, count.toInt.toNat) ∧ s = t :=
  Call.rangeOr_eq_ok

theorem PrimOp.ByteOp.range_eq_ok {size : Nat} {offset count : Int64} {r : Nat × Nat} :
    ByteOp.range call size offset count s = .ok r t ↔
      Fits offset count size ∧ r = (offset.toInt.toNat, count.toInt.toNat) ∧ s = t :=
  Call.rangeOr_eq_ok

end Checks

/-! ## Reading and changing arrays -/

namespace Exec

variable {s t : State} {h : Handle} {kind : ArrayKind}

theorem readArray_eq_ok {xs : Array Atom} :
    readArray kind h s = .ok xs t ↔ (s.spaces.arraysOf kind)[h]? = some xs ∧ s = t :=
  orFail_eq_ok

theorem readBytes_eq_ok {b : Bytes} :
    readBytes h s = .ok b t ↔ s.spaces.byteArrays[h]? = some b ∧ s = t :=
  orFail_eq_ok

/-- The elements of an array that is there can be changed. -/
theorem modifyArray_of_eq {xs : Array Atom} (hxs : (s.spaces.arraysOf kind)[h]? = some xs)
    (f : Array Atom → Array Atom) :
    modifyArray kind h f s =
      .ok () { s with spaces := s.spaces.modifyArrays kind (·.modify h f) } := by
  rw [modifyArray, bind_of_ok (readArray_eq_ok.2 ⟨hxs, rfl⟩)]
  rfl

/-- The bytes of a byte array that is there can be changed. -/
theorem modifyBytes_of_eq {b : Bytes} (hb : s.spaces.byteArrays[h]? = some b)
    (f : Array UInt8 → Array UInt8) :
    modifyBytes h f s =
      .ok () { s with spaces := { s.spaces with
        byteArrays := s.spaces.byteArrays.modify h fun b => { b with bytes := f b.bytes } } } := by
  rw [modifyBytes, bind_of_ok (readBytes_eq_ok.2 ⟨hb, rfl⟩)]
  rfl

end Exec

namespace PrimOp

variable {call : Call} {s t : State} {src dst : Handle} {srcOffset dstOffset count : Int64}

/-- A copy between arrays succeeds if both ranges fit, and changes the elements of the target. -/
theorem ArrayOp.copyInto_eq_ok {source target : ArrayKind} {xs ys : Array Atom} {answer : Answer}
    (hxs : (s.spaces.arraysOf source)[src]? = some xs) (hys : (s.spaces.arraysOf target)[dst]? = some ys) :
    ArrayOp.copyInto source target call src srcOffset dst dstOffset count s = .ok answer t ↔
      Fits srcOffset count xs.size ∧ Fits dstOffset count ys.size ∧ answer = some [] ∧
      t = { s with spaces := s.spaces.modifyArrays target (·.modify dst fun old =>
        splice old dstOffset.toInt.toNat (slice xs srcOffset.toInt.toNat count.toInt.toNat)) } := by
  constructor
  · intro hok
    obtain ⟨xs', u, hread, hok⟩ := Exec.bind_eq_ok.1 hok
    obtain ⟨hxs', rfl⟩ := Exec.readArray_eq_ok.1 hread
    cases hxs.symm.trans hxs'
    obtain ⟨r, u, hr, hok⟩ := Exec.bind_eq_ok.1 hok
    obtain ⟨hsrc, rfl, rfl⟩ := ArrayOp.range_eq_ok.1 hr
    obtain ⟨ys', u, hread, hok⟩ := Exec.bind_eq_ok.1 hok
    obtain ⟨hys', rfl⟩ := Exec.readArray_eq_ok.1 hread
    cases hys.symm.trans hys'
    obtain ⟨r, u, hr, hok⟩ := Exec.bind_eq_ok.1 hok
    obtain ⟨hdst, rfl, rfl⟩ := ArrayOp.range_eq_ok.1 hr
    obtain ⟨_, u, hmodify, hok⟩ := Exec.bind_eq_ok.1 hok
    rw [Exec.modifyArray_of_eq hys] at hmodify
    cases hmodify
    obtain ⟨rfl, rfl⟩ := Exec.pure_eq_ok.1 hok
    exact ⟨hsrc, hdst, rfl, rfl⟩
  · rintro ⟨hsrc, hdst, rfl, rfl⟩
    refine Exec.bind_eq_ok.2 ⟨xs, s, Exec.readArray_eq_ok.2 ⟨hxs, rfl⟩, ?_⟩
    refine Exec.bind_eq_ok.2 ⟨_, s, ArrayOp.range_eq_ok.2 ⟨hsrc, rfl, rfl⟩, ?_⟩
    refine Exec.bind_eq_ok.2 ⟨ys, s, Exec.readArray_eq_ok.2 ⟨hys, rfl⟩, ?_⟩
    refine Exec.bind_eq_ok.2 ⟨_, s, ArrayOp.range_eq_ok.2 ⟨hdst, rfl, rfl⟩, ?_⟩
    exact Exec.bind_eq_ok.2 ⟨(), _, Exec.modifyArray_of_eq hys _, rfl⟩

/-- A copy between byte arrays succeeds if both ranges fit, and changes the bytes of the target. -/
theorem ByteOp.copyInto_eq_ok {a b : Bytes} {answer : Answer} (ha : s.spaces.byteArrays[src]? = some a)
    (hb : s.spaces.byteArrays[dst]? = some b) :
    ByteOp.copyInto call src srcOffset dst dstOffset count s = .ok answer t ↔
      Fits srcOffset count a.bytes.size ∧ Fits dstOffset count b.bytes.size ∧ answer = some [] ∧
      t = { s with spaces := { s.spaces with
        byteArrays := s.spaces.byteArrays.modify dst fun old => { old with
          bytes := splice old.bytes dstOffset.toInt.toNat
            (slice a.bytes srcOffset.toInt.toNat count.toInt.toNat) } } } := by
  constructor
  · intro hok
    obtain ⟨a', u, hread, hok⟩ := Exec.bind_eq_ok.1 hok
    obtain ⟨ha', rfl⟩ := Exec.readBytes_eq_ok.1 hread
    cases ha.symm.trans ha'
    obtain ⟨r, u, hr, hok⟩ := Exec.bind_eq_ok.1 hok
    obtain ⟨hsrc, rfl, rfl⟩ := ByteOp.range_eq_ok.1 hr
    obtain ⟨b', u, hread, hok⟩ := Exec.bind_eq_ok.1 hok
    obtain ⟨hb', rfl⟩ := Exec.readBytes_eq_ok.1 hread
    cases hb.symm.trans hb'
    obtain ⟨r, u, hr, hok⟩ := Exec.bind_eq_ok.1 hok
    obtain ⟨hdst, rfl, rfl⟩ := ByteOp.range_eq_ok.1 hr
    obtain ⟨_, u, hmodify, hok⟩ := Exec.bind_eq_ok.1 hok
    rw [Exec.modifyBytes_of_eq hb] at hmodify
    cases hmodify
    obtain ⟨rfl, rfl⟩ := Exec.pure_eq_ok.1 hok
    exact ⟨hsrc, hdst, rfl, rfl⟩
  · rintro ⟨hsrc, hdst, rfl, rfl⟩
    refine Exec.bind_eq_ok.2 ⟨a, s, Exec.readBytes_eq_ok.2 ⟨ha, rfl⟩, ?_⟩
    refine Exec.bind_eq_ok.2 ⟨_, s, ByteOp.range_eq_ok.2 ⟨hsrc, rfl, rfl⟩, ?_⟩
    refine Exec.bind_eq_ok.2 ⟨b, s, Exec.readBytes_eq_ok.2 ⟨hb, rfl⟩, ?_⟩
    refine Exec.bind_eq_ok.2 ⟨_, s, ByteOp.range_eq_ok.2 ⟨hdst, rfl, rfl⟩, ?_⟩
    exact Exec.bind_eq_ok.2 ⟨(), _, Exec.modifyBytes_of_eq hb _, rfl⟩

/-- A copy into a fresh array succeeds if the range fits. -/
theorem ArrayOp.copyRange_eq_ok {source target : ArrayKind} {xs : Array Atom} {h : Handle}
    (hxs : (s.spaces.arraysOf source)[src]? = some xs) :
    ArrayOp.copyRange source target call src srcOffset count s = .ok h t ↔
      Fits srcOffset count xs.size ∧ h = (s.spaces.arraysOf target).size ∧
      t = { s with spaces := s.spaces.modifyArrays target fun arrays =>
        arrays.push (slice xs srcOffset.toInt.toNat count.toInt.toNat) } := by
  constructor
  · intro hok
    obtain ⟨xs', u, hread, hok⟩ := Exec.bind_eq_ok.1 hok
    obtain ⟨hxs', rfl⟩ := Exec.readArray_eq_ok.1 hread
    cases hxs.symm.trans hxs'
    obtain ⟨r, u, hr, hok⟩ := Exec.bind_eq_ok.1 hok
    obtain ⟨hsrc, rfl, rfl⟩ := ArrayOp.range_eq_ok.1 hr
    cases hok
    exact ⟨hsrc, rfl, rfl⟩
  · rintro ⟨hsrc, rfl, rfl⟩
    refine Exec.bind_eq_ok.2 ⟨xs, s, Exec.readArray_eq_ok.2 ⟨hxs, rfl⟩, ?_⟩
    exact Exec.bind_eq_ok.2 ⟨_, s, ArrayOp.range_eq_ok.2 ⟨hsrc, rfl, rfl⟩, rfl⟩

end PrimOp

/-! ## The calls -/

/-- A list with a stretch of another one laid over it: what stands before the stretch, the stretch, and
what stands behind it. -/
def patch {α : Type} (old source : List α) (start dest count : Nat) : List α :=
  old.take dest ++ (source.drop start).take count ++ old.drop (dest + count)

/-- How many elements or bytes an array has. -/
def Cell.length : Cell → Nat
  | .array elements => elements.size
  | .bytes contents => contents.bytes.size
  | .mutVar _ | .mvar _ => 0

/-- An array with a stretch of another one laid over it. -/
def Cell.patch : (old source : Cell) → (start dest count : Nat) → Cell
  | .array ys, .array xs, start, dest, count =>
    .array (Spineless.patch ys.toList xs.toList start dest count).toArray
  | .bytes b, .bytes a, start, dest, count =>
    .bytes { b with bytes := (Spineless.patch b.bytes.toList a.bytes.toList start dest count).toArray }
  | old, _, _, _, _ => old

/-- A call copies a range of one array over a range of another. -/
structure CopiesRange (host : Host) (call : Call) (s : State) (target : Space) (dst : Handle)
    (source old : Cell) (srcOffset dstOffset count : Int64) : Prop where
  /-- It succeeds exactly if both ranges fit. -/
  succeeds : (∃ atoms t, (Registry.standard host).evaluate call s = .ok atoms t) ↔
    Fits srcOffset count source.length ∧ Fits dstOffset count old.length
  /-- It answers nothing, and only the destination changes. -/
  result : ∀ atoms t, (Registry.standard host).evaluate call s = .ok atoms t → atoms = [] ∧
    ∃ sp, t = { s with spaces := sp } ∧ s.spaces.Overwrites sp target dst
      (old.patch source srcOffset.toInt.toNat dstOffset.toInt.toNat count.toInt.toNat)

/-- A call copies a range of an array into a fresh one. -/
structure ClonesRange (host : Host) (call : Call) (s : State) (target : Space) (xs : Array Atom)
    (offset count : Int64) : Prop where
  /-- It succeeds exactly if the range fits. -/
  succeeds : (∃ atoms t, (Registry.standard host).evaluate call s = .ok atoms t) ↔ Fits offset count xs.size
  /-- It answers the fresh array, and nothing that was there changes. -/
  result : ∀ atoms t, (Registry.standard host).evaluate call s = .ok atoms t →
    atoms = [target.handle (s.spaces.count target)] ∧
    ∃ sp, t = { s with spaces := sp } ∧ s.spaces.Appends sp target
      (.array ((xs.toList.drop offset.toInt.toNat).take count.toInt.toNat).toArray)

/-- A stretch of one array laid over another. -/
theorem PrimOp.splice_slice {α : Type} {xs ys : Array α} {start dest count : Nat}
    (h : start + count ≤ xs.size) :
    splice ys dest (slice xs start count) = (patch ys.toList xs.toList start dest count).toArray := by
  rw [← Array.toList_inj, toList_splice, toList_slice, size_slice h, patch]

/-- The elements of an array are what its cell holds. -/
theorem Spaces.cell?_eq_array {sp : Spaces} {kind : ArrayKind} {h : Handle} {xs : Array Atom} :
    sp.cell? kind.space h = some (.array xs) ↔ (sp.arraysOf kind)[h]? = some xs := by
  rw [cell?_space, Option.map_eq_some_iff]
  constructor
  · rintro ⟨_, hxs, ⟨⟩⟩
    exact hxs
  · exact fun hxs => ⟨xs, hxs, rfl⟩

/-- The cell of an array kind holds the elements of an array. -/
theorem Spaces.exists_array {sp : Spaces} {kind : ArrayKind} {h : Handle} {cell : Cell}
    (hcell : sp.cell? kind.space h = some cell) :
    ∃ xs, (sp.arraysOf kind)[h]? = some xs ∧ cell = .array xs := by
  rw [cell?_space] at hcell
  obtain ⟨xs, hxs, rfl⟩ := Option.map_eq_some_iff.1 hcell
  exact ⟨xs, hxs, rfl⟩

section Calls

variable {call : Call} {s t : State} {atoms : List Atom} {fl : Flavour} {op : ArrayOp}
  {source target : ArrayKind} {src dst : Handle} {srcOffset dstOffset count : Int64}

/-- A call of an operation on arrays gives values exactly when the operation answers them. -/
theorem Registry.array_evaluate_iff_run (fl : Flavour) (hop : fl.table.lookup call.name = some op) :
    (standard host).evaluate call s = .ok atoms t ↔ op.run host fl call s = .ok (some atoms) t := by
  have hname : call.name ∈ fl.table.map Prod.fst :=
    Handler.mem_fst_of_isSome_lookup (Option.isSome_of_eq_some hop)
  cases fl with
  | large =>
      have hmem : arrayHandler host ∈ standardHandlers host := by simp [standardHandlers]
      exact standard_evaluate_iff_run hmem hname hop
  | small =>
      have hmem : smallArrayHandler host ∈ standardHandlers host := by simp [standardHandlers]
      exact standard_evaluate_iff_run hmem hname hop

/-- A call of an operation on byte arrays gives values exactly when the operation answers them. -/
theorem Registry.bytes_evaluate_iff_run {op : ByteOp} (hop : ByteOp.ofName? call.name = some op) :
    (standard host).evaluate call s = .ok atoms t ↔ op.run host call s = .ok (some atoms) t := by
  have hmem : byteArrayHandler host ∈ standardHandlers host := by simp [standardHandlers]
  exact standard_evaluate_iff_run hmem (ByteOp.isSome_ofName?_iff.1 (Option.isSome_of_eq_some hop)) hop

/-- The two copies over an array differ in the space that they read. -/
inductive PrimOp.ArrayOp.CopiesFrom (fl : Flavour) : ArrayOp → ArrayKind → Prop
  | frozen : CopiesFrom fl .copy fl.frozenKind
  | mutable : CopiesFrom fl .copyMutable fl.mutableKind

/-- Freezing and thawing copy from one space of a flavour into the other. -/
inductive PrimOp.ArrayOp.Clones (fl : Flavour) : ArrayOp → (source target : ArrayKind) → Prop
  | freeze : Clones fl .freeze fl.mutableKind fl.frozenKind
  | thaw : Clones fl .thaw fl.frozenKind fl.mutableKind

/-- A copy over an array reads the one space and writes the other. -/
theorem PrimOp.ArrayOp.run_copyInto
    (hop : op.CopiesFrom fl source)
    (hargs : call.args = [source.space.handle src, .int srcOffset, fl.mutableKind.space.handle dst,
      .int dstOffset, .int count, .void]) :
    op.run host fl call = copyInto source fl.mutableKind call src srcOffset dst dstOffset count := by
  unfold run
  rw [hargs]
  cases hop <;> cases fl <;> rfl

/-- Freezing and thawing copy a range into a fresh array and answer it. -/
theorem PrimOp.ArrayOp.run_copyRange
    (hop : op.Clones fl source target)
    (hargs : call.args = [source.space.handle src, .int srcOffset, .int count, .void]) :
    op.run host fl call = copyRange source target call src srcOffset count >>= fun h =>
      Exec.answer (target.space.handle h) := by
  unfold run
  rw [hargs]
  cases hop <;> cases fl <;> rfl

/-- A call copies a range if it answers nothing exactly when the ranges fit, and then lays the one over the
other. -/
theorem CopiesRange.of_iff {space : Space} {old new : Cell} {sp : Spaces}
    (hcall : ∀ atoms t, (Registry.standard host).evaluate call s = .ok atoms t ↔
      Fits srcOffset count new.length ∧ Fits dstOffset count old.length ∧ some atoms = some [] ∧
      t = { s with spaces := sp })
    (hover : Fits srcOffset count new.length → s.spaces.Overwrites sp space dst
      (old.patch new srcOffset.toInt.toNat dstOffset.toInt.toNat count.toInt.toNat)) :
    CopiesRange host call s space dst new old srcOffset dstOffset count := by
  constructor
  · simp only [hcall]
    constructor
    · rintro ⟨_, _, hsrc, hdst, _⟩
      exact ⟨hsrc, hdst⟩
    · rintro ⟨hsrc, hdst⟩
      exact ⟨_, _, hsrc, hdst, rfl, rfl⟩
  · intro atoms t hok
    obtain ⟨hsrc, -, hatoms, rfl⟩ := (hcall atoms t).1 hok
    exact ⟨Option.some.inj hatoms, sp, rfl, hover hsrc⟩

/-- A copy over an array of atoms. -/
theorem CopiesRange.of_array (fl : Flavour) {old new : Cell} (hlookup : fl.table.lookup call.name = some op)
    (hop : op.CopiesFrom fl source)
    (hargs : call.args = [source.space.handle src, .int srcOffset, fl.mutableKind.space.handle dst,
      .int dstOffset, .int count, .void])
    (hnew : s.spaces.cell? source.space src = some new)
    (hold : s.spaces.cell? fl.mutableKind.space dst = some old) :
    CopiesRange host call s fl.mutableKind.space dst new old srcOffset dstOffset count := by
  obtain ⟨xs, hxs, rfl⟩ := Spaces.exists_array hnew
  obtain ⟨ys, hys, rfl⟩ := Spaces.exists_array hold
  have hcall : ∀ atoms t, (Registry.standard host).evaluate call s = .ok atoms t ↔
      ArrayOp.copyInto source fl.mutableKind call src srcOffset dst dstOffset count s =
        .ok (some atoms) t := by
    intro atoms t
    rw [Registry.array_evaluate_iff_run fl hlookup, ArrayOp.run_copyInto hop hargs]
  simp only [ArrayOp.copyInto_eq_ok hxs hys] at hcall
  refine .of_iff hcall fun hsrc => ?_
  rw [Cell.patch, ← splice_slice hsrc.le]
  exact Spaces.overwrites_array hys _

/-- A copy over a byte array. -/
theorem CopiesRange.of_bytes {old new : Cell} (hlookup : ByteOp.ofName? call.name = some .copy)
    (hargs : call.args =
      [.byteArray src, .int srcOffset, .byteArray dst, .int dstOffset, .int count, .void])
    (hnew : s.spaces.cell? .byteArray src = some new) (hold : s.spaces.cell? .byteArray dst = some old) :
    CopiesRange host call s .byteArray dst new old srcOffset dstOffset count := by
  obtain ⟨a, ha, rfl⟩ := Option.map_eq_some_iff.1 hnew
  obtain ⟨b, hb, rfl⟩ := Option.map_eq_some_iff.1 hold
  have hcall : ∀ atoms t, (Registry.standard host).evaluate call s = .ok atoms t ↔
      ByteOp.copyInto call src srcOffset dst dstOffset count s = .ok (some atoms) t := by
    intro atoms t
    rw [Registry.bytes_evaluate_iff_run hlookup]
    simp only [ByteOp.run, hargs]
  simp only [ByteOp.copyInto_eq_ok ha hb] at hcall
  refine .of_iff hcall fun hsrc => ?_
  rw [Cell.patch, ← splice_slice hsrc.le]
  exact Spaces.overwrites_bytes hb _

/-- A copy into a fresh array of atoms. -/
theorem ClonesRange.of_array (fl : Flavour) {xs : Array Atom} (hlookup : fl.table.lookup call.name = some op)
    (hop : op.Clones fl source target)
    (hargs : call.args = [source.space.handle src, .int srcOffset, .int count, .void])
    (hcell : s.spaces.cell? source.space src = some (.array xs)) :
    ClonesRange host call s target.space xs srcOffset count := by
  have hxs := Spaces.cell?_eq_array.1 hcell
  have hcall : ∀ atoms t, (Registry.standard host).evaluate call s = .ok atoms t ↔
      Fits srcOffset count xs.size ∧
      atoms = [target.space.handle (s.spaces.arraysOf target).size] ∧
      t = { s with spaces := s.spaces.modifyArrays target fun arrays =>
        arrays.push (slice xs srcOffset.toInt.toNat count.toInt.toNat) } := by
    intro atoms t
    rw [Registry.array_evaluate_iff_run fl hlookup, ArrayOp.run_copyRange hop hargs, Exec.bind_eq_ok]
    simp only [ArrayOp.copyRange_eq_ok hxs]
    constructor
    · rintro ⟨h, u, ⟨hfits, rfl, rfl⟩, hanswer⟩
      obtain ⟨hatoms, rfl⟩ := Exec.pure_eq_ok.1 hanswer
      exact ⟨hfits, (Option.some.inj hatoms).symm, rfl⟩
    · rintro ⟨hfits, rfl, rfl⟩
      exact ⟨_, _, ⟨hfits, rfl, rfl⟩, rfl⟩
  constructor
  · simp only [hcall]
    exact ⟨fun ⟨_, _, hfits, _⟩ => hfits, fun hfits => ⟨_, _, hfits, rfl, rfl⟩⟩
  · intro atoms t hok
    obtain ⟨hfits, rfl, rfl⟩ := (hcall atoms t).1 hok
    refine ⟨?_, _, rfl, ?_⟩
    · cases target <;> rfl
    · rw [← toList_slice]
      exact Spaces.appends_array _ _ _

end Calls

namespace Registry

/-- The operations that copy a range of one array over a range of another, with the spaces of the two. -/
def copies : List (String × Space × Space) := [
  ("copyArray#", .array, .mutableArray), ("copyMutableArray#", .mutableArray, .mutableArray),
  ("copySmallArray#", .smallArray, .smallMutableArray),
  ("copySmallMutableArray#", .smallMutableArray, .smallMutableArray),
  ("copyByteArray#", .byteArray, .byteArray), ("copyMutableByteArray#", .byteArray, .byteArray)]

/-- The operations that copy a range of an array into a fresh one, with the spaces of the two. -/
def clones : List (String × Space × Space) := [
  ("freezeArray#", .mutableArray, .array), ("thawArray#", .array, .mutableArray),
  ("freezeSmallArray#", .smallMutableArray, .smallArray),
  ("thawSmallArray#", .smallArray, .smallMutableArray)]

/-- Copies between arrays that are there, the same one or two, succeed exactly if the ranges fit, and
change exactly the range at the destination. Freezing and thawing make an array of exactly the range. -/
theorem copies_exact :
    (∀ name source target, (name, source, target) ∈ copies → ∀ (call : Call) (s : State)
      (src dst : Handle) (srcOffset dstOffset count : Int64) (new old : Cell),
      call.Asks name
        [source.handle src, .int srcOffset, target.handle dst, .int dstOffset, .int count, .void] →
      s.spaces.cell? source src = some new → s.spaces.cell? target dst = some old →
      CopiesRange host call s target dst new old srcOffset dstOffset count) ∧
    ∀ name source target, (name, source, target) ∈ clones → ∀ (call : Call) (s : State)
      (src : Handle) (offset count : Int64) (xs : Array Atom),
      call.Asks name [source.handle src, .int offset, .int count, .void] →
      s.spaces.cell? source src = some (.array xs) → ClonesRange host call s target xs offset count := by
  constructor
  · intro name source target hmem call s src dst srcOffset dstOffset count new old hasks hnew hold
    simp only [copies, List.mem_cons, Prod.mk.injEq, List.not_mem_nil, or_false] at hmem
    rcases hmem with ⟨rfl, rfl, rfl⟩ | ⟨rfl, rfl, rfl⟩ | ⟨rfl, rfl, rfl⟩ | ⟨rfl, rfl, rfl⟩ |
      ⟨rfl, rfl, rfl⟩ | ⟨rfl, rfl, rfl⟩
    · exact .of_array .large (by rw [hasks.name]; rfl) .frozen hasks.args hnew hold
    · exact .of_array .large (by rw [hasks.name]; rfl) .mutable hasks.args hnew hold
    · exact .of_array .small (by rw [hasks.name]; rfl) .frozen hasks.args hnew hold
    · exact .of_array .small (by rw [hasks.name]; rfl) .mutable hasks.args hnew hold
    · exact .of_bytes (by rw [hasks.name]; rfl) hasks.args hnew hold
    · exact .of_bytes (by rw [hasks.name]; rfl) hasks.args hnew hold
  · intro name source target hmem call s src offset count xs hasks hxs
    simp only [clones, List.mem_cons, Prod.mk.injEq, List.not_mem_nil, or_false] at hmem
    rcases hmem with ⟨rfl, rfl, rfl⟩ | ⟨rfl, rfl, rfl⟩ | ⟨rfl, rfl, rfl⟩ | ⟨rfl, rfl, rfl⟩
    · exact .of_array .large (by rw [hasks.name]; rfl) .freeze hasks.args hxs
    · exact .of_array .large (by rw [hasks.name]; rfl) .thaw hasks.args hxs
    · exact .of_array .small (by rw [hasks.name]; rfl) .freeze hasks.args hxs
    · exact .of_array .small (by rw [hasks.name]; rfl) .thaw hasks.args hxs

/-- A mutable array of four elements. -/
def fourElements : State where
  traceLimit := 0
  maxStackDepth := 0
  spaces := { mutableArrays := #[#[.int 1, .int 2, .int 3, .int 4]] }

/-- The first three elements of an array are copied over its last three, and its last two are frozen; a
copy of nothing to behind the last element succeeds, and one of an element does not. -/
theorem copies_exact_overlapping :
    let shift (dstOffset count : Int64) : Call :=
      { name := "copyMutableArray#"
        args := [.mutableArray 0, .int 0, .mutableArray 0, .int dstOffset, .int count, .void] }
    let freeze : Call := { name := "freezeArray#", args := [.mutableArray 0, .int 2, .int 2, .void] }
    (∀ atoms t, standard.evaluate (shift 1 3) fourElements = .ok atoms t →
      t.spaces.cell? .mutableArray 0 = some (.array #[.int 1, .int 1, .int 2, .int 3])) ∧
    (∃ atoms t, standard.evaluate (shift 1 3) fourElements = .ok atoms t) ∧
    (∃ atoms t, standard.evaluate (shift 4 0) fourElements = .ok atoms t) ∧
    (¬ ∃ atoms t, standard.evaluate (shift 4 1) fourElements = .ok atoms t) ∧
    ∀ atoms t, standard.evaluate freeze fourElements = .ok atoms t →
      t.spaces.cell? .array 0 = some (.array #[.int 3, .int 4]) := by
  intro shift freeze
  have hcopies : ∀ dstOffset count, CopiesRange .usual (shift dstOffset count) fourElements .mutableArray 0
      (.array #[.int 1, .int 2, .int 3, .int 4]) (.array #[.int 1, .int 2, .int 3, .int 4])
      0 dstOffset count := fun dstOffset count =>
    copies_exact.1 "copyMutableArray#" .mutableArray .mutableArray (by simp [copies]) _ _ 0 0 _ _ _ _ _
      ⟨rfl, rfl⟩ rfl rfl
  have hclones : ClonesRange .usual freeze fourElements .array #[.int 1, .int 2, .int 3, .int 4] 2 2 :=
    copies_exact.2 "freezeArray#" .mutableArray .array (by simp [clones]) _ _ 0 _ _ _ ⟨rfl, rfl⟩ rfl
  refine ⟨?_, (hcopies 1 3).succeeds.2 ?_, (hcopies 4 0).succeeds.2 ?_,
    fun hok => absurd ((hcopies 4 1).succeeds.1 hok) ?_, ?_⟩
  · intro atoms t hok
    obtain ⟨-, sp, rfl, hover⟩ := (hcopies 1 3).result atoms t hok
    exact hover.cell? .mutableArray 0
  · exact ⟨by decide, by decide⟩
  · exact ⟨by decide, by decide⟩
  · exact fun hfits => absurd hfits.2 (by decide)
  · intro atoms t hok
    obtain ⟨-, sp, rfl, happends⟩ := hclones.result atoms t hok
    exact happends.cell? .array 0

end Registry

end Spineless
