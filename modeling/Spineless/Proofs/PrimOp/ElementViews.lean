import Mathlib.Algebra.BigOperators.Ring.List
import Mathlib.Algebra.Ring.Nat
import Spineless.Proofs.PrimOp.Ranges

/-!
# Views of a byte array

Integers, words, bytes and characters are four views of the same bytes. `ofLittleEndian` and
`toLittleEndian` are inverse to each other, so an element that is read and written back leaves the bytes as
they were (`Element.encode?_decode`), and an element that is written is read back cut off to its width
(`Element.kept?_eq`).

`Registry.views_agree` says what this means for the operations. Fetching and storing check the index in
the same place, and the check is stated in unbounded integers (`Element.Inside`): an index that is not
negative is below 2 to the 63, so its product with the width does not wrap.
-/

namespace Spineless

variable {host : Host}

namespace PrimOp.Element

/-! ## Little-endian numbers -/

theorem length_toLittleEndian (width n : Nat) : (toLittleEndian width n).length = width := by
  induction width generalizing n with
  | zero => rfl
  | succ width ih => rw [toLittleEndian, List.length_cons, ih]

/-- Only the low bytes of a number are kept. -/
theorem ofLittleEndian_toLittleEndian (width n : Nat) :
    ofLittleEndian (toLittleEndian width n) = n % 256 ^ width := by
  induction width generalizing n with
  | zero => rw [toLittleEndian, ofLittleEndian, Nat.pow_zero, Nat.mod_one]
  | succ width ih =>
      have hpow : 256 ^ (width + 1) = 256 * 256 ^ width := Nat.pow_succ'
      rw [toLittleEndian, ofLittleEndian, ih, UInt8.toNat_ofNat', hpow, Nat.mod_mul]

theorem ofLittleEndian_lt (bytes : List UInt8) : ofLittleEndian bytes < 256 ^ bytes.length := by
  induction bytes with
  | nil => exact Nat.one_pos
  | cons b rest ih =>
      have hb : b.toNat < 256 := b.toNat_lt
      rw [ofLittleEndian, List.length_cons, Nat.pow_succ]
      omega

/-- The bytes of a number are those that it was read from. -/
theorem toLittleEndian_ofLittleEndian (bytes : List UInt8) :
    toLittleEndian bytes.length (ofLittleEndian bytes) = bytes := by
  induction bytes with
  | nil => rfl
  | cons b rest ih =>
      have hb : b.toNat < 256 := b.toNat_lt
      have hhead : UInt8.ofNat (b.toNat + 256 * ofLittleEndian rest) = b := by
        apply UInt8.toNat_inj.1
        rw [UInt8.toNat_ofNat']
        omega
      have htail : (b.toNat + 256 * ofLittleEndian rest) / 256 = ofLittleEndian rest := by omega
      rw [List.length_cons, ofLittleEndian, toLittleEndian, hhead, htail, ih]

/-- A little-endian number is a sum over its bytes. -/
theorem ofLittleEndian_eq_sum (bytes : List UInt8) :
    ofLittleEndian bytes =
      ((List.range bytes.length).map fun k => (bytes[k]?.getD 0).toNat * 256 ^ k).sum := by
  induction bytes with
  | nil => rfl
  | cons b rest ih =>
      have hshift : ∀ k, (rest[k]?.getD 0).toNat * 256 ^ (k + 1) =
          256 * ((rest[k]?.getD 0).toNat * 256 ^ k) := by
        intro k
        rw [Nat.pow_succ, ← Nat.mul_assoc, Nat.mul_comm]
      rw [ofLittleEndian, ih, List.length_cons, List.range_succ_eq_map, List.map_cons, List.map_map,
        List.sum_cons, ← List.sum_map_mul_left]
      simp only [Function.comp_def, List.getElem?_cons_succ, List.getElem?_cons_zero, hshift,
        Option.getD_some, Nat.pow_zero, Nat.mul_one]

/-! ## Elements -/

/-- What an element keeps of a value of its sort; nothing is kept of other values. -/
def kept? : Element → Atom → Option Atom
  | .int, .int n => some (.int n)
  | .word, .word n => some (.word n)
  | .word8, .word n => some (.word (n % 256))
  | .char, .char c => some (.char (Char.ofNat (c.toNat % 256)))
  | _, _ => none

/-- The element at an index lies inside an array of bytes, in unbounded integers. -/
def Inside (e : Element) (i : Int64) (size : Nat) : Prop :=
  0 ≤ i.toInt ∧ (i.toInt + 1) * e.width ≤ size

instance (e : Element) (i : Int64) (size : Nat) : Decidable (e.Inside i size) :=
  inferInstanceAs (Decidable (_ ∧ _))

/-- The bytes of an element lie inside the array. -/
theorem Inside.le {e : Element} {i : Int64} {size : Nat} (h : e.Inside i size) :
    i.toInt.toNat * e.width + e.width ≤ size := by
  obtain ⟨hi, hle⟩ := h
  cases e <;> simp only [width] at hle ⊢ <;> omega

theorem length_of_encode? {e : Element} {value : Atom} {bytes : List UInt8}
    (h : e.encode? value = some bytes) : bytes.length = e.width := by
  unfold encode? at h
  split at h
  all_goals cases h
  all_goals exact length_toLittleEndian _ _

/-- What is kept of a value is what its bytes denote. -/
theorem kept?_eq (e : Element) (value : Atom) : e.kept? value = (e.encode? value).map e.decode := by
  fun_cases encode? e value with
  | case1 n =>
      have hn : n.toUInt64.toNat < 256 ^ 8 := n.toUInt64.toNat_lt
      simp only [kept?, Option.map_some, decode, ofLittleEndian_toLittleEndian, Nat.mod_eq_of_lt hn,
        UInt64.ofNat_toNat, Int64.toInt64_toUInt64]
  | case2 n =>
      have hn : n.toNat < 256 ^ 8 := n.toNat_lt
      simp only [kept?, Option.map_some, decode, ofLittleEndian_toLittleEndian, Nat.mod_eq_of_lt hn,
        UInt64.ofNat_toNat]
  | case3 n =>
      have hn : UInt64.ofNat (n.toNat % 256) = n % 256 := by
        apply UInt64.toNat_inj.1
        have hlt := n.toNat_lt
        rw [UInt64.toNat_ofNat', UInt64.toNat_mod]
        change n.toNat % 256 % 2 ^ 64 = n.toNat % 256
        omega
      simp only [kept?, Option.map_some, decode, ofLittleEndian_toLittleEndian, Nat.pow_one, hn]
  | case4 c =>
      simp only [kept?, Option.map_some, decode, ofLittleEndian_toLittleEndian, Nat.pow_one]
  | case5 hint hword hword8 hchar =>
      rw [Option.map_none]
      unfold kept?
      split
      all_goals simp_all

/-- The bytes of an element are those that it was read from. -/
theorem encode?_decode {e : Element} {bytes : List UInt8} (h : bytes.length = e.width) :
    e.encode? (e.decode bytes) = some bytes := by
  have hlt := ofLittleEndian_lt bytes
  have hback := toLittleEndian_ofLittleEndian bytes
  rw [h] at hlt hback
  cases e with
  | int =>
      have hn : (UInt64.ofNat (ofLittleEndian bytes)).toNat = ofLittleEndian bytes :=
        UInt64.toNat_ofNat_of_lt' hlt
      simp only [decode, encode?, UInt64.toUInt64_toInt64, hn]
      exact congrArg some hback
  | word =>
      have hn : (UInt64.ofNat (ofLittleEndian bytes)).toNat = ofLittleEndian bytes :=
        UInt64.toNat_ofNat_of_lt' hlt
      simp only [decode, encode?, hn]
      exact congrArg some hback
  | word8 =>
      have hn : (UInt64.ofNat (ofLittleEndian bytes)).toNat = ofLittleEndian bytes :=
        UInt64.toNat_ofNat_of_lt' (Nat.lt_trans hlt (by decide))
      simp only [decode, encode?, hn]
      exact congrArg some hback
  | char =>
      have hvalid : (ofLittleEndian bytes).isValidChar := .inl (Nat.lt_trans hlt (by decide))
      have hn : (Char.ofNat (ofLittleEndian bytes)).toNat = ofLittleEndian bytes := by
        rw [Char.ofNat, dif_pos hvalid]
        rfl
      simp only [decode, encode?, hn]
      exact congrArg some hback

/-! ## Names -/

/-- The operation that reads an element of a mutable byte array. -/
def readName : Element → String
  | .int => "readIntArray#"
  | .word => "readWordArray#"
  | .word8 => "readWord8Array#"
  | .char => "readCharArray#"

/-- The operation that reads an element of a frozen byte array. -/
def indexName : Element → String
  | .int => "indexIntArray#"
  | .word => "indexWordArray#"
  | .word8 => "indexWord8Array#"
  | .char => "indexCharArray#"

/-- The operation that writes an element. -/
def writeName : Element → String
  | .int => "writeIntArray#"
  | .word => "writeWordArray#"
  | .word8 => "writeWord8Array#"
  | .char => "writeCharArray#"

end PrimOp.Element

open PrimOp

/-- A call that reads an element of a byte array, mutable or frozen. -/
def Call.Fetches (call : Call) (e : Element) (h : Handle) (i : Int64) : Prop :=
  call.Asks e.readName [.byteArray h, .int i, .void] ∨ call.Asks e.indexName [.byteArray h, .int i]

/-- A call that writes an element of a byte array. -/
def Call.Stores (call : Call) (e : Element) (h : Handle) (i : Int64) (value : Atom) : Prop :=
  call.Asks e.writeName [.byteArray h, .int i, value, .void]

/-- The element at an index, if it lies inside. -/
def Bytes.element (b : Bytes) (e : Element) (i : Int64) : Atom :=
  e.decode (slice b.bytes (i.toInt.toNat * e.width) e.width).toList

/-- The bytes with others laid over them. -/
def Bytes.splice (b : Bytes) (start : Nat) (new : List UInt8) : Bytes :=
  { b with bytes := PrimOp.splice b.bytes start new.toArray }

/-! ## Stretches of bytes -/

namespace PrimOp

variable {α : Type}

/-- What is laid over a stretch is found there. -/
theorem slice_splice {ys new : Array α} {start count : Nat} (hcount : new.size = count)
    (h : start + count ≤ ys.size) : slice (splice ys start new) start count = new := by
  have hlen : (ys.toList.take start).length = start := by
    rw [List.length_take, Array.length_toList]
    omega
  rw [← Array.toList_inj, toList_slice, toList_splice, List.append_assoc, List.drop_left' hlen,
    List.take_left' hcount]

theorem getElem?_slice (xs : Array α) (start count k : Nat) :
    (slice xs start count).toList[k]? = if k < count then xs[start + k]? else none := by
  rw [toList_slice, List.getElem?_take, List.getElem?_drop, Array.getElem?_toList]

/-- A stretch that is laid over itself changes nothing. -/
theorem splice_slice_self {xs : Array α} {start count : Nat} (h : start + count ≤ xs.size) :
    splice xs start (slice xs start count) = xs := by
  rw [← Array.toList_inj, toList_splice, toList_slice, size_slice h, List.append_assoc, ← List.drop_drop,
    List.take_append_drop, List.take_append_drop]

end PrimOp

/-- An element that its change leaves as it is leaves the array as it is. -/
theorem PrimOp.modify_eq_self {α : Type} {xs : Array α} {h : Nat} {x : α} {f : α → α} (hx : xs[h]? = some x)
    (hf : f x = x) : xs.modify h f = xs := by
  apply Array.ext_getElem?
  intro k
  rw [Array.getElem?_modify]
  by_cases hk : h = k
  · subst hk
    rw [if_pos rfl, hx, Option.map_some, hf]
  · rw [if_neg hk]

/-! ## The operations -/

section Operations

variable {call : Call} {s t : State} {h : Handle} {b : Bytes} {e : Element} {i : Int64} {value : Atom}
  {encoded : List UInt8} {answer : Answer} {atoms : List Atom}

/-- The check of an index lets through the elements that lie inside. -/
theorem PrimOp.ByteOp.elementStart_eq_ok {size start : Nat} :
    elementStart call size i e.width s = .ok start t ↔
      e.Inside i size ∧ start = i.toInt.toNat * e.width ∧ s = t := by
  constructor
  · intro hok
    obtain ⟨index, u, hindex, hok⟩ := Exec.bind_eq_ok.1 hok
    obtain ⟨hi, rfl, rfl⟩ := Call.index_eq_ok.1 hindex
    split at hok
    · next hle =>
        obtain ⟨rfl, rfl⟩ := Exec.pure_eq_ok.1 hok
        refine ⟨⟨hi, ?_⟩, rfl, rfl⟩
        cases e <;> simp only [Element.width] at hle ⊢ <;> omega
    · exact (Exec.fail_ne_ok.1 hok).elim
  · rintro ⟨hinside, rfl, rfl⟩
    refine Exec.bind_eq_ok.2 ⟨_, s, Call.index_eq_ok.2 ⟨hinside.1, rfl, rfl⟩, ?_⟩
    rw [if_pos hinside.le]
    rfl

theorem PrimOp.ByteOp.fetch_eq_ok (hb : s.spaces.byteArrays[h]? = some b) :
    fetch e call h i s = .ok answer t ↔
      e.Inside i b.bytes.size ∧ answer = some [b.element e i] ∧ s = t := by
  constructor
  · intro hok
    obtain ⟨b', u, hread, hok⟩ := Exec.bind_eq_ok.1 hok
    obtain ⟨hb', rfl⟩ := Exec.readBytes_eq_ok.1 hread
    cases hb.symm.trans hb'
    obtain ⟨start, u, hstart, hok⟩ := Exec.bind_eq_ok.1 hok
    obtain ⟨hinside, rfl, rfl⟩ := elementStart_eq_ok.1 hstart
    obtain ⟨rfl, rfl⟩ := Exec.pure_eq_ok.1 hok
    exact ⟨hinside, rfl, rfl⟩
  · rintro ⟨hinside, rfl, rfl⟩
    refine Exec.bind_eq_ok.2 ⟨b, s, Exec.readBytes_eq_ok.2 ⟨hb, rfl⟩, ?_⟩
    exact Exec.bind_eq_ok.2 ⟨_, s, elementStart_eq_ok.2 ⟨hinside, rfl, rfl⟩, rfl⟩

theorem PrimOp.ByteOp.put_eq_ok (hb : s.spaces.byteArrays[h]? = some b)
    (hencoded : e.encode? value = some encoded) :
    put e call h i value s = .ok answer t ↔
      e.Inside i b.bytes.size ∧ answer = some [] ∧
      t = { s with spaces := { s.spaces with
        byteArrays := s.spaces.byteArrays.modify h (·.splice (i.toInt.toNat * e.width) encoded) } } := by
  constructor
  · intro hok
    obtain ⟨b', u, hread, hok⟩ := Exec.bind_eq_ok.1 hok
    obtain ⟨hb', rfl⟩ := Exec.readBytes_eq_ok.1 hread
    cases hb.symm.trans hb'
    obtain ⟨start, u, hstart, hok⟩ := Exec.bind_eq_ok.1 hok
    obtain ⟨hinside, rfl, rfl⟩ := elementStart_eq_ok.1 hstart
    rw [hencoded] at hok
    obtain ⟨_, u, hmodify, hok⟩ := Exec.bind_eq_ok.1 hok
    rw [Exec.modifyBytes_of_eq hb] at hmodify
    cases hmodify
    obtain ⟨rfl, rfl⟩ := Exec.pure_eq_ok.1 hok
    exact ⟨hinside, rfl, rfl⟩
  · rintro ⟨hinside, rfl, rfl⟩
    refine Exec.bind_eq_ok.2 ⟨b, s, Exec.readBytes_eq_ok.2 ⟨hb, rfl⟩, ?_⟩
    refine Exec.bind_eq_ok.2 ⟨_, s, elementStart_eq_ok.2 ⟨hinside, rfl, rfl⟩, ?_⟩
    rw [hencoded]
    exact Exec.bind_eq_ok.2 ⟨(), _, Exec.modifyBytes_of_eq hb _, rfl⟩

namespace Registry

/-- Fetching an element that lies inside gives it and changes nothing; other calls fail. -/
theorem fetch_eq_ok (hb : s.spaces.byteArrays[h]? = some b) (hcall : call.Fetches e h i) :
    (standard host).evaluate call s = .ok atoms t ↔
      e.Inside i b.bytes.size ∧ atoms = [b.element e i] ∧ s = t := by
  have hrun : (standard host).evaluate call s = .ok atoms t ↔
      ByteOp.fetch e call h i s = .ok (some atoms) t := by
    rcases hcall with hasks | hasks
    · have hlookup : ByteOp.ofName? call.name = some (.read e) := by
        rw [hasks.name]
        cases e <;> rfl
      rw [bytes_evaluate_iff_run hlookup]
      simp only [ByteOp.run, hasks.args]
    · have hlookup : ByteOp.ofName? call.name = some (.index e) := by
        rw [hasks.name]
        cases e <;> rfl
      rw [bytes_evaluate_iff_run hlookup]
      simp only [ByteOp.run, hasks.args]
  rw [hrun, ByteOp.fetch_eq_ok hb, Option.some.injEq]

/-- Storing a value where the element lies inside changes its bytes; other calls fail. -/
theorem store_eq_ok (hb : s.spaces.byteArrays[h]? = some b) (hencoded : e.encode? value = some encoded)
    (hcall : call.Stores e h i value) :
    (standard host).evaluate call s = .ok atoms t ↔
      e.Inside i b.bytes.size ∧ atoms = [] ∧
      t = { s with spaces := { s.spaces with
        byteArrays := s.spaces.byteArrays.modify h (·.splice (i.toInt.toNat * e.width) encoded) } } := by
  have hlookup : ByteOp.ofName? call.name = some (.write e) := by
    rw [hcall.name]
    cases e <;> rfl
  rw [bytes_evaluate_iff_run hlookup]
  simp only [ByteOp.run, hcall.args]
  rw [ByteOp.put_eq_ok hb hencoded, Option.some.injEq]

end Registry

end Operations

/-! ## The views -/

/-- What a store leaves behind. -/
structure Bytes.Stored (host : Host) (s : State) (h : Handle) (b : Bytes) (e : Element) (i : Int64)
    (kept : Atom) (t : State) : Prop where
  /-- Only the bytes of the element change, and the array keeps its size. -/
  bytes : ∃ sp new, t = { s with spaces := sp } ∧ s.spaces.Overwrites sp .byteArray h (.bytes new) ∧
    new.pinned = b.pinned ∧ new.bytes.size = b.bytes.size ∧
    ∀ k : Nat, ¬ (i.toInt * e.width ≤ k ∧ k < i.toInt * e.width + e.width) → new.bytes[k]? = b.bytes[k]?
  /-- What was kept of the value is read back. -/
  back : ∀ call : Call, call.Fetches e h i → (Registry.standard host).evaluate call t = .ok [kept] t

/-- A word and an integer at the same index of a byte array, and how they are made of its bytes. -/
structure Bytes.WordAt (host : Host) (s : State) (h : Handle) (i : Int64) (w : UInt64) (n : Int64) : Prop where
  word : ∀ call : Call, call.Fetches .word h i → (Registry.standard host).evaluate call s = .ok [.word w] s
  int : ∀ call : Call, call.Fetches .int h i → (Registry.standard host).evaluate call s = .ok [.int n] s
  /-- The integer is the two's complement of the word. -/
  complement : n.toInt = if w.toNat < 2 ^ 63 then (w.toNat : Int) else w.toNat - 2 ^ 64
  /-- The word is the sum of the eight bytes at its place, the least significant one first. -/
  sum : ∀ j : Nat → Int64, (∀ k < 8, (j k).toInt = 8 * i.toInt + k) → ∃ digit : Nat → UInt64,
    (∀ k < 8, ∀ call : Call, call.Fetches .word8 h (j k) →
      (Registry.standard host).evaluate call s = .ok [.word (digit k)] s) ∧
    w.toNat = ((List.range 8).map fun k => (digit k).toNat * 256 ^ k).sum

/-- The views of a byte array agree. -/
structure Bytes.Views (host : Host) (s : State) (h : Handle) (b : Bytes) : Prop where
  /-- The element at an index can be read exactly if it lies inside. Both ways to read it give the same
  value and change nothing. -/
  fetch : ∀ (e : Element) (i : Int64), ∃ value, ∀ call : Call, call.Fetches e h i → ∀ atoms t,
    (Registry.standard host).evaluate call s = .ok atoms t ↔
      e.Inside i b.bytes.size ∧ atoms = [value] ∧ t = s
  /-- A value of the right sort can be written exactly if the element lies inside. -/
  store : ∀ (e : Element) (i : Int64) (value kept : Atom), e.kept? value = some kept →
    ∀ call : Call, call.Stores e h i value →
      ((∃ atoms t, (Registry.standard host).evaluate call s = .ok atoms t) ↔ e.Inside i b.bytes.size) ∧
      ∀ atoms t, (Registry.standard host).evaluate call s = .ok atoms t →
        atoms = [] ∧ Stored host s h b e i kept t
  /-- A value that was read and is written back changes nothing. -/
  restore : ∀ (e : Element) (i : Int64) (value : Atom) (fetch store : Call), fetch.Fetches e h i →
    (Registry.standard host).evaluate fetch s = .ok [value] s → store.Stores e h i value →
    (Registry.standard host).evaluate store s = .ok [] s
  /-- Words and integers are made of bytes. -/
  word : ∀ i : Int64, Element.word.Inside i b.bytes.size → ∃ w n, WordAt host s h i w n
  /-- Freezing and thawing give the same array back and change nothing. -/
  identity : ∀ call : Call, call.name = "unsafeFreezeByteArray#" ∨ call.name = "unsafeThawByteArray#" →
    call.args = [.byteArray h, .void] → (Registry.standard host).evaluate call s = .ok [.byteArray h] s

section Views

variable {s t : State} {h : Handle} {b : Bytes} {e : Element} {i : Int64} {value : Atom}
  {encoded : List UInt8}

/-- The bytes that a store leaves, and what is read there. -/
theorem Bytes.Stored.of_splice (hb : s.spaces.byteArrays[h]? = some b) (hinside : e.Inside i b.bytes.size)
    (hencoded : e.encode? value = some encoded) :
    Stored host s h b e i (e.decode encoded) { s with spaces := { s.spaces with
      byteArrays := s.spaces.byteArrays.modify h (·.splice (i.toInt.toNat * e.width) encoded) } } := by
  have hlen : encoded.toArray.size = e.width := Element.length_of_encode? hencoded
  have hle : i.toInt.toNat * e.width + encoded.toArray.size ≤ b.bytes.size := hlen ▸ hinside.le
  constructor
  · refine ⟨_, _, rfl, Spaces.overwrites_bytes hb _, rfl, size_splice _ _ _ hle, fun k hk => ?_⟩
    have hi : i.toInt * e.width = (i.toInt.toNat * e.width : Nat) := by
      rw [Int.natCast_mul, Int.toNat_of_nonneg hinside.1]
    rw [Bytes.splice, getElem?_splice hle, if_neg]
    omega
  · intro call hcall
    have hnew : (s.spaces.byteArrays.modify h (·.splice (i.toInt.toNat * e.width) encoded))[h]? =
        some (b.splice (i.toInt.toNat * e.width) encoded) := by
      rw [Array.getElem?_modify, if_pos rfl, hb]
      rfl
    have hsize : (b.splice (i.toInt.toNat * e.width) encoded).bytes.size = b.bytes.size :=
      size_splice _ _ _ hle
    refine (Registry.fetch_eq_ok hnew hcall).2 ⟨hsize ▸ hinside, ?_, rfl⟩
    rw [Bytes.element, Bytes.splice, slice_splice hlen hinside.le]

/-- Bytes that are written back change nothing. -/
theorem Bytes.splice_slice_self (hinside : e.Inside i b.bytes.size) :
    b.splice (i.toInt.toNat * e.width) (slice b.bytes (i.toInt.toNat * e.width) e.width).toList = b := by
  rw [Bytes.splice, Array.toArray_toList, PrimOp.splice_slice_self hinside.le]

/-- A byte is read as the word of its value. -/
theorem Bytes.element_word8 {j : Int64} (hinside : Element.word8.Inside j b.bytes.size) :
    b.element .word8 j = .word (UInt64.ofNat (b.bytes[j.toInt.toNat]?.getD 0).toNat) := by
  have hlt : j.toInt.toNat < b.bytes.size := by
    have hle := hinside.le
    simp only [Element.width] at hle
    omega
  rw [Bytes.element]
  generalize j.toInt.toNat = p at hlt
  have hbyte : (slice b.bytes (p * 1) 1).toList = [b.bytes[p]?.getD 0] := by
    rw [Nat.mul_one, toList_slice, List.drop_eq_getElem_cons (by simpa using hlt)]
    simp [hlt]
  simp only [Element.width, hbyte, Element.decode, Element.ofLittleEndian, Nat.mul_zero, Nat.add_zero]

/-- The number of a word is the sum of its bytes by their place. -/
theorem Bytes.ofLittleEndian_slice (b : Bytes) (start : Nat) (hle : start + 8 ≤ b.bytes.size) :
    Element.ofLittleEndian (slice b.bytes start 8).toList =
      ((List.range 8).map fun k => (b.bytes[start + k]?.getD 0).toNat * 256 ^ k).sum := by
  have hlen : (slice b.bytes start 8).toList.length = 8 := size_slice hle
  rw [Element.ofLittleEndian_eq_sum, hlen]
  congr 1
  refine List.map_congr_left fun k hk => ?_
  rw [getElem?_slice, if_pos (List.mem_range.1 hk)]

/-- The signed reading of a word is its two's complement. -/
theorem toInt_toInt64 (w : UInt64) :
    w.toInt64.toInt = if w.toNat < 2 ^ 63 then (w.toNat : Int) else w.toNat - 2 ^ 64 := by
  have hcond : w.toInt64.toInt =
      if 2 * w.toNat < 2 ^ 64 then (w.toNat : Int) else w.toNat - (2 ^ 64 : Nat) :=
    BitVec.toInt_eq_toNat_cond w.toBitVec
  rw [hcond]
  split <;> split <;> omega

/-- The word at an index inside, and the integer and the bytes at the same place. -/
theorem Bytes.exists_wordAt (hb : s.spaces.byteArrays[h]? = some b)
    (hinside : Element.word.Inside i b.bytes.size) : ∃ w n, WordAt host s h i w n := by
  have hle : i.toInt.toNat * 8 + 8 ≤ b.bytes.size := hinside.le
  have hlt := Element.ofLittleEndian_lt (slice b.bytes (i.toInt.toNat * 8) 8).toList
  rw [Array.length_toList, size_slice hle] at hlt
  let w := UInt64.ofNat (Element.ofLittleEndian (slice b.bytes (i.toInt.toNat * 8) 8).toList)
  refine ⟨w, w.toInt64, ?_, ?_, toInt_toInt64 w, fun j hj => ?_⟩
  · exact fun call hcall => (Registry.fetch_eq_ok hb hcall).2 ⟨hinside, rfl, rfl⟩
  · exact fun call hcall => (Registry.fetch_eq_ok hb hcall).2 ⟨hinside, rfl, rfl⟩
  · refine ⟨fun k => UInt64.ofNat (b.bytes[i.toInt.toNat * 8 + k]?.getD 0).toNat,
      fun k hk call hcall => ?_, ?_⟩
    · -- The byte lies inside because the word does.
      have hi := hinside.1
      have hjk := hj k hk
      have hindex : (j k).toInt.toNat = i.toInt.toNat * 8 + k := by omega
      have hbyte : Element.word8.Inside (j k) b.bytes.size := by
        simp only [Element.Inside, Element.width]
        omega
      refine (Registry.fetch_eq_ok hb hcall).2 ⟨hbyte, ?_, rfl⟩
      rw [Bytes.element_word8 hbyte, hindex]
    · have hbyte : ∀ k, (UInt64.ofNat (b.bytes[i.toInt.toNat * 8 + k]?.getD 0).toNat).toNat =
          (b.bytes[i.toInt.toNat * 8 + k]?.getD 0).toNat := fun k =>
        UInt64.toNat_ofNat_of_lt' (Nat.lt_trans (UInt8.toNat_lt _) (by decide))
      simp only [hbyte]
      rw [UInt64.toNat_ofNat_of_lt' hlt, b.ofLittleEndian_slice _ hle]

/-- All views of a byte array agree: what is inside, what a store changes, what is read back, and how words
and integers are made of bytes. -/
theorem Registry.views_agree (s : State) (h : Handle) (b : Bytes) (hb : s.spaces.byteArrays[h]? = some b) :
    b.Views host s h where
  fetch e i := by
    refine ⟨b.element e i, fun call hcall atoms t => ?_⟩
    rw [fetch_eq_ok hb hcall, @eq_comm _ s]
  store e i value kept hkept call hcall := by
    rw [Element.kept?_eq] at hkept
    obtain ⟨encoded, hencoded, rfl⟩ := Option.map_eq_some_iff.1 hkept
    simp only [store_eq_ok hb hencoded hcall]
    constructor
    · exact ⟨fun ⟨_, _, hinside, _⟩ => hinside, fun hinside => ⟨_, _, hinside, rfl, rfl⟩⟩
    · rintro atoms t ⟨hinside, rfl, rfl⟩
      exact ⟨rfl, .of_splice hb hinside hencoded⟩
  restore e i value fetch store hfetch hread hstore := by
    obtain ⟨hinside, hvalue, -⟩ := (fetch_eq_ok hb hfetch).1 hread
    obtain rfl := List.singleton_inj.1 hvalue
    have hlen : (slice b.bytes (i.toInt.toNat * e.width) e.width).toList.length = e.width :=
      size_slice hinside.le
    refine (store_eq_ok hb (Element.encode?_decode hlen) hstore).2 ⟨hinside, rfl, ?_⟩
    rw [modify_eq_self hb (Bytes.splice_slice_self hinside)]
  word i hinside := Bytes.exists_wordAt hb hinside
  identity call hname hargs := by
    have hlookup : ByteOp.ofName? call.name = some .identity := by
      rcases hname with hname | hname <;> rw [hname] <;> rfl
    rw [bytes_evaluate_iff_run hlookup]
    simp only [ByteOp.run, hargs]
    exact Exec.bind_eq_ok.2 ⟨b, s, Exec.readBytes_eq_ok.2 ⟨hb, rfl⟩, rfl⟩

/-- A byte array of a word and one byte more. -/
def Registry.nineBytes : State where
  traceLimit := 0
  maxStackDepth := 0
  spaces := { byteArrays := #[⟨#[1, 2, 3, 4, 5, 6, 7, 8, 9], false⟩] }

/-- The last byte is not enough for a second word; a value that is written there is cut off. -/
theorem Registry.views_agree_nineBytes :
    let read : Call := { name := "readWordArray#", args := [.byteArray 0, .int 1, .void] }
    let write : Call := { name := "writeWord8Array#", args := [.byteArray 0, .int 8, .word 300, .void] }
    let index : Call := { name := "indexWord8Array#", args := [.byteArray 0, .int 8] }
    (¬ ∃ atoms t, standard.evaluate read nineBytes = .ok atoms t) ∧
    ∃ t, standard.evaluate write nineBytes = .ok [] t ∧ standard.evaluate index t = .ok [.word 44] t := by
  intro read write index
  have hviews : Bytes.Views .usual nineBytes 0 ⟨#[1, 2, 3, 4, 5, 6, 7, 8, 9], false⟩ :=
    views_agree nineBytes 0 _ rfl
  constructor
  · rintro ⟨atoms, t, hread⟩
    obtain ⟨value, hfetch⟩ := hviews.fetch .word 1
    have hinside := ((hfetch read (.inl ⟨rfl, rfl⟩) atoms t).1 hread).1
    exact absurd hinside (by decide)
  · obtain ⟨hok, hstored⟩ := hviews.store .word8 8 (.word 300) (.word 44) rfl write ⟨rfl, rfl⟩
    obtain ⟨atoms, t, hwrite⟩ := hok.2 (by decide)
    obtain ⟨rfl, hback⟩ := hstored atoms t hwrite
    exact ⟨t, hwrite, hback.back index (.inr ⟨rfl, rfl⟩)⟩

end Views

end Spineless
