import Spineless.Proofs.PrimOp.Footprint

/-!
# Pointers into literals

Signed integers act on the pointers into a literal by moving their offsets: `pointers_move` states the
laws of `plusAddr#`, `minusAddr#` and `eqAddr#`, and that reading at a distance is reading where the
pointer would have moved to.

The four operations check the range of an offset in different places. `StringPtr.moved?` says what the
check amounts to in unbounded integers, and each operation is a function of it; the laws are then
statements about sums of integers.
-/

namespace Spineless

open PrimOp

/-- Where a pointer is after a move by some bytes; its offset stays within the signed integers. -/
def StringPtr.moved? (p : StringPtr) (delta : Int) : Option StringPtr :=
  if 0 ≤ p.offset + delta ∧ p.offset + delta < Bound.int then
    some { p with offset := (p.offset + delta).toNat }
  else none

namespace StringPtr

variable {p q : StringPtr} {d e : Int}

/-- A pointer moves to another one of its literal, at the distance. -/
theorem moved?_eq_some :
    p.moved? d = some q ↔ q.id = p.id ∧ (q.offset : Int) = p.offset + d ∧ q.offset < Bound.int := by
  rw [moved?, Option.ite_none_right_eq_some, Option.some.injEq]
  constructor
  · rintro ⟨⟨hnonneg, hlt⟩, rfl⟩
    exact ⟨rfl, Int.toNat_of_nonneg hnonneg, (Int.toNat_lt hnonneg).2 hlt⟩
  · obtain ⟨id, offset⟩ := q
    rintro ⟨rfl, hoffset, hlt⟩
    dsimp only at hoffset hlt
    rw [← hoffset]
    exact ⟨⟨Int.natCast_nonneg _, by exact_mod_cast hlt⟩, rfl⟩

/-- Moves add up. -/
theorem moved?_moved (h : p.moved? d = some q) : q.moved? e = p.moved? (d + e) := by
  obtain ⟨hid, hoffset, -⟩ := moved?_eq_some.1 h
  simp only [moved?, hid, hoffset, Int.add_assoc]

end StringPtr

/-! ## The operations -/

namespace PrimOp.AddrOp

variable {call : Call} {s : State} {p : StringPtr} {n : Int64}

/-- The move of a pointer, in unbounded integers. -/
theorem move_cases (hp : p.offset < Bound.int) :
    (∃ q, p.moved? n.toInt = some q ∧ move call p n s = .ok q s) ∨
      (p.moved? n.toInt = none ∧ ∃ e, move call p n s = .error e s) := by
  unfold move StringPtr.moved?
  by_cases hrange : 0 ≤ p.offset + n.toInt ∧ p.offset + n.toInt < Bound.int
  · refine .inl ⟨_, if_pos hrange, ?_⟩
    rw [if_pos ⟨hp, hrange⟩]
    rfl
  · refine .inr ⟨if_neg hrange, ?_⟩
    rw [if_neg fun h => hrange h.2]
    exact ⟨_, rfl⟩

/-- The byte at a distance from a pointer is the one where the pointer moves to. -/
theorem byteAt_cases (hp : p.offset < Bound.int) :
    (∃ byte, (p.moved? n.toInt).bind s.strings.byteAt? = some byte ∧ byteAt call p n s = .ok byte s) ∨
      ((p.moved? n.toInt).bind s.strings.byteAt? = none ∧ ∃ e, byteAt call p n s = .error e s) := by
  have hmoves : (∃ q, p.moved? n.toInt = some q ∧ move call p n s = .ok q s) ∨
      (p.moved? n.toInt = none ∧ ∃ e, move call p n s = .error e s) := move_cases hp
  rcases hmoves with ⟨q, hq, hmove⟩ | ⟨hq, e, hmove⟩
  · rw [hq, Option.bind_some, byteAt, Exec.bind_of_ok hmove, Exec.get_bind]
    cases hbyte : s.strings.byteAt? q with
    | none => exact .inr ⟨rfl, _, rfl⟩
    | some byte => exact .inl ⟨byte, rfl, rfl⟩
  · exact .inr ⟨by rw [hq]; rfl, e, Exec.bind_eq_error.2 (.inl hmove)⟩

end PrimOp.AddrOp

namespace Registry

variable {s : State} {p q : StringPtr} {n : Int64}

/-- Calls of an operation with these arguments have this value, or are refused if it is none. -/
def Yields (s : State) (name : String) (args : List Atom) : Option Atom → Prop
  | some value => Gives s name args value
  | none => Refuses s name args

/-- A value is yielded exactly when it is given. -/
theorem Yields.gives_iff {name : String} {args : List Atom} {value? : Option Atom} {value : Atom}
    (h : Yields s name args value?) : Gives s name args value ↔ value? = some value := by
  cases value? with
  | none => exact ⟨fun hgives => (h.not_gives hgives).elim, fun heq => by cases heq⟩
  | some other =>
      rw [Option.some.injEq]
      exact ⟨fun hgives => h.unique hgives, fun heq => heq ▸ h⟩

/-- The pointers are a standard family. -/
theorem addrHandler_mem (host : Host) : addrHandler ∈ standardHandlers host := by simp [standardHandlers]

/-- An operation on pointers yields what its family answers, or nothing if that declines or fails. -/
theorem yields_of_run {name : String} {args : List Atom} {value? : Option Atom} {op : AddrOp}
    (hop : AddrOp.ofName? name = some op)
    (hrun : ∀ type tycon,
      (∃ value, value? = some value ∧ AddrOp.run op ⟨name, args, type, tycon⟩ s = .ok (some [value]) s) ∨
      value? = none ∧ (AddrOp.run op ⟨name, args, type, tycon⟩ s = .ok none s ∨
        ∃ e, AddrOp.run op ⟨name, args, type, tycon⟩ s = .error e s)) :
    Yields s name args value? := by
  have hname := AddrOp.isSome_ofName?_iff.1 (Option.isSome_of_eq_some hop)
  cases value? with
  | none =>
      refine refuses_of_run addrHandler_mem hname hop fun type tycon => ?_
      obtain ⟨value, hvalue, -⟩ | ⟨-, hrefused⟩ := hrun type tycon
      · cases hvalue
      · exact hrefused
  | some value =>
      refine gives_of_run addrHandler_mem hname hop fun type tycon => ?_
      obtain ⟨_, hvalue, hanswer⟩ | ⟨hnone, -⟩ := hrun type tycon
      · cases hvalue
        exact hanswer
      · cases hnone

/-- `plusAddr#` moves a pointer. -/
theorem yields_plus (hp : p.offset < Bound.int) :
    Yields s "plusAddr#" [.str p, .int n] ((p.moved? n.toInt).map .str) := by
  have hop : AddrOp.ofName? "plusAddr#" = some .plus := rfl
  refine yields_of_run hop fun type tycon => ?_
  rcases AddrOp.move_cases hp with ⟨q, hq, hmove⟩ | ⟨hq, e, hmove⟩
  · exact .inl ⟨.str q, by rw [hq, Option.map_some], Exec.bind_of_ok hmove⟩
  · exact .inr ⟨by rw [hq, Option.map_none], .inr ⟨e, Exec.bind_eq_error.2 (.inl hmove)⟩⟩

/-- The reading operations, and how they present a byte. -/
def readers : List (String × (UInt8 → Atom)) := [
  ("indexCharOffAddr#", fun byte => .char (Char.ofNat byte.toNat)),
  ("indexWord8OffAddr#", fun byte => .word byte.toUInt64)]

/-- The reading operations read where a pointer would move to. -/
theorem yields_read (hp : p.offset < Bound.int) {reader : String × (UInt8 → Atom)}
    (hreader : reader ∈ readers) :
    Yields s reader.1 [.str p, .int n]
      (((p.moved? n.toInt).bind s.strings.byteAt?).map reader.2) := by
  simp only [readers, List.mem_cons, List.not_mem_nil, or_false] at hreader
  obtain ⟨op, hop, hrun⟩ : ∃ op, AddrOp.ofName? reader.1 = some op ∧ ∀ type tycon,
      AddrOp.run op ⟨reader.1, [.str p, .int n], type, tycon⟩ =
        AddrOp.byteAt ⟨reader.1, [.str p, .int n], type, tycon⟩ p n >>= fun byte =>
          Exec.answer (reader.2 byte) := by
    rcases hreader with rfl | rfl
    · exact ⟨.indexChar, rfl, fun _ _ => rfl⟩
    · exact ⟨.indexWord8, rfl, fun _ _ => rfl⟩
  refine yields_of_run hop fun type tycon => ?_
  rw [hrun]
  rcases AddrOp.byteAt_cases hp with ⟨byte, hbyte, hread⟩ | ⟨hbyte, e, hread⟩
  · exact .inl ⟨reader.2 byte, by rw [hbyte, Option.map_some], Exec.bind_of_ok hread⟩
  · exact .inr ⟨by rw [hbyte, Option.map_none], .inr ⟨e, Exec.bind_eq_error.2 (.inl hread)⟩⟩

/-- `minusAddr#` subtracts offsets in one literal. -/
theorem yields_minus : Yields s "minusAddr#" [.str p, .str q]
    (if p.id = q.id then some (.int (Int64.ofNat p.offset - Int64.ofNat q.offset)) else none) := by
  have hop : AddrOp.ofName? "minusAddr#" = some .minus := rfl
  refine yields_of_run hop fun type tycon => ?_
  split
  · next hid => exact .inl ⟨_, rfl, congrFun (if_pos hid) s⟩
  · next hid => exact .inr ⟨rfl, .inl (congrFun (if_neg hid) s)⟩

/-- `eqAddr#` compares literals and offsets. -/
theorem gives_eq : Gives s "eqAddr#" [.str p, .str q] (.ofBool (p == q)) := by
  have hop : AddrOp.ofName? "eqAddr#" = some .eq := rfl
  exact gives_of_run addrHandler_mem (by decide) hop fun _ _ => rfl

/-! ## The laws -/

/-- The laws of moving, comparing and reading at a pointer into a literal. -/
structure OffsetAction (s : State) (bytes : List UInt8) (p : StringPtr) : Prop where
  /-- A pointer moves within its literal, to any offset that is a signed integer and not negative. -/
  plus : ∀ n : Int64, 0 ≤ p.offset + n.toInt ∧ p.offset + n.toInt < Bound.int →
    ∃ q : StringPtr, q.id = p.id ∧ (q.offset : Int) = p.offset + n.toInt ∧
      Gives s "plusAddr#" [.str p, .int n] (.str q)
  plus_refused : ∀ n : Int64, ¬ (0 ≤ p.offset + n.toInt ∧ p.offset + n.toInt < Bound.int) →
    Refuses s "plusAddr#" [.str p, .int n]
  minus_plus : ∀ (n : Int64) (q : StringPtr), Gives s "plusAddr#" [.str p, .int n] (.str q) →
    Gives s "minusAddr#" [.str q, .str p] (.int n)
  plus_minus : ∀ q : StringPtr, q.id = p.id → q.offset < Bound.int → ∃ d : Int64,
    Gives s "minusAddr#" [.str q, .str p] (.int d) ∧ Gives s "plusAddr#" [.str p, .int d] (.str q)
  /-- After a move, the next move and reading are as from the start, by the sum of the distances. -/
  plus_plus : ∀ (n m : Int64) (q : StringPtr), Gives s "plusAddr#" [.str p, .int n] (.str q) →
    -Bound.int ≤ n.toInt + m.toInt ∧ n.toInt + m.toInt < Bound.int →
    ∀ name ∈ ["plusAddr#", "indexCharOffAddr#", "indexWord8OffAddr#"], ∃ value?,
      Yields s name [.str q, .int m] value? ∧ Yields s name [.str p, .int (n + m)] value?
  /-- The byte behind the last one reads as zero. A sequence of bytes in memory is shorter than 2 to the
  63, so that all its positions are offsets. -/
  read : bytes.length < Bound.int →
    ∀ reader ∈ readers, ∀ (n : Int64) (k : Nat), (k : Int) = p.offset + n.toInt → k ≤ bytes.length →
    ∃ byte, Gives s reader.1 [.str p, .int n] (reader.2 byte) ∧
      (k < bytes.length → bytes[k]? = some byte) ∧ (k = bytes.length → byte = 0)
  read_refused : ∀ reader ∈ readers, ∀ n : Int64,
    ¬ (0 ≤ p.offset + n.toInt ∧ p.offset + n.toInt ≤ bytes.length) →
    Refuses s reader.1 [.str p, .int n]
  /-- A comparison answers 1 or 0. -/
  eq : ∀ q : StringPtr, q.offset < Bound.int →
    (Gives s "eqAddr#" [.str p, .str q] (.int 1) ↔ Gives s "minusAddr#" [.str p, .str q] (.int 0)) ∧
    (Gives s "eqAddr#" [.str p, .str q] (.int 1) ∨ Gives s "eqAddr#" [.str p, .str q] (.int 0))

/-- The difference of two offsets is exact. -/
theorem toInt_sub_offsets {a b : Nat} (ha : a < Bound.int) (hb : b < Bound.int) :
    (Int64.ofNat a - Int64.ofNat b).toInt = (a : Int) - b := by
  have ha' : (Int64.ofNat a).toInt = a := Int64.toInt_ofNat_of_lt ha
  have hb' : (Int64.ofNat b).toInt = b := Int64.toInt_ofNat_of_lt hb
  rw [Int64.toInt_sub, ha', hb']
  unfold Bound.int at ha hb
  exact Int.bmod_eq_of_le (by omega) (by omega)

/-- Two pointers are the same exactly if they have a difference and it is zero. -/
theorem eq_iff_sub_offsets (hp : p.offset < Bound.int) (hq : q.offset < Bound.int) :
    p = q ↔ p.id = q.id ∧ Int64.ofNat p.offset - Int64.ofNat q.offset = 0 := by
  constructor
  · rintro rfl
    exact ⟨rfl, Int64.sub_self _⟩
  · rintro ⟨hid, hzero⟩
    have hdiff := toInt_sub_offsets hp hq
    rw [hzero, Int64.toInt_zero] at hdiff
    have hoffset : p.offset = q.offset := by omega
    cases p
    cases q
    cases hid
    cases hoffset
    rfl

/-- A sum that does not overflow is exact. -/
theorem toInt_add_exact {n m : Int64}
    (h : -Bound.int ≤ n.toInt + m.toInt ∧ n.toInt + m.toInt < Bound.int) :
    (n + m).toInt = n.toInt + m.toInt := by
  unfold Bound.int at h
  rw [Int64.toInt_add]
  exact Int.bmod_eq_of_le (by omega) (by omega)

/-- What `plusAddr#` gives is where the pointer moves to. -/
theorem gives_plus_iff (hp : p.offset < Bound.int) :
    Gives s "plusAddr#" [.str p, .int n] (.str q) ↔
      q.id = p.id ∧ (q.offset : Int) = p.offset + n.toInt ∧ q.offset < Bound.int := by
  rw [(yields_plus hp).gives_iff, Option.map_eq_some_iff, ← StringPtr.moved?_eq_some]
  constructor
  · rintro ⟨_, hmoved, ⟨⟩⟩
    exact hmoved
  · exact fun hmoved => ⟨q, hmoved, rfl⟩

/-- The byte at a pointer into a literal. -/
theorem byteAt?_eq {bytes : List UInt8} (hliteral : s.strings.resolve? p.id = some bytes) :
    s.strings.byteAt? p = if p.offset = bytes.length then some 0 else bytes[p.offset]? := by
  simp only [StringTable.byteAt?, hliteral]

/-- There is a byte up to the end of a literal. The one behind the last is zero. -/
theorem exists_byteAt? {bytes : List UInt8} (hliteral : s.strings.resolve? p.id = some bytes)
    (hle : p.offset ≤ bytes.length) :
    ∃ byte, s.strings.byteAt? p = some byte ∧ (p.offset < bytes.length → bytes[p.offset]? = some byte) ∧
      (p.offset = bytes.length → byte = 0) := by
  rw [byteAt?_eq hliteral]
  rcases Nat.lt_or_eq_of_le hle with hlt | hend
  · exact ⟨bytes[p.offset], by simp [hlt, Nat.ne_of_lt hlt], by simp [hlt], by omega⟩
  · exact ⟨0, if_pos hend, by omega, fun _ => rfl⟩

/-- There is no byte past the end of a literal. -/
theorem byteAt?_eq_none {bytes : List UInt8} (hliteral : s.strings.resolve? p.id = some bytes)
    (hpast : bytes.length < p.offset) : s.strings.byteAt? p = none := by
  rw [byteAt?_eq hliteral, if_neg (Nat.ne_of_gt hpast), List.getElem?_eq_none (Nat.le_of_lt hpast)]

/-- Moving and reading depend on where a pointer moves to, and not on where it stands. -/
theorem exists_yields_of_moved {m k : Int64} (hp : p.offset < Bound.int) (hq : q.offset < Bound.int)
    (hmoved : q.moved? m.toInt = p.moved? k.toInt) {name : String}
    (hname : name ∈ ["plusAddr#", "indexCharOffAddr#", "indexWord8OffAddr#"]) :
    ∃ value?, Yields s name [.str q, .int m] value? ∧ Yields s name [.str p, .int k] value? := by
  have hread : ∀ reader ∈ readers, ∃ value?, Yields s reader.1 [.str q, .int m] value? ∧
      Yields s reader.1 [.str p, .int k] value? :=
    fun reader hreader => ⟨_, yields_read hq hreader, hmoved ▸ yields_read hp hreader⟩
  simp only [readers, List.forall_mem_cons] at hread
  obtain ⟨hchar, hword, -⟩ := hread
  simp only [List.mem_cons, List.not_mem_nil, or_false] at hname
  rcases hname with rfl | rfl | rfl
  · exact ⟨_, yields_plus hq, hmoved ▸ yields_plus hp⟩
  · exact hchar
  · exact hword

/-- Signed integers act on the pointers into a literal, and reading agrees with the action. -/
theorem pointers_move {bytes : List UInt8} (hliteral : s.strings.resolve? p.id = some bytes)
    (hp : p.offset < Bound.int) : OffsetAction s bytes p where
  plus n hn := by
    have hnonneg : (0 : Int) ≤ p.offset + n.toInt := hn.1
    refine ⟨⟨p.id, (p.offset + n.toInt).toNat⟩, rfl, Int.toNat_of_nonneg hnonneg, ?_⟩
    exact (gives_plus_iff hp).2 ⟨rfl, Int.toNat_of_nonneg hnonneg, (Int.toNat_lt hnonneg).2 hn.2⟩
  plus_refused n hn := by
    have hmoved : p.moved? n.toInt = none := if_neg hn
    have hyields := yields_plus (s := s) (n := n) hp
    rwa [hmoved] at hyields
  minus_plus n q hq := by
    obtain ⟨hid, hoffset, hlt⟩ := (gives_plus_iff hp).1 hq
    have hdiff : Int64.ofNat q.offset - Int64.ofNat p.offset = n := by
      apply Int64.toInt_inj.1
      rw [toInt_sub_offsets hlt hp]
      omega
    refine yields_minus.gives_iff.2 ?_
    rw [if_pos hid, hdiff]
  plus_minus q hid hlt := by
    refine ⟨Int64.ofNat q.offset - Int64.ofNat p.offset, yields_minus.gives_iff.2 (if_pos hid), ?_⟩
    refine (gives_plus_iff hp).2 ⟨hid, ?_, hlt⟩
    rw [toInt_sub_offsets hlt hp]
    omega
  plus_plus n m q hq hsum name hname := by
    obtain ⟨hid, hoffset, hlt⟩ := (gives_plus_iff hp).1 hq
    refine exists_yields_of_moved hp hlt ?_ hname
    rw [toInt_add_exact hsum]
    exact StringPtr.moved?_moved (StringPtr.moved?_eq_some.2 ⟨hid, hoffset, hlt⟩)
  read hfits reader hreader n k hk hle := by
    have hmoved : p.moved? n.toInt = some ⟨p.id, k⟩ :=
      StringPtr.moved?_eq_some.2 ⟨rfl, hk, Nat.lt_of_le_of_lt hle hfits⟩
    obtain ⟨byte, hbyte, hbelow, hbehind⟩ := exists_byteAt? (p := ⟨p.id, k⟩) hliteral hle
    refine ⟨byte, (yields_read hp hreader).gives_iff.2 ?_, hbelow, hbehind⟩
    rw [hmoved, Option.bind_some, hbyte, Option.map_some]
  read_refused reader hreader n hn := by
    have hnone : (p.moved? n.toInt).bind s.strings.byteAt? = none := by
      refine Option.bind_eq_none_iff.2 fun q hq => ?_
      obtain ⟨hid, hoffset, -⟩ := StringPtr.moved?_eq_some.1 hq
      exact byteAt?_eq_none (hid ▸ hliteral) (by omega)
    have hyields := yields_read (s := s) (n := n) hp hreader
    rwa [hnone] at hyields
  eq q hq := by
    have hgives := gives_eq (s := s) (p := p) (q := q)
    rw [yields_minus.gives_iff, Option.ite_none_right_eq_some, Option.some.injEq, Atom.int.injEq,
      ← eq_iff_sub_offsets hp hq]
    by_cases hpq : p = q
    · rw [beq_iff_eq.2 hpq] at hgives
      exact ⟨⟨fun _ => hpq, fun _ => hgives⟩, .inl hgives⟩
    · rw [beq_false_of_ne hpq] at hgives
      refine ⟨⟨fun hone => ?_, fun heq => (hpq heq).elim⟩, .inr hgives⟩
      cases hone.unique hgives

/-- A state with one literal of two bytes. -/
def twoByteLiteral : State where
  traceLimit := 0
  maxStackDepth := 0
  strings := ⟨#[[104, 105]]⟩

/-- A pointer to the second byte moves back to the first, and two bytes on it reads the closing zero. -/
theorem pointers_move_back :
    twoByteLiteral.strings.resolve? 0 = some [104, 105] ∧ 1 < Bound.int ∧
    (∃ q : StringPtr, q.id = 0 ∧ (q.offset : Int) = 0 ∧
      Gives twoByteLiteral "plusAddr#" [.str ⟨0, 1⟩, .int (-1)] (.str q)) ∧
    (∃ byte : UInt8, Gives twoByteLiteral "indexWord8OffAddr#" [.str ⟨0, 1⟩, .int 1] (.word byte.toUInt64) ∧
      byte = 0) ∧
    Refuses twoByteLiteral "indexWord8OffAddr#" [.str ⟨0, 1⟩, .int 2] := by
  have hmem : ("indexWord8OffAddr#", fun byte : UInt8 => Atom.word byte.toUInt64) ∈ readers := by
    simp [readers]
  have hmoves : OffsetAction twoByteLiteral [104, 105] ⟨0, 1⟩ := pointers_move rfl (by decide)
  obtain ⟨byte, hgives, -, hbyte⟩ := hmoves.read (by decide) _ hmem 1 2 (by decide) (by decide)
  exact ⟨rfl, by decide, hmoves.plus (-1) (by decide), ⟨byte, hgives, hbyte rfl⟩,
    hmoves.read_refused _ hmem 2 (by decide)⟩

end Registry

end Spineless
