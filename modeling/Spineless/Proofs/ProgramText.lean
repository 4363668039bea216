import Spineless.Program.Decode
import Spineless.Program.Encode
import Spineless.Proofs.Json.Reading
import Spineless.Proofs.Loading

/-!
# Programs read back

The text of a program is read as that program (`Program.parse_render`), if it has no floating-point
literals, its numbers are machine numbers and it is not nested too deep. A text is read as a value
(`Value.parse?_render`), so what remains is that every reader undoes its writer. The readers count down
the levels left, and each undoes its writer wherever the value fits into these levels (`Decode.Reads`).
For the parts without nested expressions that is one lemma each; for expressions, alternatives,
right-hand sides and bindings it is proved at once, by recursion on the program.
-/

namespace Spineless

open Json (Value Content Numeral)

/-! ## Nesting -/

namespace Json.Value

mutual

/-- How deep arrays and objects are nested in a value. -/
def depth : Value → Nat
  | .array items => itemsDepth items + 1
  | .object members => membersDepth members + 1
  | .null | .bool _ | .number _ | .string _ => 0

/-- The depth of the deepest item. -/
def itemsDepth : List Value → Nat
  | [] => 0
  | item :: items => max item.depth (itemsDepth items)

/-- The depth of the deepest member. -/
def membersDepth : List (Content × Value) → Nat
  | [] => 0
  | (_, value) :: members => max value.depth (membersDepth members)

end

variable {levels : Nat}

theorem itemsDepth_le {items : List Value} :
    itemsDepth items ≤ levels ↔ ∀ v ∈ items, v.depth ≤ levels := by
  induction items with
  | nil => simp [itemsDepth]
  | cons item items ih => rw [itemsDepth, Nat.max_le, ih, List.forall_mem_cons]

theorem membersDepth_le {members : List (Content × Value)} :
    membersDepth members ≤ levels ↔ ∀ m ∈ members, m.2.depth ≤ levels := by
  induction members with
  | nil => simp [membersDepth]
  | cons m members ih => rw [membersDepth, Nat.max_le, ih, List.forall_mem_cons]

/-- An array takes one level, and its items fit into the others. -/
theorem levels_array {items : List Value} (h : (array items).depth ≤ levels) :
    ∃ inner, levels = inner + 1 ∧ ∀ v ∈ items, v.depth ≤ inner := by
  rw [Value.depth] at h
  exact ⟨levels - 1, by omega, itemsDepth_le.1 (Nat.le_sub_one_of_lt h)⟩

/-- An object takes one level, and its members fit into the others. -/
theorem levels_ofMembers {members : List (String × Value)} (h : (ofMembers members).depth ≤ levels) :
    ∃ inner, levels = inner + 1 ∧ members.Forall (·.2.depth ≤ inner) := by
  rw [ofMembers, Value.depth] at h
  have hmembers := membersDepth_le.1 (Nat.le_sub_one_of_lt h)
  exact ⟨levels - 1, by omega, List.forall_iff_forall_mem.2 (List.forall_mem_map.1 hmembers)⟩

/-- A choice with a content takes one level, and its content fits into the others. -/
theorem levels_variant {name : String} {content : Value}
    (h : (Encode.variant name content).depth ≤ levels) :
    ∃ inner, levels = inner + 1 ∧ content.depth ≤ inner := by
  obtain ⟨inner, rfl, hcontent⟩ := levels_ofMembers h
  exact ⟨inner, rfl, hcontent⟩

/-- A choice with a record takes two levels, and the fields fit into the others. -/
theorem levels_record {name : String} {members : List (String × Value)}
    (h : (Encode.variant name (.ofMembers members)).depth ≤ levels) :
    ∃ inner, levels = inner + 2 ∧ members.Forall (·.2.depth ≤ inner) := by
  obtain ⟨inner, rfl, hrecord⟩ := levels_variant h
  obtain ⟨inner, rfl, hmembers⟩ := levels_ofMembers hrecord
  exact ⟨inner, rfl, hmembers⟩

end Json.Value

/-! ## What a text can carry -/

/-- Whether a literal is none of the floating-point ones, which are rounded when they are read. -/
def Lit.exact : Lit → Bool
  | .float _ | .double _ => false
  | .int _ | .word _ | .char _ | .nullAddr | .string _ => true

/-- Whether an argument is a variable or an exact literal. -/
def Arg.exact : Arg → Bool
  | .var _ => true
  | .lit l => l.exact

/-- Whether tag and arity are machine numbers. -/
def DataCon.sized (c : DataCon) : Bool := c.tag < Bound.tag && c.arity < Bound.word

/-- Whether the numbers of all constructors are machine numbers. -/
def TyCon.sized (t : TyCon) : Bool := t.dataCons.all DataCon.sized

/-- Whether all numbers are machine numbers. -/
def AltType.sized : AltType → Bool
  | .multiVal count => count < Bound.word
  | .alg t => t.sized
  | .poly | .prim _ => true

/-- Whether a text can carry what an alternative matches. -/
def AltCon.portable : AltCon → Bool
  | .data c => c.sized
  | .lit l => l.exact
  | .default => true

mutual

/-- Whether a text can carry an expression: its literals are exact and its numbers machine numbers. -/
def Expr.portable : Expr → Bool
  | .app _ args => args.all Arg.exact
  | .lit l => l.exact
  | .conApp c args => c.sized && args.all Arg.exact
  | .multiVal args => args.all Arg.exact
  | .opApp _ args _ tycon => args.all Arg.exact && tycon.all TyCon.sized
  | .case scrutinee _ ty alts => scrutinee.portable && ty.sized && Alt.portableAll alts
  | .letIn binding body => binding.portable && body.portable

/-- Whether a text can carry some alternatives. -/
def Alt.portableAll : List Alt → Bool
  | [] => true
  | ⟨con, _, rhs⟩ :: rest => con.portable && rhs.portable && Alt.portableAll rest

/-- Whether a text can carry a right-hand side. -/
def Rhs.portable : Rhs → Bool
  | .closure _ ⟨_, body⟩ => body.portable
  | .con c args => c.sized && args.all Arg.exact

/-- Whether a text can carry some right-hand sides. -/
def Rhs.portableAll : List (Ident × Rhs) → Bool
  | [] => true
  | (_, rhs) :: rest => rhs.portable && Rhs.portableAll rest

/-- Whether a text can carry a binding. -/
def Binding.portable : Binding → Bool
  | .nonRec _ rhs => rhs.portable
  | .group pairs => Rhs.portableAll pairs

end

/-- Whether a text can carry a program: it has no floating-point literals, and its tags, arities and
counts are machine numbers. -/
def Program.portable (p : Program) : Bool := p.bindings.all Binding.portable

/-! ## Scalars -/

/-- The numeral of a machine integer has its value. -/
theorem Json.Numeral.int?_ofInt {n : Int} (hlow : -Bound.int ≤ n) (hhigh : n < Bound.word) :
    (ofInt n).int? = some n := by
  have hplain : ((ofInt n).fraction.isEmpty && (ofInt n).exponent.isNone) = true := rfl
  have hwhole : (ofInt n).whole = n.natAbs := rfl
  rw [int?, if_pos hplain]
  by_cases hneg : n < 0
  · have hsign : (ofInt n).negative = true := decide_eq_true hneg
    rw [if_pos hsign, if_pos ⟨by omega, by omega⟩]
    exact congrArg some (by omega)
  · have hsign : ¬ (ofInt n).negative = true := fun h => hneg (of_decide_eq_true h)
    rw [if_neg hsign, if_pos (by omega)]
    exact congrArg some (by omega)

namespace Decode

theorem intIn_ofInt {low high n : Int} (hlow : low ≤ n) (hhigh : n ≤ high) (hmin : -Bound.int ≤ low)
    (hmax : high < Bound.word) : intIn low high (.ofInt n) = some n := by
  rw [Value.ofInt, intIn, Numeral.int?_ofInt (Int.le_trans hmin hlow) (Int.lt_of_le_of_lt hhigh hmax)]
  simp [Option.filter, hlow, hhigh]

theorem natBelow_ofNat {bound n : Nat} (hn : n < bound) (hbound : bound ≤ Bound.word) :
    natBelow bound (.ofNat n) = some n := by
  rw [natBelow, Value.ofNat, intIn_ofInt (by omega) (by omega) (by decide) (by omega)]
  rfl

theorem char_singleton (c : Char) : char (.ofString (String.singleton c)) = some c := by
  simp [char, string, Value.ofString]

/-! ## Parts of a program -/

/-- A value is read as `a` wherever it fits into the levels left. -/
def Reads {α : Type} (read : Nat → Value → Option α) (v : Value) (a : α) : Prop :=
  ∀ depth, v.depth ≤ depth → read depth v = some a

section Containers

variable {α β : Type} {read : Nat → Value → Option α} {depth : Nat} {xs : List α}

/-- A list is read if its items are. -/
theorem list_array {vs : List Value} (h : List.Forall₂ (Reads read) vs xs)
    (hdepth : (Value.array vs).depth ≤ depth) : list depth read (.array vs) = some xs := by
  obtain ⟨depth, rfl, hvs⟩ := Value.levels_array hdepth
  exact mapM_eq_some.2 (((List.forall₂_and_left _ _).2 ⟨hvs, h⟩).imp fun _ _ hv => hv.2 depth hv.1)

/-- A list is read if each item is read from what it is written as. -/
theorem list_map {write : α → Value} (h : ∀ x ∈ xs, Reads read (write x) x)
    (hdepth : (Value.array (xs.map write)).depth ≤ depth) :
    list depth read (.array (xs.map write)) = some xs :=
  list_array (List.forall₂_map_left_iff.2 (List.forall₂_same.2 h)) hdepth

/-- A choice is read if its content is. -/
theorem Reads.variant {outer : Nat → Value → Option β} {name : String} {content : Value} {a : α}
    (make : α → β) (hcontent : Reads read content a)
    (houter : ∀ depth, outer (depth + 1) (Encode.variant name content) =
      do return make (← read depth content)) :
    Reads outer (Encode.variant name content) (make a) := by
  intro depth hdepth
  obtain ⟨depth, rfl, hinner⟩ := Value.levels_variant hdepth
  rw [houter, hcontent depth hinner]
  rfl

end Containers

theorem reads_ident (x : Ident) : Reads ident (Encode.ident x) x := by
  intro depth hdepth
  obtain ⟨depth, rfl, -⟩ := Value.levels_ofMembers hdepth
  rfl

theorem reads_idents (xs : List Ident) : Reads idents (Encode.idents xs) xs :=
  fun _ hdepth => list_map (fun x _ => reads_ident x) hdepth

theorem reads_byte (b : UInt8) : Reads byte (.ofNat b.toNat) b := by
  intro depth _
  have hb : b.toNat < Bound.byte := b.toNat_lt
  rw [byte, natBelow_ofNat hb (by decide), Option.map_some, UInt8.ofNat_toNat]

variable {fe : FloatEncoding}

theorem reads_lit {l : Lit} (h : l.exact) : Reads lit (Encode.lit fe l) l := by
  cases l with
  | float x | double x => cases h
  | nullAddr => exact fun depth _ => by cases depth <;> rfl
  | int n =>
    have hn : intIn (-Bound.int) (Bound.int - 1) (.ofInt n.toInt) = some n.toInt :=
      intIn_ofInt n.le_toInt (Int.le_sub_one_of_lt n.toInt_lt) (by decide) (by decide)
    have hread : Reads lit (Encode.lit fe (.int n)) (.int (Int64.ofInt n.toInt)) :=
      Reads.variant (fun i => Lit.int (Int64.ofInt i)) (fun _ _ => hn) fun _ => rfl
    rwa [Int64.ofInt_toInt] at hread
  | word n =>
    have hn : natBelow Bound.word (.ofNat n.toNat) = some n.toNat :=
      natBelow_ofNat n.toNat_lt (Nat.le_refl _)
    have hread : Reads lit (Encode.lit fe (.word n)) (.word (UInt64.ofNat n.toNat)) :=
      Reads.variant (fun i => Lit.word (UInt64.ofNat i)) (fun _ _ => hn) fun _ => rfl
    rwa [UInt64.ofNat_toNat] at hread
  | char c => exact Reads.variant Lit.char (fun _ _ => char_singleton c) fun _ => rfl
  | string bytes =>
    have hbytes : Reads (fun depth => list depth byte)
        (.array (bytes.map fun b => .ofNat b.toNat)) bytes :=
      fun _ => list_map fun b _ => reads_byte b
    exact Reads.variant Lit.string hbytes fun _ => rfl

theorem reads_arg {a : Arg} (h : a.exact) : Reads arg (Encode.arg fe a) a := by
  cases a with
  | var x => exact Reads.variant Arg.var (reads_ident x) fun _ => rfl
  | lit l => exact Reads.variant Arg.lit (reads_lit h) fun _ => rfl

theorem reads_args {xs : List Arg} (h : xs.all Arg.exact) : Reads args (Encode.args fe xs) xs :=
  fun _ => list_map fun x hx => reads_arg (List.all_eq_true.1 h x hx)

theorem reads_dataCon {c : DataCon} (h : c.sized) : Reads dataCon (Encode.dataCon c) c := by
  intro depth hdepth
  obtain ⟨depth, rfl, -⟩ := Value.levels_ofMembers hdepth
  simp only [DataCon.sized, Bool.and_eq_true, decide_eq_true_eq] at h
  -- Which members are read for which fields is decided by their names alone, so it computes.
  change (do
    return DataCon.mk (← string (.ofString c.name)) (← natBelow Bound.tag (.ofNat c.tag))
      (← natBelow Bound.word (.ofNat c.arity))) = _
  rw [natBelow_ofNat h.1 (by decide), natBelow_ofNat h.2 (Nat.le_refl _)]
  rfl

theorem reads_tyCon {t : TyCon} (h : t.sized) : Reads tyCon (Encode.tyCon t) t := by
  intro depth hdepth
  obtain ⟨depth, rfl, -, hcons⟩ := Value.levels_ofMembers hdepth
  change (do return TyCon.mk (← string (.ofString t.name)) (← list depth dataCon _)) = _
  rw [list_map (fun c hc => reads_dataCon (List.all_eq_true.1 h c hc)) hcons]
  rfl

theorem optionalTyCon_some {t : Option TyCon} (h : t.all TyCon.sized) {depth : Nat}
    (hdepth : (Encode.optionalTyCon t).depth ≤ depth) :
    optionalTyCon depth (some (Encode.optionalTyCon t)) = some t := by
  cases t with
  | none => rfl
  | some t =>
    change (tyCon depth (Encode.tyCon t)).map some = _
    rw [reads_tyCon h depth hdepth]
    rfl

theorem reads_rep (r : Rep) : Reads rep (Encode.rep r) r :=
  fun _ _ => by cases r <;> rfl

theorem reads_resultType (r : ResultType) : Reads resultType (Encode.resultType r) r := by
  cases r with
  | poly => exact fun depth _ => by cases depth <;> rfl
  | single r => exact Reads.variant ResultType.single (reads_rep r) fun _ => rfl
  | unboxedTuple rs =>
    have hrs : Reads (fun depth => list depth rep) (.array (rs.map Encode.rep)) rs :=
      fun _ => list_map fun r _ => reads_rep r
    exact Reads.variant ResultType.unboxedTuple hrs fun _ => rfl

theorem reads_altType {ty : AltType} (h : ty.sized) : Reads altType (Encode.altType ty) ty := by
  cases ty with
  | poly => exact fun depth _ => by cases depth <;> rfl
  | multiVal n =>
    have hn : natBelow Bound.word (.ofNat n) = some n :=
      natBelow_ofNat (of_decide_eq_true h) (Nat.le_refl _)
    exact Reads.variant AltType.multiVal (fun _ _ => hn) fun _ => rfl
  | prim r => exact Reads.variant AltType.prim (reads_rep r) fun _ => rfl
  | alg t => exact Reads.variant AltType.alg (reads_tyCon h) fun _ => rfl

theorem reads_altCon {con : AltCon} (h : con.portable) : Reads altCon (Encode.altCon fe con) con := by
  cases con with
  | default => exact fun depth _ => by cases depth <;> rfl
  | data c => exact Reads.variant AltCon.data (reads_dataCon h) fun _ => rfl
  | lit l => exact Reads.variant AltCon.lit (reads_lit h) fun _ => rfl

/-! ## Expressions -/

/-- An alternative. -/
def alternative : Nat → Value → Option Alt
  | depth + 1, v =>
    match fields ["con", "binders", "rhs"] v with
    | some [con, binders, rhs] => do
      return ⟨← altCon depth con, ← idents depth binders, ← expr depth rhs⟩
    | _ => none
  | 0, _ => none

/-- The alternatives of a case are a list. -/
theorem alts_array (depth : Nat) (vs : List Value) :
    alts depth (.array vs) = list depth alternative (.array vs) := by
  match depth, vs with
  | 0, _ | 1, [] | 1, _ :: _ | _ + 2, _ => rfl

/-- A member of a recursive group. -/
def groupMember : Nat → Value → Option (Ident × Rhs)
  | depth + 1, v =>
    match v with
    | .array [x, r] => do return (← ident depth x, ← rhs depth r)
    | _ => none
  | 0, _ => none

/-- The members of a recursive group are a list. -/
theorem binding_group (depth : Nat) (vs : List Value) :
    binding (depth + 1) (Encode.variant "Rec" (.array vs)) =
      do return .group (← list depth groupMember (.array vs)) := by
  match depth, vs with
  | 0, _ | 1, [] | 1, _ :: _ | _ + 2, _ => rfl

mutual

/-- An expression is read from what it is written as. -/
theorem reads_expr : ∀ {e : Expr}, e.portable → Reads expr (Encode.expr fe e) e
  | .app callee xs, h => by
    intro depth hdepth
    obtain ⟨depth, rfl, hcallee, hxs⟩ := Value.levels_record hdepth
    rw [Expr.portable] at h
    change (do return Expr.app (← ident depth _) (← args depth _)) = _
    rw [reads_ident callee depth hcallee, reads_args h depth hxs]
    rfl
  | .lit l, h => by
    rw [Expr.portable] at h
    rw [Encode.expr]
    exact Reads.variant Expr.lit (reads_lit h) fun depth => by cases depth <;> rfl
  | .conApp c xs, h => by
    intro depth hdepth
    obtain ⟨depth, rfl, hc, hxs⟩ := Value.levels_record hdepth
    rw [Expr.portable, Bool.and_eq_true] at h
    change (do return Expr.conApp (← dataCon depth _) (← args depth _)) = _
    rw [reads_dataCon h.1 depth hc, reads_args h.2 depth hxs]
    rfl
  | .multiVal xs, h => by
    intro depth hdepth
    obtain ⟨depth, rfl, hxs⟩ := Value.levels_record hdepth
    rw [Expr.portable] at h
    change (do return Expr.multiVal (← args depth _)) = _
    rw [reads_args h depth hxs]
    rfl
  | .opApp op xs result tycon, h => by
    intro depth hdepth
    obtain ⟨depth, rfl, -, hxs, hresult, htycon⟩ := Value.levels_record hdepth
    rw [Expr.portable, Bool.and_eq_true] at h
    change (do
      return Expr.opApp (← string (.ofString op)) (← args depth _) (← resultType depth _)
        (← optionalTyCon depth (some _))) = _
    rw [reads_args h.1 depth hxs, reads_resultType result depth hresult,
      optionalTyCon_some h.2 htycon]
    rfl
  | .case scrutinee binder ty alternatives, h => by
    intro depth hdepth
    obtain ⟨depth, rfl, hscrutinee, hbinder, hty, halts⟩ := Value.levels_record hdepth
    simp only [Expr.portable, Bool.and_eq_true] at h
    change (do
      return Expr.case (← expr depth _) (← ident depth _) (← altType depth _)
        (← alts depth (.array _))) = _
    rw [reads_expr h.1.1 depth hscrutinee, reads_ident binder depth hbinder,
      reads_altType h.1.2 depth hty, alts_array, list_array (reads_alts h.2) halts]
    rfl
  | .letIn b body, h => by
    intro depth hdepth
    obtain ⟨depth, rfl, hb, hbody⟩ := Value.levels_record hdepth
    rw [Expr.portable, Bool.and_eq_true] at h
    change (do return Expr.letIn (← binding depth _) (← expr depth _)) = _
    rw [reads_binding h.1 depth hb, reads_expr h.2 depth hbody]
    rfl

/-- Alternatives are read from what they are written as. -/
theorem reads_alts : ∀ {xs : List Alt}, Alt.portableAll xs →
    List.Forall₂ (Reads alternative) (Encode.alts fe xs) xs
  | [], _ => .nil
  | ⟨con, binders, e⟩ :: xs, h => by
    simp only [Alt.portableAll, Bool.and_eq_true] at h
    refine .cons ?_ (reads_alts h.2)
    intro depth hdepth
    obtain ⟨depth, rfl, hcon, hbinders, he⟩ := Value.levels_ofMembers hdepth
    change (do return Alt.mk (← altCon depth _) (← idents depth _) (← expr depth _)) = _
    rw [reads_altCon h.1.1 depth hcon, reads_idents binders depth hbinders,
      reads_expr h.1.2 depth he]
    rfl

/-- A right-hand side is read from what it is written as. -/
theorem reads_rhs : ∀ {r : Rhs}, r.portable → Reads rhs (Encode.rhs fe r) r
  | .closure freeVars ⟨params, body⟩, h => by
    intro depth hdepth
    obtain ⟨depth, rfl, hfree, hlambda⟩ := Value.levels_record hdepth
    obtain ⟨depth, rfl, hparams, hbody⟩ := Value.levels_ofMembers hlambda
    rw [Rhs.portable] at h
    change (do
      return Rhs.closure (← idents (depth + 1) _) ⟨← idents depth _, ← expr depth _⟩) = _
    rw [reads_idents freeVars (depth + 1) hfree, reads_idents params depth hparams,
      reads_expr h depth hbody]
    rfl
  | .con c xs, h => by
    intro depth hdepth
    obtain ⟨depth, rfl, hc, hxs⟩ := Value.levels_record hdepth
    -- A constructor is a record, so there is a third level.
    obtain ⟨depth, rfl, -⟩ := Value.levels_ofMembers hc
    rw [Rhs.portable, Bool.and_eq_true] at h
    change (do return Rhs.con (← dataCon (depth + 1) _) (← args (depth + 1) _)) = _
    rw [reads_dataCon h.1 (depth + 1) hc, reads_args h.2 (depth + 1) hxs]
    rfl

/-- The members of a recursive group are read from what they are written as. -/
theorem reads_pairs : ∀ {xs : List (Ident × Rhs)}, Rhs.portableAll xs →
    List.Forall₂ (Reads groupMember) (Encode.pairs fe xs) xs
  | [], _ => .nil
  | (x, r) :: xs, h => by
    simp only [Rhs.portableAll, Bool.and_eq_true] at h
    refine .cons ?_ (reads_pairs h.2)
    intro depth hdepth
    obtain ⟨depth, rfl, hitems⟩ := Value.levels_array hdepth
    simp only [List.forall_mem_cons] at hitems
    change (do return (← ident depth _, ← rhs depth _)) = _
    rw [reads_ident x depth hitems.1, reads_rhs h.1 depth hitems.2.1]
    rfl

/-- A binding is read from what it is written as. -/
theorem reads_binding : ∀ {b : Binding}, b.portable → Reads binding (Encode.binding fe b) b
  | .nonRec x r, h => by
    intro depth hdepth
    obtain ⟨depth, rfl, harray⟩ := Value.levels_variant hdepth
    obtain ⟨depth, rfl, hitems⟩ := Value.levels_array harray
    simp only [List.forall_mem_cons] at hitems
    -- A variable is a record, so there is a third level.
    obtain ⟨depth, rfl, -⟩ := Value.levels_ofMembers hitems.1
    rw [Binding.portable] at h
    change (do return Binding.nonRec (← ident (depth + 1) _) (← rhs (depth + 1) _)) = _
    rw [reads_ident x (depth + 1) hitems.1, reads_rhs h (depth + 1) hitems.2.1]
    rfl
  | .group xs, h => by
    rw [Binding.portable] at h
    rw [Encode.binding]
    exact Reads.variant Binding.group (fun _ => list_array (reads_pairs h)) fun depth =>
      binding_group depth _

end

/-- A program is read from what it is written as. -/
theorem program_encode {p : Program} (hportable : p.portable) (hdepth : (p.encode fe).depth ≤ maxDepth) :
    program (p.encode fe) = some p := by
  obtain ⟨depth, hmax, hbindings, hentry⟩ := Value.levels_ofMembers hdepth
  obtain rfl : depth = maxDepth - 1 := Nat.eq_sub_of_add_eq hmax.symm
  have hread : ∀ b ∈ p.bindings, Reads binding (Encode.binding fe b) b := fun b hb =>
    reads_binding (List.all_eq_true.1 hportable b hb)
  change (do return Program.mk (← list (maxDepth - 1) binding _) (← ident (maxDepth - 1) _)) = _
  rw [list_map hread hbindings, reads_ident p.entry _ hentry]
  rfl

end Decode

/-! ## Texts of programs -/

namespace Program

theorem definesEntry_iff {p : Program} :
    p.definesEntry ↔ ∃ b ∈ p.bindings, ∃ x ∈ b.binders, x.key = p.entry.key := by
  simp [definesEntry, pairs, Binding.binders, Ident.same]

/-- The text of a program is read as that program, if its entry is bound at top level; otherwise it is
refused, with the key of the entry. -/
theorem parse_render (p : Program) (hportable : p.portable) (hdepth : (p.encode .decimal).depth ≤ 127) :
    ((∃ b ∈ p.bindings, ∃ x ∈ b.binders, x.key = p.entry.key) → parse p.render = .ok p) ∧
      ((∀ b ∈ p.bindings, ∀ x ∈ b.binders, x.key ≠ p.entry.key) →
        parse p.render = .error (.missingEntry p.entry.key)) := by
  have hparse : parse p.render =
      if p.definesEntry then .ok p else .error (.missingEntry p.entry.key) := by
    rw [parse, render, Json.Value.parse?_render, Option.bind_some, Decode.program_encode hportable hdepth]
  constructor
  · intro hbound
    rw [hparse, if_pos (definesEntry_iff.2 hbound)]
  · intro hunbound
    have hentry : ¬ p.definesEntry := by
      rw [definesEntry_iff]
      rintro ⟨b, hb, x, hx, hkey⟩
      exact hunbound b hb x hx hkey
    rw [hparse, if_neg hentry]

/-- An expression as the scrutinee of a scrutinee, and so on. -/
def scrutinised (e : Expr) : Nat → Expr
  | 0 => e
  | n + 1 => .case (scrutinised e n) ⟨"wild", "wild_" ++ toString n⟩ .poly []

/-- A program at the ends of all ranges and as deep as a text may be. -/
def extreme : Program where
  bindings := [
    .group [],
    .group [
      (⟨"a \"quoted\" \\ name\n", "box_1"⟩,
        .con ⟨"Box", 4294967295, 18446744073709551615⟩ [
          .lit (.int Int64.minValue), .lit (.word 18446744073709551615), .lit (.char '\x00'),
          .lit (.char (Char.ofNat 0x10FFFF)), .lit .nullAddr, .lit (.string [0, 34, 92, 255])]),
      (⟨"", "toEnum_2"⟩,
        .closure [⟨"", ""⟩] ⟨[⟨"tag", "tag_3"⟩],
          .opApp "tagToEnum#" [.var ⟨"tag", "tag_3"⟩] (.unboxedTuple [.lifted, .void])
            (some ⟨"Unit", [⟨"()", 0, 0⟩]⟩)⟩)],
    .nonRec ⟨"main", "main_4"⟩ (.closure [] ⟨[], scrutinised (.lit (.int Int64.maxValue)) 59⟩)]
  entry := ⟨"main", "main_4"⟩

theorem parse_render_extreme :
    extreme.portable ∧ (extreme.encode .decimal).depth = 127 ∧ parse extreme.render = .ok extreme ∧
      parse (render { extreme with entry := ⟨"main", "main"⟩ }) = .error (.missingEntry "main") := by
  have hportable : extreme.portable := by decide
  have hdepth : (extreme.encode .decimal).depth = 127 := by decide +kernel
  have hle := Nat.le_of_eq hdepth
  refine ⟨hportable, hdepth, ?_, ?_⟩
  · exact (parse_render extreme hportable hle).1 (definesEntry_iff.1 (by decide))
  · exact (parse_render { extreme with entry := ⟨"main", "main"⟩ } hportable hle).2 (by decide)

end Program

end Spineless
