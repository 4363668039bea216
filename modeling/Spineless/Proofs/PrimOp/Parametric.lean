import Spineless.Proofs.Matching
import Spineless.Proofs.PrimOp.Standard

/-!
# Primitive operations of corresponding arguments

A primitive operation that is called with corresponding arguments in corresponding states does the same in
both, and its answers correspond. Nothing is matched on the way but the one constructor that `tagToEnum#`
allocates.

There is one lemma for each family. It goes by cases over the operations and the sorts of their arguments:
corresponding atoms are of the same sort, so what one call declines the other one declines too.
`Registry.matched_standard` puts the families together.
-/

namespace Spineless

open PrimOp

variable {host : Host}

/-- Changing the arrays of one kind leaves those of the other kinds alone. -/
theorem Spaces.arraysOf_modifyArrays (sp : Spaces) (kind other : ArrayKind)
    (f : Array (Array Atom) → Array (Array Atom)) :
    (sp.modifyArrays kind f).arraysOf other =
      if other = kind then f (sp.arraysOf kind) else sp.arraysOf other := by
  cases kind <;> cases other <;> rfl

namespace Matching

variable {M : Matching} {a b : Atom} {reads : String → Prop} {s t : State} {call call' : Call}
  {α β : Type} {V : Matching → α → β → Prop}

/-! ## The sorts of corresponding atoms -/

section Sorts

variable {v : Handle}

@[simp]
theorem atoms_int {n : Int64} : M.Atoms (.int n) b ↔ b = .int n := atoms_plain_iff rfl

@[simp]
theorem atoms_int_right {n : Int64} : M.Atoms a (.int n) ↔ a = .int n := atoms_plain_right_iff rfl

@[simp]
theorem atoms_word {n : UInt64} : M.Atoms (.word n) b ↔ b = .word n := atoms_plain_iff rfl

@[simp]
theorem atoms_word_right {n : UInt64} : M.Atoms a (.word n) ↔ a = .word n := atoms_plain_right_iff rfl

@[simp]
theorem atoms_char {c : Char} : M.Atoms (.char c) b ↔ b = .char c := atoms_plain_iff rfl

@[simp]
theorem atoms_char_right {c : Char} : M.Atoms a (.char c) ↔ a = .char c := atoms_plain_right_iff rfl

@[simp]
theorem atoms_void : M.Atoms .void b ↔ b = .void := atoms_plain_iff rfl

@[simp]
theorem atoms_void_right : M.Atoms a .void ↔ a = .void := atoms_plain_right_iff rfl

@[simp]
theorem atoms_mutVar : M.Atoms (.mutVar v) b ↔ b = .mutVar v := atoms_plain_iff rfl

@[simp]
theorem atoms_mutVar_right : M.Atoms a (.mutVar v) ↔ a = .mutVar v := atoms_plain_right_iff rfl

@[simp]
theorem atoms_mvar : M.Atoms (.mvar v) b ↔ b = .mvar v := atoms_plain_iff rfl

@[simp]
theorem atoms_mvar_right : M.Atoms a (.mvar v) ↔ a = .mvar v := atoms_plain_right_iff rfl

@[simp]
theorem atoms_byteArray : M.Atoms (.byteArray v) b ↔ b = .byteArray v := atoms_plain_iff rfl

@[simp]
theorem atoms_byteArray_right : M.Atoms a (.byteArray v) ↔ a = .byteArray v := atoms_plain_right_iff rfl

@[simp]
theorem atoms_ptr {p : Addr} : M.Atoms (.ptr p) b ↔ M.live p ∧ b = .ptr (M.addr p) := by
  constructor
  · intro h
    cases h with
    | ptr hlive => exact ⟨hlive, rfl⟩
    | plain hplain => cases hplain
  · rintro ⟨hlive, rfl⟩
    exact .ptr hlive

@[simp]
theorem atoms_ptr_right {q : Addr} : M.Atoms a (.ptr q) ↔ ∃ p, a = .ptr p ∧ M.live p ∧ q = M.addr p := by
  constructor
  · intro h
    cases h with
    | ptr hlive => exact ⟨_, rfl, hlive, rfl⟩
    | plain hplain => cases hplain
  · rintro ⟨p, rfl, hlive, rfl⟩
    exact .ptr hlive

@[simp]
theorem atoms_str {p : StringPtr} :
    M.Atoms (.str p) b ↔ ∃ j bytes, M.literal p.id j bytes ∧ b = .str ⟨j, p.offset⟩ := by
  constructor
  · intro h
    cases h with
    | str hliteral offset => exact ⟨_, _, hliteral, rfl⟩
    | plain hplain => cases hplain
  · rintro ⟨j, bytes, hliteral, rfl⟩
    exact .str hliteral p.offset

@[simp]
theorem atoms_str_right {q : StringPtr} :
    M.Atoms a (.str q) ↔ ∃ i bytes, M.literal i q.id bytes ∧ a = .str ⟨i, q.offset⟩ := by
  constructor
  · intro h
    cases h with
    | str hliteral offset => exact ⟨_, _, hliteral, rfl⟩
    | plain hplain => cases hplain
  · rintro ⟨i, bytes, hliteral, rfl⟩
    exact .str hliteral q.offset

@[simp]
theorem atoms_stable : M.Atoms (.stable a) b ↔ ∃ inner, M.Atoms a inner ∧ b = .stable inner := by
  constructor
  · intro h
    cases h with
    | stable hinner => exact ⟨_, hinner, rfl⟩
    | plain hplain => cases hplain
  · rintro ⟨inner, hinner, rfl⟩
    exact .stable hinner

@[simp]
theorem atoms_stable_right : M.Atoms a (.stable b) ↔ ∃ inner, M.Atoms inner b ∧ a = .stable inner := by
  constructor
  · intro h
    cases h with
    | stable hinner => exact ⟨_, hinner, rfl⟩
    | plain hplain => cases hplain
  · rintro ⟨inner, hinner, rfl⟩
    exact .stable hinner

end Sorts

/-! ## Answers and checks -/

/-- Calls of the same operation with corresponding arguments. -/
structure Calls (M : Matching) (call call' : Call) : Prop where
  name : call'.name = call.name
  args : List.Forall₂ M.Atoms call.args call'.args
  resultTyCon : call'.resultTyCon = call.resultTyCon

/-- Corresponding answers. -/
def Answers (M : Matching) : Answer → Answer → Prop := Option.Rel (List.Forall₂ M.Atoms)

namespace States

theorem answer (h : M.States reads s t) (hab : M.Atoms a b) :
    M.Outcomes reads Answers (Exec.answer a s) (Exec.answer b t) :=
  .pure h (.some (.cons hab .nil))

theorem noValues (h : M.States reads s t) : M.Outcomes reads Answers (Exec.noValues s) (Exec.noValues t) :=
  .pure h (.some .nil)

theorem declined (h : M.States reads s t) : M.Outcomes reads Answers (Exec.declined s) (Exec.declined t) :=
  .pure h .none

theorem refuse (h : M.States reads s t) (hname : call'.name = call.name) {m : Misfit}
    (hplain : (Cause.primOpShape call.name m).isPlain = true) :
    M.Outcomes reads V (call.refuse m s) (call'.refuse m t) := by
  unfold Call.refuse
  rw [hname]
  exact h.fail (.plain hplain)

theorem index (h : M.States reads s t) (hname : call'.name = call.name) (n : Int64) :
    M.Outcomes reads Same (call.index n s) (call'.index n t) := by
  unfold Call.index
  split
  · exact h.refuse hname rfl
  · exact .pure h rfl

theorem filled (h : M.States reads s t) (hname : call'.name = call.name) {fits : Nat → Bool} {size : Nat}
    {value : α} {value' : β} {V : Matching → Array α → Array β → Prop}
    (hcopies : V M (.replicate size value) (.replicate size value')) :
    M.Outcomes reads V (call.filled fits value size s) (call'.filled fits value' size t) := by
  unfold Call.filled
  split
  · exact .pure h hcopies
  · exact h.refuse hname rfl

/-- A range, checked against a size. -/
theorem range (h : M.States reads s t) (hname : call'.name = call.name) (size : Nat)
    (offset count : Int64) {outside : Nat → Nat → Misfit}
    (houtside : ∀ start n, (Cause.primOpShape call.name (outside start n)).isPlain = true) :
    M.Outcomes reads Same
      ((do
        let start ← call.index offset
        let n ← call.index count
        if start + n ≤ size then pure (start, n) else call.refuse (outside start n) : Exec (Nat × Nat)) s)
      ((do
        let start ← call'.index offset
        let n ← call'.index count
        if start + n ≤ size then pure (start, n)
        else call'.refuse (outside start n) : Exec (Nat × Nat)) t) := by
  refine (h.index hname offset).bind_same fun _ start _ _ _ h₁ => ?_
  refine (h₁.index hname count).bind_same fun _ n _ _ _ h₂ => ?_
  split
  · exact .pure h₂ rfl
  · exact h₂.refuse hname (houtside start n)

/-! ## Object spaces -/

/-- A new object of a space gets the same handle. -/
theorem create (h : M.States reads s t) (size : Spaces → Nat) {f g : Spaces → Spaces}
    (hsize : size t.spaces = size s.spaces) (hcells : M.Cells (f s.spaces) (g t.spaces)) :
    M.Outcomes reads Same
      ((do let n := size (← get).spaces; Exec.modifySpaces f; pure n : Exec Nat) s)
      ((do let n := size (← get).spaces; Exec.modifySpaces g; pure n : Exec Nat) t) := by
  rw [Exec.get_bind, Exec.get_bind]
  exact (h.modifySpaces hcells).bind_same fun _ _ _ _ _ h' => .pure h' hsize

theorem newMutVar (h : M.States reads s t) (hab : M.Atoms a b) :
    M.Outcomes reads Same (Exec.newMutVar a s) (Exec.newMutVar b t) :=
  h.create (·.mutVars.size) h.cells.mutVars.size_eq
    { h.cells with mutVars := h.cells.mutVars.push hab }

theorem readMutVar (h : M.States reads s t) (v : Handle) :
    M.Outcomes reads Atoms (Exec.readMutVar v s) (Exec.readMutVar v t) :=
  h.orFail (h.cells.mutVars v) (.plain rfl)

theorem writeMutVar (h : M.States reads s t) (v : Handle) (hab : M.Atoms a b) :
    M.Outcomes reads Same (Exec.writeMutVar v a s) (Exec.writeMutVar v b t) :=
  (h.readMutVar v).bind fun _ _ _ _ _ hgrows h' _ =>
    h'.modifySpaces { h'.cells with mutVars := h'.cells.mutVars.setIfInBounds v (hab.mono hgrows) }

theorem newMVar (h : M.States reads s t) : M.Outcomes reads Same (Exec.newMVar s) (Exec.newMVar t) :=
  h.create (·.mvars.size) h.cells.mvars.size_eq { h.cells with mvars := h.cells.mvars.push .none }

theorem readMVar (h : M.States reads s t) (v : Handle) :
    M.Outcomes reads (fun N => Option.Rel N.Atoms) (Exec.readMVar v s) (Exec.readMVar v t) :=
  h.orFail (h.cells.mvars v) (.plain rfl)

theorem writeMVar (h : M.States reads s t) (v : Handle) {x y : Option Atom}
    (hxy : Option.Rel M.Atoms x y) :
    M.Outcomes reads Same (Exec.writeMVar v x s) (Exec.writeMVar v y t) :=
  (h.readMVar v).bind fun _ _ _ _ _ hgrows h' _ =>
    h'.modifySpaces { h'.cells with
      mvars := h'.cells.mvars.setIfInBounds v (rel_mono (fun _ _ hab => hab.mono hgrows) hxy) }

end States

theorem Cells.modifyArrays {p q : Spaces} (h : M.Cells p q) (kind : ArrayKind)
    {f g : Array (Array Atom) → Array (Array Atom)}
    (hnew : Pointwise (Pointwise M.Atoms) (f (p.arraysOf kind)) (g (q.arraysOf kind))) :
    M.Cells (p.modifyArrays kind f) (q.modifyArrays kind g) := by
  have harrays : ∀ other, Pointwise (Pointwise M.Atoms) ((p.modifyArrays kind f).arraysOf other)
      ((q.modifyArrays kind g).arraysOf other) := by
    intro other
    rw [Spaces.arraysOf_modifyArrays, Spaces.arraysOf_modifyArrays]
    split
    · exact hnew
    · exact h.arrays other
  cases kind <;> exact { h with arrays := harrays }

namespace States

theorem newArray (h : M.States reads s t) (kind : ArrayKind) {xs ys : Array Atom}
    (hxs : Pointwise M.Atoms xs ys) :
    M.Outcomes reads Same (Exec.newArray kind xs s) (Exec.newArray kind ys t) :=
  h.create (fun sp => (sp.arraysOf kind).size) (h.cells.arrays kind).size_eq
    (h.cells.modifyArrays kind ((h.cells.arrays kind).push hxs))

theorem readArray (h : M.States reads s t) (kind : ArrayKind) (v : Handle) :
    M.Outcomes reads (fun N => Pointwise N.Atoms) (Exec.readArray kind v s) (Exec.readArray kind v t) :=
  h.orFail (h.cells.arrays kind v) (.plain rfl)

/-- Corresponding changes of an array. -/
theorem modifyArray (h : M.States reads s t) (kind : ArrayKind) (v : Handle)
    {f g : Array Atom → Array Atom}
    (hchange : ∀ N xs ys, M.Grows N → Pointwise N.Atoms xs ys → Pointwise N.Atoms (f xs) (g ys)) :
    M.Outcomes reads Same (Exec.modifyArray kind v f s) (Exec.modifyArray kind v g t) := by
  refine (h.readArray kind v).bind fun N _ _ _ _ hgrows h' _ => h'.modifySpaces ?_
  refine h'.cells.modifyArrays kind ((h'.cells.arrays kind).modify v fun xs ys hxs => ?_)
  exact hchange N xs ys hgrows hxs

theorem newBytes (h : M.States reads s t) (bytes : Array UInt8) (pinned : Bool) :
    M.Outcomes reads Same (Exec.newBytes bytes pinned s) (Exec.newBytes bytes pinned t) := by
  have hbytes := h.cells.byteArrays
  refine h.create (·.byteArrays.size) (by rw [hbytes]) { h.cells with byteArrays := ?_ }
  rw [hbytes]

theorem readBytes (h : M.States reads s t) (v : Handle) :
    M.Outcomes reads Same (Exec.readBytes v s) (Exec.readBytes v t) := by
  refine h.orFail ?_ (.plain rfl)
  rw [h.cells.byteArrays]
  cases s.spaces.byteArrays[v]? with
  | none => exact .none
  | some bytes => exact .some rfl

theorem modifyBytes (h : M.States reads s t) (v : Handle) (f : Array UInt8 → Array UInt8) :
    M.Outcomes reads Same (Exec.modifyBytes v f s) (Exec.modifyBytes v f t) := by
  refine (h.readBytes v).bind fun _ _ _ _ _ _ h' _ => h'.modifySpaces { h'.cells with byteArrays := ?_ }
  rw [h'.cells.byteArrays]

theorem newWeak (h : M.States reads s t) : M.Outcomes reads Same (Exec.newWeak s) (Exec.newWeak t) := by
  have hweak := h.cells.weakPointers
  refine h.create (·.weakPointers) hweak { h.cells with weakPointers := ?_ }
  rw [hweak]

end States

end Matching

/-! ## The families -/

namespace PrimOp

open Matching

variable {M : Matching} {reads : String → Prop} {s t : State} {call call' : Call}

/-! ### Numbers and characters -/

theorem IntOp.matched (h : M.States reads s t) (hcalls : M.Calls call call') (op : IntOp) :
    M.Outcomes reads Answers (op.run call s) (op.run call' t) := by
  have hargs := hcalls.args
  fun_cases IntOp.run op call
  case case27 =>
    -- If the arguments of the second call were of the right sorts, those of the first would be.
    fun_cases IntOp.run op call' with
    | case27 => exact h.declined
    | _ =>
        simp only [*, List.forall₂_cons_right_iff, List.forall₂_nil_right_iff, atoms_int_right,
          exists_and_left, ↓existsAndEq, exists_eq_left, true_and] at hargs
        grind
  all_goals simp only [*, List.forall₂_cons_left_iff, List.forall₂_nil_left_iff, atoms_int,
    exists_and_left, ↓existsAndEq, exists_eq_left, true_and] at hargs
  all_goals unfold IntOp.run
  all_goals simp only [*]
  all_goals first | exact h.answer (.plain rfl) | exact h.refuse hcalls.name rfl

theorem WordOp.matched (h : M.States reads s t) (hcalls : M.Calls call call') (op : WordOp) :
    M.Outcomes reads Answers (op.run call s) (op.run call' t) := by
  have hargs := hcalls.args
  fun_cases WordOp.run op call
  case case22 =>
    fun_cases WordOp.run op call' with
    | case22 => exact h.declined
    | _ =>
        simp only [*, List.forall₂_cons_right_iff, List.forall₂_nil_right_iff, atoms_word_right,
          atoms_int_right, exists_and_left, ↓existsAndEq, exists_eq_left, true_and] at hargs
        grind
  all_goals simp only [*, List.forall₂_cons_left_iff, List.forall₂_nil_left_iff, atoms_word, atoms_int,
    exists_and_left, ↓existsAndEq, exists_eq_left, true_and] at hargs
  all_goals unfold WordOp.run
  all_goals simp only [*]
  all_goals first | exact h.answer (.plain rfl) | exact h.refuse hcalls.name rfl

theorem CharOp.matched (h : M.States reads s t) (hcalls : M.Calls call call') (op : CharOp) :
    M.Outcomes reads Answers (op.run call s) (op.run call' t) := by
  have hargs := hcalls.args
  fun_cases CharOp.run op call
  case case8 =>
    fun_cases CharOp.run op call' with
    | case8 => exact h.declined
    | _ =>
        simp only [*, List.forall₂_cons_right_iff, List.forall₂_nil_right_iff, atoms_char_right,
          exists_and_left, ↓existsAndEq, exists_eq_left, true_and] at hargs
        grind
  all_goals simp only [*, List.forall₂_cons_left_iff, List.forall₂_nil_left_iff, atoms_char,
    exists_and_left, ↓existsAndEq, exists_eq_left, true_and] at hargs
  all_goals unfold CharOp.run
  all_goals simp only [*]
  all_goals exact h.answer (.plain rfl)

/-- The numbers of a precision are plain. -/
theorem FloatOp.matched {F : Type} (p : Precision F)
    (hof : ∀ a b, M.Atoms a b → p.ofAtom? b = p.ofAtom? a)
    (hto : ∀ x, (p.toAtom x).isPlain = true) (hconverted : ∀ x, (p.converted x).isPlain = true)
    (h : M.States reads s t) (hcalls : M.Calls call call') (op : FloatOp) :
    M.Outcomes reads Answers (op.run p call s) (op.run p call' t) := by
  have hargs : call'.args.map p.ofAtom? = call.args.map p.ofAtom? := by
    have hvalues := hcalls.args
    generalize call.args = args at hvalues
    generalize call'.args = args' at hvalues
    induction hvalues with
    | nil => rfl
    | cons hab _ ih => rw [List.map_cons, List.map_cons, hof _ _ hab, ih]
  have hrun : op.run p call' = op.run p call := by
    unfold run
    rw [hargs]
  rw [hrun]
  fun_cases FloatOp.run p op call
  · exact h.answer (.plain rfl)
  · exact h.answer (.plain (hto _))
  · exact h.answer (.plain (hto _))
  · exact h.answer (.plain rfl)
  · exact h.answer (.plain (hconverted _))
  · exact h.declined

/-! ### String pointers -/

theorem AddrOp.matched_move (h : M.States reads s t) (hname : call'.name = call.name)
    (i j offset : Nat) (delta : Int64) :
    M.Outcomes reads (fun _ p q => ∃ o, p = ⟨i, o⟩ ∧ q = ⟨j, o⟩) (move call ⟨i, offset⟩ delta s)
      (move call' ⟨j, offset⟩ delta t) := by
  unfold move
  simp only
  split
  · exact .pure h ⟨_, rfl, rfl⟩
  · exact h.refuse hname rfl

theorem AddrOp.matched_byteAt (h : M.States reads s t) (hname : call'.name = call.name) {i j : Nat}
    {bytes : List UInt8} (hij : M.literal i j bytes) (offset : Nat) (delta : Int64) :
    M.Outcomes reads Same (byteAt call ⟨i, offset⟩ delta s) (byteAt call' ⟨j, offset⟩ delta t) := by
  refine (matched_move h hname i j offset delta).bind fun N p q s' t' hgrows h' hpq => ?_
  obtain ⟨o, rfl, rfl⟩ := hpq
  obtain ⟨hi, hj⟩ := h'.literal i j bytes (hgrows.literal hij)
  -- Both pointers read the same byte, since the literals have the same bytes.
  have hbyte : t'.strings.byteAt? ⟨j, o⟩ = s'.strings.byteAt? ⟨i, o⟩ := by
    simp only [StringTable.byteAt?, hi, hj]
  rw [Exec.get_bind, Exec.get_bind, hbyte]
  cases s'.strings.byteAt? ⟨i, o⟩ with
  | some byte => exact .pure h' rfl
  | none =>
      unfold Call.refuse
      rw [hname]
      exact h'.fail (.byteOutside _ _ (hgrows.literal hij))

theorem AddrOp.isAddress_of_atoms {a b : Atom} (h : M.Atoms a b) : isAddress b = isAddress a := by
  cases h <;> rfl

/-- Addresses are equal exactly if those that they correspond to are. -/
theorem AddrOp.beq_of_atoms (h : M.States reads s t) {a b a' b' : Atom} (ha : M.Atoms a a')
    (hb : M.Atoms b b') (haddress : isAddress a = true) (haddress' : isAddress b = true) :
    (a' == b') = (a == b) := by
  cases ha with
  | ptr | stable => cases haddress
  | str hij offset =>
      cases hb with
      | ptr | stable => cases haddress'
      | @str i' j' _ hij' offset' =>
          change ((⟨_, _⟩ : StringPtr) == ⟨_, _⟩) = ((⟨_, _⟩ : StringPtr) == ⟨_, _⟩)
          rw [Bool.eq_iff_iff, beq_iff_eq, beq_iff_eq, StringPtr.mk.injEq, StringPtr.mk.injEq,
            h.literal_inj hij hij']
      | plain hplain => cases b <;> first | rfl | cases hplain
  | plain hplain =>
      cases hb with
      | ptr | stable => cases haddress'
      | str => cases a <;> first | rfl | cases hplain
      | plain => rfl

theorem AddrOp.matched (h : M.States reads s t) (hcalls : M.Calls call call') (op : AddrOp) :
    M.Outcomes reads Answers (op.run call s) (op.run call' t) := by
  have hargs := hcalls.args
  fun_cases AddrOp.run op call
  case case8 =>
    fun_cases AddrOp.run op call' with
    | case8 => exact h.declined
    | _ =>
        simp only [*, List.forall₂_cons_right_iff, List.forall₂_nil_right_iff, atoms_str_right,
          atoms_int_right, exists_and_left, exists_and_right, ↓existsAndEq, exists_eq_left, true_and,
          and_true] at hargs
        grind
  all_goals simp only [*, List.forall₂_cons_left_iff, List.forall₂_nil_left_iff, atoms_str, atoms_int,
    exists_and_left, exists_and_right, ↓existsAndEq, exists_eq_left, true_and, and_true] at hargs
  case case1 p n _ =>
    obtain ⟨j, ⟨bytes, hij⟩, hargs⟩ := hargs
    simp only [run, hargs]
    refine (matched_move h hcalls.name p.id j p.offset n).bind fun N q q' _ _ hgrows h' hq => ?_
    obtain ⟨o, rfl, rfl⟩ := hq
    exact h'.answer (.str (hgrows.literal hij) o)
  case case2 p q _ hsame =>
    obtain ⟨j, ⟨bytes, hij⟩, j', ⟨bytes', hij'⟩, hargs⟩ := hargs
    simp only [run, hargs, (h.literal_inj hij hij').2 rfl, if_true]
    exact h.answer (.plain rfl)
  case case3 p q _ hother =>
    obtain ⟨j, ⟨bytes, hij⟩, j', ⟨bytes', hij'⟩, hargs⟩ := hargs
    simp only [run, hargs, mt (h.literal_inj hij hij').1 hother, if_false]
    exact h.declined
  case case4 a b _ haddress =>
    obtain ⟨a', ha, b', hb, hargs⟩ := hargs
    obtain ⟨haddress₁, haddress₂⟩ := Bool.and_eq_true_iff.1 haddress
    simp only [run, hargs, isAddress_of_atoms ha, isAddress_of_atoms hb, haddress, if_true,
      beq_of_atoms h ha hb haddress₁ haddress₂]
    exact h.answer (.plain rfl)
  case case5 a b _ haddress =>
    obtain ⟨a', ha, b', hb, hargs⟩ := hargs
    simp only [run, hargs, isAddress_of_atoms ha, isAddress_of_atoms hb, haddress]
    exact h.declined
  case case6 p n _ =>
    obtain ⟨j, ⟨bytes, hij⟩, hargs⟩ := hargs
    simp only [run, hargs]
    exact (matched_byteAt h hcalls.name hij p.offset n).bind_same fun _ _ _ _ _ h' => h'.answer (.plain rfl)
  case case7 p n _ =>
    obtain ⟨j, ⟨bytes, hij⟩, hargs⟩ := hargs
    simp only [run, hargs]
    exact (matched_byteAt h hcalls.name hij p.offset n).bind_same fun _ _ _ _ _ h' => h'.answer (.plain rfl)

/-! ### Variables -/

theorem MutVarOp.matched (h : M.States reads s t) (hcalls : M.Calls call call') (op : MutVarOp) :
    M.Outcomes reads Answers (op.run call s) (op.run call' t) := by
  have hargs := hcalls.args
  fun_cases MutVarOp.run op call
  case case4 =>
    fun_cases MutVarOp.run op call' with
    | case4 => exact h.declined
    | _ =>
        simp only [*, List.forall₂_cons_right_iff, List.forall₂_nil_right_iff, atoms_mutVar_right,
          atoms_void_right, exists_and_left, ↓existsAndEq, exists_eq_left, true_and, and_true] at hargs
        grind
  all_goals simp only [*, List.forall₂_cons_left_iff, List.forall₂_nil_left_iff, atoms_mutVar, atoms_void,
    exists_and_left, ↓existsAndEq, exists_eq_left, true_and, and_true] at hargs
  case case1 value _ =>
    obtain ⟨value', hvalue, hargs⟩ := hargs
    simp only [run, hargs]
    exact (h.newMutVar hvalue).bind_same fun _ _ _ _ _ h' => h'.answer (.plain rfl)
  case case2 v _ =>
    simp only [run, hargs]
    exact (h.readMutVar v).bind fun _ a b _ _ _ h' hab => h'.answer hab
  case case3 v value _ =>
    obtain ⟨value', hvalue, hargs⟩ := hargs
    simp only [run, hargs]
    exact (h.writeMutVar v hvalue).bind_same fun _ _ _ _ _ h' => h'.noValues

theorem MVarOp.matched_block {α β : Type} {V : Matching → α → β → Prop} (h : M.States reads s t)
    (hname : call'.name = call.name) (v : Handle) :
    M.Outcomes reads V (block call v s) (block call' v t) := by
  unfold block
  rw [hname]
  exact h.fail (.plain rfl)

theorem MVarOp.matched (h : M.States reads s t) (hcalls : M.Calls call call') (op : MVarOp) :
    M.Outcomes reads Answers (op.run call s) (op.run call' t) := by
  have hargs := hcalls.args
  have hname := hcalls.name
  fun_cases MVarOp.run op call
  case case9 =>
    fun_cases MVarOp.run op call' with
    | case9 => exact h.declined
    | _ =>
        simp only [*, List.forall₂_cons_right_iff, List.forall₂_nil_right_iff, atoms_mvar_right,
          atoms_void_right, exists_and_left, ↓existsAndEq, exists_eq_left, true_and, and_true] at hargs
        grind
  all_goals simp only [*, List.forall₂_cons_left_iff, List.forall₂_nil_left_iff, atoms_mvar, atoms_void,
    exists_and_left, ↓existsAndEq, exists_eq_left, true_and, and_true] at hargs
  case case1 =>
    simp only [run, hargs]
    exact h.newMVar.bind_same fun _ _ _ _ _ h' => h'.answer (.plain rfl)
  case case2 v _ =>
    simp only [run, hargs]
    refine (h.readMVar v).bind fun _ found found' _ _ _ h' hfound => ?_
    cases hfound with
    | none => exact matched_block h' hname v
    | some hvalue =>
        exact (h'.writeMVar v .none).bind_same fun _ _ _ _ hgrows h'' => h''.answer (hvalue.mono hgrows)
  case case3 v _ =>
    simp only [run, hargs]
    refine (h.readMVar v).bind fun _ found found' _ _ _ h' hfound => ?_
    cases hfound with
    | none => exact matched_block h' hname v
    | some hvalue => exact h'.answer hvalue
  case case4 v value _ =>
    obtain ⟨value', hvalue, hargs⟩ := hargs
    simp only [run, hargs]
    refine (h.readMVar v).bind fun _ found found' _ _ hgrows h' hfound => ?_
    cases hfound with
    | some _ => exact matched_block h' hname v
    | none =>
        exact (h'.writeMVar v (.some (hvalue.mono hgrows))).bind_same fun _ _ _ _ _ h'' => h''.noValues
  case case5 v _ =>
    simp only [run, hargs]
    refine (h.readMVar v).bind fun _ found found' _ _ _ h' hfound => ?_
    cases hfound with
    | none => exact .pure h' (.some (.cons (.plain rfl) (.cons (.plain rfl) .nil)))
    | some hvalue =>
        refine (h'.writeMVar v .none).bind_same fun _ _ _ _ hgrows h'' => ?_
        exact .pure h'' (.some (.cons (.plain rfl) (.cons (hvalue.mono hgrows) .nil)))
  case case6 v _ =>
    simp only [run, hargs]
    refine (h.readMVar v).bind fun _ found found' _ _ _ h' hfound => ?_
    cases hfound with
    | none => exact .pure h' (.some (.cons (.plain rfl) (.cons (.plain rfl) .nil)))
    | some hvalue => exact .pure h' (.some (.cons (.plain rfl) (.cons hvalue .nil)))
  case case7 v value _ =>
    obtain ⟨value', hvalue, hargs⟩ := hargs
    simp only [run, hargs]
    refine (h.readMVar v).bind fun _ found found' _ _ hgrows h' hfound => ?_
    cases hfound with
    | some _ => exact h'.answer (.plain rfl)
    | none =>
        exact (h'.writeMVar v (.some (hvalue.mono hgrows))).bind_same fun _ _ _ _ _ h'' =>
          h''.answer (.plain rfl)
  case case8 v _ =>
    simp only [run, hargs]
    refine (h.readMVar v).bind fun _ found found' _ _ _ h' hfound => ?_
    cases hfound with
    | none => exact h'.answer (.plain rfl)
    | some _ => exact h'.answer (.plain rfl)

/-! ### Tags, threads and stable pointers -/

theorem TagOp.matched (h : M.States reads s t) (hcalls : M.Calls call call') (op : TagOp) :
    M.Outcomes reads Answers (op.run call s) (op.run call' t) := by
  have hargs := hcalls.args
  have htycon := hcalls.resultTyCon
  fun_cases TagOp.run op call
  case case5 =>
    fun_cases TagOp.run op call' with
    | case5 => exact h.declined
    | _ =>
        simp only [*, List.forall₂_cons_right_iff, List.forall₂_nil_right_iff, atoms_ptr_right,
          atoms_int_right, exists_and_left, ↓existsAndEq, exists_eq_left, true_and] at hargs
        grind
  all_goals simp only [*, List.forall₂_cons_left_iff, List.forall₂_nil_left_iff, atoms_ptr, atoms_int,
    exists_and_left, ↓existsAndEq, exists_eq_left, true_and, and_true] at hargs
  case case1 p _ =>
    obtain ⟨hlive, hargs⟩ := hargs
    simp only [run, hargs]
    refine (h.readCon hlive).bind fun _ found found' _ _ _ h' hfound => ?_
    rw [hfound.1]
    exact h'.answer (.plain rfl)
  case case2 =>
    simp only [run, *]
    exact h.refuse hcalls.name rfl
  case case3 =>
    simp only [run, *]
    exact h.refuse hcalls.name rfl
  case case4 con _ =>
    simp only [run, *]
    refine (h.allocate (.con con .nil)).bind fun _ a b _ _ _ h' hab => ?_
    rw [hab.2]
    exact h'.answer (.ptr hab.1)

theorem ConcurrencyOp.matched (h : M.States reads s t) (hcalls : M.Calls call call') (op : ConcurrencyOp) :
    M.Outcomes reads Answers (op.run call s) (op.run call' t) := by
  have hargs := hcalls.args
  fun_cases ConcurrencyOp.run op call
  case case6 =>
    fun_cases ConcurrencyOp.run op call' with
    | case6 => exact h.declined
    | _ =>
        simp only [*, List.forall₂_cons_right_iff, List.forall₂_nil_right_iff, atoms_stable_right,
          atoms_void_right, exists_and_left, ↓existsAndEq, exists_eq_left, true_and, and_true] at hargs
        grind
  all_goals simp only [*, List.forall₂_cons_left_iff, List.forall₂_nil_left_iff, atoms_stable, atoms_void,
    exists_and_left, ↓existsAndEq, exists_eq_left, true_and, and_true] at hargs
  case case1 =>
    simp only [run, hargs, Exec.get_bind, h.thread]
    exact h.answer (.plain rfl)
  case case2 =>
    obtain ⟨_, _, _, _, hargs⟩ := hargs
    simp only [run, hargs]
    exact h.newWeak.bind_same fun _ _ _ _ _ h' => h'.answer (.plain rfl)
  case case3 =>
    simp only [run, hargs]
    exact h.noValues
  case case4 =>
    obtain ⟨value', hvalue, hargs⟩ := hargs
    simp only [run, hargs]
    exact h.answer (.stable hvalue)
  case case5 =>
    obtain ⟨inner, hinner, hargs⟩ := hargs
    simp only [run, hargs]
    exact h.answer hinner

/-! ### Arrays -/

namespace ArrayOp

variable {source target kind : ArrayKind} {v : Handle} {xs ys : Array Atom}

theorem matched_range (h : M.States reads s t) (hname : call'.name = call.name) (size : Nat)
    (offset count : Int64) :
    M.Outcomes reads Same (range call size offset count s) (range call' size offset count t) :=
  h.range hname size offset count fun _ _ => rfl

theorem pointwise_splice (hxs : Pointwise M.Atoms xs ys) (start : Nat) {new new' : Array Atom}
    (hnew : Pointwise M.Atoms new new') : Pointwise M.Atoms (splice xs start new) (splice ys start new') := by
  unfold splice
  rw [hnew.size_eq, hxs.size_eq]
  exact ((hxs.extract _ _).append hnew).append (hxs.extract _ _)

theorem matched_element (h : M.States reads s t) (hname : call'.name = call.name) (i : Int64) :
    M.Outcomes reads Answers (element kind call v i s) (element kind call' v i t) := by
  refine (h.readArray kind v).bind fun _ xs ys _ _ _ h₁ hxs => ?_
  rw [hxs.size_eq]
  refine (matched_range h₁ hname xs.size i 1).bind_same fun _ found _ _ hgrows h₂ => .pure h₂ ?_
  have hslot := hxs found.1
  generalize xs[found.1]? = x at hslot
  generalize ys[found.1]? = y at hslot
  cases hslot with
  | none => exact .none
  | some hab => exact .some (.cons (hab.mono hgrows) .nil)

theorem matched_sizeOf (h : M.States reads s t) :
    M.Outcomes reads Answers (sizeOf kind v s) (sizeOf kind v t) := by
  refine (h.readArray kind v).bind fun _ xs ys _ _ _ h₁ hxs => ?_
  rw [hxs.size_eq]
  exact h₁.answer (.plain rfl)

theorem matched_copyWhole (h : M.States reads s t) :
    M.Outcomes reads Same (copyWhole source target v s) (copyWhole source target v t) :=
  (h.readArray source v).bind fun _ _ _ _ _ _ h₁ hxs => h₁.newArray target hxs

theorem matched_copyRange (h : M.States reads s t) (hname : call'.name = call.name)
    (offset count : Int64) :
    M.Outcomes reads Same (copyRange source target call v offset count s)
      (copyRange source target call' v offset count t) := by
  refine (h.readArray source v).bind fun _ xs ys _ _ _ h₁ hxs => ?_
  rw [hxs.size_eq]
  refine (matched_range h₁ hname xs.size offset count).bind_same fun N found _ _ hgrows h₂ => ?_
  have hxs' : Pointwise N.Atoms xs ys := hxs.mono fun _ _ hab => hab.mono hgrows
  exact h₂.newArray target (hxs'.extract _ _)

theorem matched_copyInto (h : M.States reads s t) (hname : call'.name = call.name) (src dst : Handle)
    (srcOffset dstOffset count : Int64) :
    M.Outcomes reads Answers (copyInto source target call src srcOffset dst dstOffset count s)
      (copyInto source target call' src srcOffset dst dstOffset count t) := by
  refine (h.readArray source src).bind fun _ xs ys _ _ _ h₁ hxs => ?_
  rw [hxs.size_eq]
  refine (matched_range h₁ hname xs.size srcOffset count).bind_same fun _ found _ _ hgrows₂ h₂ => ?_
  refine (h₂.readArray target dst).bind fun _ old old' _ _ hgrows₃ h₃ hold => ?_
  rw [hold.size_eq]
  refine (matched_range h₃ hname old.size dstOffset count).bind_same fun _ place _ _ hgrows₄ h₄ => ?_
  refine (h₄.modifyArray target dst fun O zs zs' hgrows₅ hzs => ?_).bind_same
    fun _ _ _ _ _ h₅ => h₅.noValues
  have hgrows := ((hgrows₂.trans hgrows₃).trans hgrows₄).trans hgrows₅
  have hcopied : Pointwise O.Atoms xs ys := hxs.mono fun _ _ hab => hab.mono hgrows
  exact pointwise_splice hzs place.1 (hcopied.extract _ _)

end ArrayOp

theorem Flavour.frozen?_of_atoms (fl : Flavour) {a b : Atom} (h : M.Atoms a b) :
    fl.frozen? b = fl.frozen? a := by
  cases h <;> cases fl <;> rfl

theorem Flavour.mutable?_of_atoms (fl : Flavour) {a b : Atom} (h : M.Atoms a b) :
    fl.mutable? b = fl.mutable? a := by
  cases h <;> cases fl <;> rfl

theorem Flavour.isPlain_frozen (fl : Flavour) (v : Handle) : (fl.frozen v).isPlain = true := by
  cases fl <;> rfl

theorem Flavour.isPlain_mutable (fl : Flavour) (v : Handle) : (fl.mutable v).isPlain = true := by
  cases fl <;> rfl

theorem ArrayOp.matched (fl : Flavour) (h : M.States reads s t) (hcalls : M.Calls call call')
    (op : ArrayOp) : M.Outcomes reads Answers (op.run host fl call s) (op.run host fl call' t) := by
  have hargs := hcalls.args
  have hname := hcalls.name
  fun_cases ArrayOp.run host fl op call
  case case26 =>
    fun_cases ArrayOp.run host fl op call' with
    | case26 => exact h.declined
    | _ =>
        simp only [*, List.forall₂_cons_right_iff, List.forall₂_nil_right_iff, atoms_int_right,
          atoms_void_right, exists_and_left, ↓existsAndEq, exists_eq_left, true_and, and_true] at hargs
        grind
  all_goals simp only [*, List.forall₂_cons_left_iff, List.forall₂_nil_left_iff, atoms_int, atoms_void,
    exists_and_left, ↓existsAndEq, exists_eq_left, true_and, and_true] at hargs
  case case1 count init _ =>
    obtain ⟨init', hinit, hargs⟩ := hargs
    simp only [run, hargs]
    refine (h.index hname count).bind_same fun _ size _ _ hgrows h₁ => ?_
    have hcopies := Pointwise.replicate size (hinit.mono hgrows)
    refine (h₁.filled (V := fun N => Pointwise N.Atoms) hname hcopies).bind fun _ _ _ _ _ _ h₂ hxs => ?_
    exact (h₂.newArray _ hxs).bind_same fun _ v _ _ _ h₃ => h₃.answer (.plain (fl.isPlain_mutable v))
  case case6 arr i value _ v _ =>
    obtain ⟨arr', harr, value', hvalue, hargs⟩ := hargs
    simp only [run, fl.mutable?_of_atoms harr, *]
    refine (h.readArray _ v).bind fun _ xs ys _ _ hgrows₁ h₁ hxs => ?_
    rw [hxs.size_eq]
    refine (matched_range h₁ hname xs.size i 1).bind_same fun _ slot _ _ hgrows₂ h₂ => ?_
    refine (h₂.modifyArray _ v fun _ _ _ hgrows₃ hold => ?_).bind_same fun _ _ _ _ _ h₃ => h₃.noValues
    exact hold.setIfInBounds slot.1 (hvalue.mono ((hgrows₁.trans hgrows₂).trans hgrows₃))
  case case7 =>
    obtain ⟨_, harr, _, _, hargs⟩ := hargs
    simp only [run, fl.mutable?_of_atoms harr, *]
    exact h.declined
  case case22 | case23 | case24 | case25 =>
    obtain ⟨_, hsrc, _, hdst, hargs⟩ := hargs
    simp only [run, fl.frozen?_of_atoms hsrc, fl.mutable?_of_atoms hsrc, fl.mutable?_of_atoms hdst, *]
    first | exact matched_copyInto h hname _ _ _ _ _ | exact h.declined
  all_goals
    obtain ⟨_, harr, hargs⟩ := hargs
    simp only [run, fl.frozen?_of_atoms harr, fl.mutable?_of_atoms harr, *]
  case case2 | case4 => exact matched_element h hname _
  case case8 | case10 | case12 => exact matched_sizeOf h
  case case14 =>
    exact (matched_copyWhole h).bind_same fun _ v _ _ _ h₁ => h₁.answer (.plain (fl.isPlain_frozen v))
  case case16 =>
    exact (matched_copyWhole h).bind_same fun _ v _ _ _ h₁ => h₁.answer (.plain (fl.isPlain_mutable v))
  case case18 =>
    exact (matched_copyRange h hname _ _).bind_same fun _ v _ _ _ h₁ =>
      h₁.answer (.plain (fl.isPlain_frozen v))
  case case20 =>
    exact (matched_copyRange h hname _ _).bind_same fun _ v _ _ _ h₁ =>
      h₁.answer (.plain (fl.isPlain_mutable v))
  all_goals exact h.declined

/-! ### Byte arrays -/

theorem Element.isPlain_decode (e : Element) (bytes : List UInt8) : (e.decode bytes).isPlain = true := by
  cases e <;> rfl

theorem Element.encode?_of_atoms (e : Element) {a b : Atom} (h : M.Atoms a b) :
    e.encode? b = e.encode? a := by
  cases h <;> cases e <;> rfl

namespace ByteOp

variable {v : Handle}

theorem matched_range (h : M.States reads s t) (hname : call'.name = call.name) (size : Nat)
    (offset count : Int64) :
    M.Outcomes reads Same (range call size offset count s) (range call' size offset count t) :=
  h.range hname size offset count fun _ _ => rfl

theorem matched_elementStart (h : M.States reads s t) (hname : call'.name = call.name) (size : Nat)
    (i : Int64) (width : Nat) :
    M.Outcomes reads Same (elementStart call size i width s) (elementStart call' size i width t) := by
  refine (h.index hname i).bind_same fun _ n _ _ _ h₁ => ?_
  split
  · exact .pure h₁ rfl
  · exact h₁.refuse hname rfl

theorem matched_create (h : M.States reads s t) (hname : call'.name = call.name) (size : Int64)
    (pinned : Bool) :
    M.Outcomes reads Answers (create host call size pinned s) (create host call' size pinned t) := by
  refine (h.index hname size).bind_same fun _ n _ _ _ h₁ => ?_
  refine (h₁.filled (V := Same) hname rfl).bind_same fun _ bytes _ _ _ h₂ => ?_
  exact (h₂.newBytes bytes pinned).bind_same fun _ _ _ _ _ h₃ => h₃.answer (.plain rfl)

theorem matched_sizeOf (h : M.States reads s t) :
    M.Outcomes reads Answers (sizeOf v s) (sizeOf v t) :=
  (h.readBytes v).bind_same fun _ _ _ _ _ h₁ => h₁.answer (.plain rfl)

theorem matched_fetch (h : M.States reads s t) (hname : call'.name = call.name) (e : Element) (i : Int64) :
    M.Outcomes reads Answers (fetch e call v i s) (fetch e call' v i t) := by
  refine (h.readBytes v).bind_same fun _ found _ _ _ h₁ => ?_
  exact (matched_elementStart h₁ hname found.bytes.size i e.width).bind_same fun _ _ _ _ _ h₂ =>
    h₂.answer (.plain (e.isPlain_decode _))

theorem matched_put (h : M.States reads s t) (hname : call'.name = call.name) (e : Element) (i : Int64)
    {a b : Atom} (hab : M.Atoms a b) :
    M.Outcomes reads Answers (put e call v i a s) (put e call' v i b t) := by
  refine (h.readBytes v).bind_same fun _ found _ _ _ h₁ => ?_
  refine (matched_elementStart h₁ hname found.bytes.size i e.width).bind_same fun _ start _ _ _ h₂ => ?_
  rw [e.encode?_of_atoms hab]
  cases e.encode? a with
  | none => exact h₂.declined
  | some encoded => exact (h₂.modifyBytes v _).bind_same fun _ _ _ _ _ h₃ => h₃.noValues

theorem matched_copyInto (h : M.States reads s t) (hname : call'.name = call.name) (src dst : Handle)
    (srcOffset dstOffset count : Int64) :
    M.Outcomes reads Answers (copyInto call src srcOffset dst dstOffset count s)
      (copyInto call' src srcOffset dst dstOffset count t) := by
  refine (h.readBytes src).bind_same fun _ found _ _ _ h₁ => ?_
  refine (matched_range h₁ hname found.bytes.size srcOffset count).bind_same fun _ part _ _ _ h₂ => ?_
  refine (h₂.readBytes dst).bind_same fun _ old _ _ _ h₃ => ?_
  refine (matched_range h₃ hname old.bytes.size dstOffset count).bind_same fun _ place _ _ _ h₄ => ?_
  exact (h₄.modifyBytes dst _).bind_same fun _ _ _ _ _ h₅ => h₅.noValues

theorem matched (h : M.States reads s t) (hcalls : M.Calls call call') (op : ByteOp) :
    M.Outcomes reads Answers (op.run host call s) (op.run host call' t) := by
  have hargs := hcalls.args
  have hname := hcalls.name
  fun_cases ByteOp.run host op call
  case case12 =>
    fun_cases ByteOp.run host op call' with
    | case12 => exact h.declined
    | _ =>
        simp only [*, List.forall₂_cons_right_iff, List.forall₂_nil_right_iff, atoms_byteArray_right,
          atoms_int_right, atoms_void_right, exists_and_left, ↓existsAndEq, exists_eq_left, true_and,
          and_true] at hargs
        grind
  all_goals simp only [*, List.forall₂_cons_left_iff, List.forall₂_nil_left_iff, atoms_byteArray,
    atoms_int, atoms_void, exists_and_left, ↓existsAndEq, exists_eq_left, true_and, and_true] at hargs
  case case2 =>
    obtain ⟨_, _, hargs⟩ := hargs
    simp only [run, hargs]
    exact matched_create h hname _ _
  case case11 =>
    obtain ⟨_, hvalue, hargs⟩ := hargs
    simp only [run, hargs]
    exact matched_put h hname _ _ hvalue
  all_goals simp only [run, hargs]
  case case1 => exact matched_create h hname _ _
  case case3 | case4 => exact matched_sizeOf h
  case case5 v count _ =>
    refine (h.index hname count).bind_same fun _ wanted _ _ _ h₁ => ?_
    refine (h₁.readBytes v).bind_same fun _ found _ _ _ h₂ => ?_
    split
    · exact h₂.refuse hname rfl
    · exact (h₂.modifyBytes v _).bind_same fun _ _ _ _ _ h₃ => h₃.noValues
  case case6 => exact (h.readBytes _).bind_same fun _ _ _ _ _ h₁ => h₁.answer (.plain rfl)
  case case7 => exact (h.readBytes _).bind_same fun _ _ _ _ _ h₁ => h₁.answer (.plain rfl)
  case case8 => exact matched_copyInto h hname _ _ _ _ _
  case case9 | case10 => exact matched_fetch h hname _ _

end ByteOp

end PrimOp

/-! ## The registry -/

section Registry

open Matching

variable {M : Matching} {reads : String → Prop} {s t : State} {call call' : Call}

/-- A handler answers alike if its operations do. -/
theorem Handler.matched_ofNames {Op : Type} {family : String} {names : List String}
    {ofName? : String → Option Op} {run : Op → Call → Exec Answer} (h : M.States reads s t)
    (hcalls : M.Calls call call')
    (hrun : ∀ op, M.Outcomes reads Answers (run op call s) (run op call' t)) :
    M.Outcomes reads Answers ((Handler.ofNames family names ofName? run).evaluate call s)
      ((Handler.ofNames family names ofName? run).evaluate call' t) := by
  have hname : ofName? call'.name = ofName? call.name := congrArg ofName? hcalls.name
  cases hop : ofName? call.name with
  | none =>
      rw [evaluate_ofNames_of_none hop, evaluate_ofNames_of_none (hname.trans hop)]
      exact h.declined
  | some op =>
      rw [evaluate_ofNames_of_some hop, evaluate_ofNames_of_some (hname.trans hop)]
      exact hrun op

/-- The standard families answer alike. -/
theorem PrimOp.matched_of_mem_standardHandlers {handler : Handler} (hmem : handler ∈ standardHandlers host)
    (h : M.States reads s t) (hcalls : M.Calls call call') :
    M.Outcomes reads Answers (handler.evaluate call s) (handler.evaluate call' t) := by
  simp only [standardHandlers, List.mem_cons, List.not_mem_nil, or_false] at hmem
  rcases hmem with rfl | rfl | rfl | rfl | rfl | rfl | rfl | rfl | rfl | rfl | rfl | rfl | rfl
  · refine Handler.matched_ofNames h hcalls
      (FloatOp.matched single (fun a b hab => ?_) (fun _ => rfl) (fun _ => rfl) h hcalls)
    cases hab <;> rfl
  · refine Handler.matched_ofNames h hcalls
      (FloatOp.matched double (fun a b hab => ?_) (fun _ => rfl) (fun _ => rfl) h hcalls)
    cases hab <;> rfl
  · exact Handler.matched_ofNames h hcalls (IntOp.matched h hcalls)
  · exact Handler.matched_ofNames h hcalls (WordOp.matched h hcalls)
  · exact Handler.matched_ofNames h hcalls (CharOp.matched h hcalls)
  · exact Handler.matched_ofNames h hcalls (MutVarOp.matched h hcalls)
  · exact Handler.matched_ofNames h hcalls (MVarOp.matched h hcalls)
  · exact Handler.matched_ofNames h hcalls (ArrayOp.matched _ h hcalls)
  · exact Handler.matched_ofNames h hcalls (ArrayOp.matched _ h hcalls)
  · exact Handler.matched_ofNames h hcalls (ByteOp.matched h hcalls)
  · exact Handler.matched_ofNames h hcalls (AddrOp.matched h hcalls)
  · exact Handler.matched_ofNames h hcalls (TagOp.matched h hcalls)
  · exact Handler.matched_ofNames h hcalls (ConcurrencyOp.matched h hcalls)

/-- A registry whose handlers answer alike gives corresponding values for corresponding calls. -/
theorem Registry.matched_evaluate {r : Registry} (h : M.States reads s t) (hcalls : M.Calls call call')
    (hhandlers : ∀ handler ∈ r.handlers,
      M.Outcomes reads Answers (handler.evaluate call s) (handler.evaluate call' t)) :
    M.Outcomes reads (fun N => List.Forall₂ N.Atoms) (r.evaluate call s) (r.evaluate call' t) := by
  have hanswer : M.Outcomes reads Answers (r.answer call s) (r.answer call' t) := by
    unfold Registry.answer
    rw [hcalls.name]
    cases howner : r.owner? call.name with
    | none => exact h.declined
    | some handler =>
        obtain ⟨i, -, hi⟩ := Option.bind_eq_some_iff.1 howner
        exact hhandlers handler (Array.mem_of_getElem? hi)
  refine hanswer.bind fun N answer answer' s' t' _ h' hanswers => ?_
  cases hanswers with
  | some hvalues => exact .pure h' hvalues
  | none =>
      unfold Registry.unknown
      rw [hcalls.name, hcalls.args.length_eq]
      exact h'.fail (.plain rfl)

/-- The standard registry gives corresponding values for corresponding calls. -/
theorem Registry.matched_standard (h : M.States reads s t) (hcalls : M.Calls call call') :
    M.Outcomes reads (fun N => List.Forall₂ N.Atoms) ((standard host).evaluate call s)
      ((standard host).evaluate call' t) :=
  matched_evaluate h hcalls fun _ hhandler =>
    PrimOp.matched_of_mem_standardHandlers (mem_of_mem_ofHandlers hhandler) h hcalls

end Registry

end Spineless
