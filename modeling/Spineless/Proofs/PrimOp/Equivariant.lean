import Spineless.Proofs.Coupling
import Spineless.Proofs.PrimOp.Standard

/-!
# Primitive operations do not look at names

A primitive operation that is called with renamed arguments in a renamed state does what it does without
the renaming, and its answer is the renamed answer. Two operations come near to looking at a name:
comparing two string pointers, and subtracting them. Both only ask whether two literals are the same.

There is one lemma for each family. It goes by cases over the operations and the sorts of their
arguments; a call that is declined because of the sorts is declined under new names too, since renaming
does not change the sort of an atom. `Registry.related_standard` puts the families together.
-/

namespace Spineless

variable {host : Host}

/-! ## Atoms that are what they are under every name -/

namespace Renaming

variable (ρ : Renaming) {a b : Atom}

/-- Atoms are the same afterwards exactly if they were before. -/
theorem atom_injective : Function.Injective ρ.atom := by
  intro a b h
  induction a generalizing b with
  | stable inner ih =>
      cases b with
      | stable other => rw [ih (Atom.stable.inj h)]
      | _ => cases h
  | _ => cases b <;> simp_all

/-- The numbers of two literals are the same afterwards exactly if they were before. -/
theorem id_stringPtr_inj {p q : StringPtr} :
    (ρ.stringPtr p).id = (ρ.stringPtr q).id ↔ p.id = q.id :=
  ρ.literal.injective.eq_iff

/-- Only the atom itself becomes an atom that the renaming leaves alone. -/
theorem atom_eq_iff (hb : ρ.atom b = b) : ρ.atom a = b ↔ a = b := by
  conv_lhs => rw [← hb]
  exact ρ.atom_injective.eq_iff

section Patterns

variable {h : Handle}

@[simp]
theorem atom_eq_int {n : Int64} : ρ.atom a = .int n ↔ a = .int n := ρ.atom_eq_iff rfl

@[simp]
theorem atom_eq_void : ρ.atom a = .void ↔ a = .void := ρ.atom_eq_iff rfl

@[simp]
theorem atom_eq_mutVar : ρ.atom a = .mutVar h ↔ a = .mutVar h := ρ.atom_eq_iff rfl

@[simp]
theorem atom_eq_mvar : ρ.atom a = .mvar h ↔ a = .mvar h := ρ.atom_eq_iff rfl

@[simp]
theorem atom_eq_byteArray : ρ.atom a = .byteArray h ↔ a = .byteArray h := ρ.atom_eq_iff rfl

@[simp]
theorem atom_eq_ptr {p : Addr} : ρ.atom a = .ptr p ↔ ∃ q, a = .ptr q ∧ ρ.addr q = p := by
  cases a <;> simp

@[simp]
theorem atom_eq_str {p : StringPtr} : ρ.atom a = .str p ↔ ∃ q, a = .str q ∧ ρ.stringPtr q = p := by
  cases a <;> simp

@[simp]
theorem atom_eq_stable : ρ.atom a = .stable b ↔ ∃ inner, a = .stable inner ∧ ρ.atom inner = b := by
  cases a <;> simp

end Patterns

@[simp]
theorem args_call (call : Call) : (ρ.call call).args = call.args.map ρ.atom := rfl

theorem resultTyCon_call (call : Call) : (ρ.call call).resultTyCon = call.resultTyCon := rfl

/-- Arguments of sorts that do not depend on names. -/
theorem args_call_eq_iff {call : Call} {args : List Atom} (h : args.map ρ.atom = args) :
    (ρ.call call).args = args ↔ call.args = args := by
  conv_lhs => rw [← h]
  exact ρ.atom_injective.list_map.eq_iff

/-- An answer under new names. -/
def answer : Answer → Answer := Option.map (List.map ρ.atom)

end Renaming

namespace Coupling

variable {C : Coupling} {live : Bool} {s t : State} {call : Call} {α β : Type}

/-! ## Answers and checks -/

namespace Related

theorem answer (h : C.Related live s t) (a : Atom) :
    C.Outcomes (C.Maps live C.names.answer) (Exec.answer a s) (Exec.answer (C.names.atom a) t) :=
  .ok ⟨h, rfl⟩

/-- The answer of an atom without a name in it. -/
theorem scalar (h : C.Related live s t) {a : Atom} (ha : C.names.atom a = a) :
    C.Outcomes (C.Maps live C.names.answer) (Exec.answer a s) (Exec.answer a t) := by
  have hanswer := h.answer a
  rw [ha] at hanswer
  exact hanswer

theorem noValues (h : C.Related live s t) :
    C.Outcomes (C.Maps live C.names.answer) (Exec.noValues s) (Exec.noValues t) :=
  .ok ⟨h, rfl⟩

theorem declined (h : C.Related live s t) :
    C.Outcomes (C.Maps live C.names.answer) (Exec.declined s) (Exec.declined t) :=
  .ok ⟨h, rfl⟩

theorem refuse {Q : α → State → β → State → Prop} (h : C.Related live s t) (m : Misfit) :
    C.Outcomes Q (call.refuse m s) ((C.names.call call).refuse (C.names.misfit m) t) :=
  .fail h rfl

theorem index (h : C.Related live s t) (n : Int64) :
    C.Outcomes (C.Maps live id) (call.index n s) ((C.names.call call).index n t) := by
  unfold Call.index
  split
  · exact h.refuse _
  · exact .ok ⟨h, rfl⟩

theorem filled (h : C.Related live s t) (fits : Nat → Bool) (φ : α → β) (value : α) (size : Nat) :
    C.Outcomes (C.Maps live (Array.map φ)) (call.filled fits value size s)
      ((C.names.call call).filled fits (φ value) size t) := by
  unfold Call.filled
  split
  · exact .ok ⟨h, Array.map_replicate.symm⟩
  · exact h.refuse _

/-- A range, checked against a size. -/
theorem range (h : C.Related live s t) (size : Nat) (offset count : Int64) {outside : Nat → Nat → Misfit}
    (houtside : ∀ start n, C.names.misfit (outside start n) = outside start n) :
    C.Outcomes (C.Maps live id)
      ((do
        let start ← call.index offset
        let n ← call.index count
        if start + n ≤ size then pure (start, n) else call.refuse (outside start n) : Exec (Nat × Nat)) s)
      ((do
        let start ← (C.names.call call).index offset
        let n ← (C.names.call call).index count
        if start + n ≤ size then pure (start, n)
        else (C.names.call call).refuse (outside start n) : Exec (Nat × Nat)) t) := by
  refine (h.index offset).bind_maps fun start _ _ h₁ => ?_
  refine (h₁.index count).bind_maps fun n _ _ h₂ => ?_
  simp only [id]
  split
  · exact .ok ⟨h₂, rfl⟩
  · exact .fail h₂ (congrArg (Cause.primOpShape call.name) (houtside start n).symm)

/-! ## Object spaces -/

/-- A new object of a space gets the same handle. -/
theorem create (h : C.Related live s t) (size : Spaces → Nat) {f g : Spaces → Spaces}
    (hsize : size (C.names.spaces s.spaces) = size s.spaces)
    (hchange : g (C.names.spaces s.spaces) = C.names.spaces (f s.spaces)) :
    C.Outcomes (C.Maps live id)
      ((do let n := size (← get).spaces; Exec.modifySpaces f; pure n : Exec Nat) s)
      ((do let n := size (← get).spaces; Exec.modifySpaces g; pure n : Exec Nat) t) := by
  rw [Exec.get_bind, Exec.get_bind]
  refine (h.modifySpaces hchange).bind_maps fun _ s' t' h' => .ok ⟨h', ?_⟩
  rw [h.store.spaces, hsize, id]

theorem newMutVar (h : C.Related live s t) (value : Atom) :
    C.Outcomes (C.Maps live id) (Exec.newMutVar value s) (Exec.newMutVar (C.names.atom value) t) :=
  h.create (·.mutVars.size) Array.size_map (by simp [Renaming.spaces])

theorem readMutVar (h : C.Related live s t) (v : Handle) :
    C.Outcomes (C.Maps live C.names.atom) (Exec.readMutVar v s) (Exec.readMutVar v t) :=
  .orFail h (by simp [h.store.spaces, Renaming.spaces]) rfl

theorem writeMutVar (h : C.Related live s t) (v : Handle) (value : Atom) :
    C.Outcomes (C.Maps live id) (Exec.writeMutVar v value s)
      (Exec.writeMutVar v (C.names.atom value) t) :=
  (h.readMutVar v).bind_maps fun _ _ _ h' =>
    h'.modifySpaces (by simp [Renaming.spaces, Array.map_setIfInBounds])

theorem newMVar (h : C.Related live s t) :
    C.Outcomes (C.Maps live id) (Exec.newMVar s) (Exec.newMVar t) :=
  h.create (·.mvars.size) Array.size_map (by simp [Renaming.spaces])

theorem readMVar (h : C.Related live s t) (v : Handle) :
    C.Outcomes (C.Maps live (Option.map C.names.atom)) (Exec.readMVar v s) (Exec.readMVar v t) :=
  .orFail h (by simp [h.store.spaces, Renaming.spaces]) rfl

theorem writeMVar (h : C.Related live s t) (v : Handle) (value : Option Atom) :
    C.Outcomes (C.Maps live id) (Exec.writeMVar v value s)
      (Exec.writeMVar v (value.map C.names.atom) t) :=
  (h.readMVar v).bind_maps fun _ _ _ h' =>
    h'.modifySpaces (by simp [Renaming.spaces, Array.map_setIfInBounds])

theorem newArray (h : C.Related live s t) (kind : ArrayKind) (elements : Array Atom) :
    C.Outcomes (C.Maps live id) (Exec.newArray kind elements s)
      (Exec.newArray kind (elements.map C.names.atom) t) :=
  h.create (fun sp => (sp.arraysOf kind).size) (by simp [Renaming.arraysOf_spaces])
    (Renaming.spaces_modifyArrays _ _ _ (by simp))

theorem readArray (h : C.Related live s t) (kind : ArrayKind) (v : Handle) :
    C.Outcomes (C.Maps live (Array.map C.names.atom)) (Exec.readArray kind v s)
      (Exec.readArray kind v t) :=
  .orFail h (by simp [h.store.spaces, Renaming.arraysOf_spaces]) rfl

/-- Changes of an array that commute with renaming. -/
theorem modifyArray (h : C.Related live s t) (kind : ArrayKind) (v : Handle)
    {f g : Array Atom → Array Atom}
    (hchange : ∀ xs, g (xs.map C.names.atom) = (f xs).map C.names.atom) :
    C.Outcomes (C.Maps live id) (Exec.modifyArray kind v f s) (Exec.modifyArray kind v g t) := by
  refine (h.readArray kind v).bind_maps fun _ s' _ h' => h'.modifySpaces ?_
  refine Renaming.spaces_modifyArrays _ _ _ (Array.ext_getElem? fun i => ?_)
  grind

theorem newBytes (h : C.Related live s t) (bytes : Array UInt8) (pinned : Bool) :
    C.Outcomes (C.Maps live id) (Exec.newBytes bytes pinned s) (Exec.newBytes bytes pinned t) :=
  h.create (·.byteArrays.size) rfl rfl

theorem readBytes (h : C.Related live s t) (v : Handle) :
    C.Outcomes (C.Maps live id) (Exec.readBytes v s) (Exec.readBytes v t) :=
  .orFail h (by simp [h.store.spaces, Renaming.spaces]) rfl

theorem modifyBytes (h : C.Related live s t) (v : Handle) (f : Array UInt8 → Array UInt8) :
    C.Outcomes (C.Maps live id) (Exec.modifyBytes v f s) (Exec.modifyBytes v f t) :=
  (h.readBytes v).bind_maps fun _ _ _ h' => h'.modifySpaces rfl

theorem newWeak (h : C.Related live s t) :
    C.Outcomes (C.Maps live id) (Exec.newWeak s) (Exec.newWeak t) :=
  h.create (·.weakPointers) rfl rfl

end Related

end Coupling

/-! ## The families -/

namespace PrimOp

variable {C : Coupling} {live : Bool} {s t : State} {call : Call}

/-! ### Numbers and characters -/

theorem IntOp.related (h : C.Related live s t) (op : IntOp) :
    C.Outcomes (C.Maps live C.names.answer) (op.run call s) (op.run (C.names.call call) t) := by
  fun_cases IntOp.run op call
  case case27 =>
    -- If the renamed arguments were of the right sorts, the arguments would be.
    fun_cases IntOp.run op (C.names.call call) with
    | case27 => exact h.declined
    | _ =>
        have hargs := (C.names.args_call_eq_iff rfl).1 ‹(C.names.call call).args = _›
        grind
  all_goals unfold IntOp.run
  all_goals simp only [Renaming.args_call, *, List.map_cons, List.map_nil, Renaming.atom]
  all_goals first | exact h.answer _ | exact h.refuse _

theorem WordOp.related (h : C.Related live s t) (op : WordOp) :
    C.Outcomes (C.Maps live C.names.answer) (op.run call s) (op.run (C.names.call call) t) := by
  fun_cases WordOp.run op call
  case case22 =>
    fun_cases WordOp.run op (C.names.call call) with
    | case22 => exact h.declined
    | _ =>
        have hargs := (C.names.args_call_eq_iff rfl).1 ‹(C.names.call call).args = _›
        grind
  all_goals unfold WordOp.run
  all_goals simp only [Renaming.args_call, *, List.map_cons, List.map_nil, Renaming.atom]
  all_goals first | exact h.answer _ | exact h.refuse _

theorem CharOp.related (h : C.Related live s t) (op : CharOp) :
    C.Outcomes (C.Maps live C.names.answer) (op.run call s) (op.run (C.names.call call) t) := by
  fun_cases CharOp.run op call
  case case8 =>
    fun_cases CharOp.run op (C.names.call call) with
    | case8 => exact h.declined
    | _ =>
        have hargs := (C.names.args_call_eq_iff rfl).1 ‹(C.names.call call).args = _›
        grind
  all_goals unfold CharOp.run
  all_goals simp only [Renaming.args_call, *, List.map_cons, List.map_nil, Renaming.atom]
  all_goals exact h.answer _

/-- The numbers of a precision have no names in them. -/
theorem FloatOp.related {F : Type} (p : Precision F)
    (hof : ∀ a, p.ofAtom? (C.names.atom a) = p.ofAtom? a)
    (hto : ∀ x, C.names.atom (p.toAtom x) = p.toAtom x)
    (hconverted : ∀ x, C.names.atom (p.converted x) = p.converted x)
    (h : C.Related live s t) (op : FloatOp) :
    C.Outcomes (C.Maps live C.names.answer) (op.run p call s) (op.run p (C.names.call call) t) := by
  have hargs : (C.names.call call).args.map p.ofAtom? = call.args.map p.ofAtom? := by
    simp [Renaming.call, Function.comp_def, hof]
  have hrun : op.run p (C.names.call call) = op.run p call := by
    unfold run
    rw [hargs]
  rw [hrun]
  fun_cases FloatOp.run p op call
  · exact h.answer _
  · exact h.scalar (hto _)
  · exact h.scalar (hto _)
  · exact h.answer _
  · exact h.scalar (hconverted _)
  · exact h.declined

/-! ### String pointers -/

theorem AddrOp.related_move (h : C.Related live s t) (p : StringPtr) (delta : Int64) :
    C.Outcomes (C.Maps live C.names.stringPtr) (AddrOp.move call p delta s)
      (AddrOp.move (C.names.call call) (C.names.stringPtr p) delta t) := by
  fun_cases AddrOp.move call p delta with
  | case1 target hfits =>
      have hrun : move (C.names.call call) (C.names.stringPtr p) delta = pure _ := if_pos hfits
      rw [hrun]
      exact .ok ⟨h, rfl⟩
  | case2 target hfits =>
      have hrun : move (C.names.call call) (C.names.stringPtr p) delta = Call.refuse _ _ := if_neg hfits
      rw [hrun]
      exact h.refuse _

theorem AddrOp.related_byteAt (h : C.Related live s t) (p : StringPtr) (delta : Int64) :
    C.Outcomes (C.Maps live id) (AddrOp.byteAt call p delta s)
      (AddrOp.byteAt (C.names.call call) (C.names.stringPtr p) delta t) := by
  refine (AddrOp.related_move h p delta).bind_maps fun q s' t' h' => ?_
  rw [Exec.get_bind, Exec.get_bind, Renaming.stringPtr, h'.store.strings.byteAt?]
  cases s'.strings.byteAt? q with
  | none => exact h'.refuse _
  | some byte => exact .ok ⟨h', rfl⟩

theorem AddrOp.isAddress_atom (ρ : Renaming) (a : Atom) : isAddress (ρ.atom a) = isAddress a := by
  cases a <;> rfl

/-- Addresses are equal afterwards exactly if they were before. -/
theorem AddrOp.beq_atom (ρ : Renaming) {a b : Atom} (ha : isAddress a = true) (hb : isAddress b = true) :
    (ρ.atom a == ρ.atom b) = (a == b) := by
  cases a <;> cases ha <;> cases b <;> cases hb
  all_goals first | rfl | skip
  rename_i p q
  change (ρ.stringPtr p == ρ.stringPtr q) = (p == q)
  rw [Bool.eq_iff_iff, beq_iff_eq, beq_iff_eq, ρ.stringPtr_inj]

theorem AddrOp.related (h : C.Related live s t) (op : AddrOp) :
    C.Outcomes (C.Maps live C.names.answer) (op.run call s) (op.run (C.names.call call) t) := by
  fun_cases AddrOp.run op call
  case case8 =>
    fun_cases AddrOp.run op (C.names.call call) with
    | case8 => exact h.declined
    | _ => simp_all [List.map_eq_cons_iff]
  all_goals unfold run
  all_goals simp only [Renaming.args_call, *, List.map_cons, List.map_nil, Renaming.atom,
    isAddress_atom, C.names.id_stringPtr_inj, if_true, if_false]
  case case1 p n _ => exact (related_move h p n).bind_maps fun q _ _ h' => h'.answer (.str q)
  case case2 => exact h.answer _
  case case4 haddress =>
    obtain ⟨ha, hb⟩ := Bool.and_eq_true_iff.1 haddress
    rw [beq_atom C.names ha hb]
    exact h.answer _
  case case3 | case5 => exact h.declined
  case case6 p n _ => exact (related_byteAt h p n).bind_maps fun byte _ _ h' => h'.answer _
  case case7 p n _ => exact (related_byteAt h p n).bind_maps fun byte _ _ h' => h'.answer _

/-! ### Variables -/

theorem MutVarOp.related (h : C.Related live s t) (op : MutVarOp) :
    C.Outcomes (C.Maps live C.names.answer) (op.run call s) (op.run (C.names.call call) t) := by
  fun_cases MutVarOp.run op call
  case case4 =>
    fun_cases MutVarOp.run op (C.names.call call) with
    | case4 => exact h.declined
    | _ => simp_all [List.map_eq_cons_iff]
  all_goals unfold run
  all_goals simp only [Renaming.args_call, *, List.map_cons, List.map_nil, Renaming.atom]
  case case1 value _ => exact (h.newMutVar value).bind_maps fun v _ _ h' => h'.answer (.mutVar v)
  case case2 v _ => exact (h.readMutVar v).bind_maps fun a _ _ h' => h'.answer a
  case case3 v value _ => exact (h.writeMutVar v value).bind_maps fun _ _ _ h' => h'.noValues

theorem MVarOp.related_block {α β : Type} {Q : α → State → β → State → Prop} (h : C.Related live s t)
    (v : Handle) : C.Outcomes Q (block call v s) (block (C.names.call call) v t) :=
  .fail h rfl

theorem MVarOp.related (h : C.Related live s t) (op : MVarOp) :
    C.Outcomes (C.Maps live C.names.answer) (op.run call s) (op.run (C.names.call call) t) := by
  fun_cases MVarOp.run op call
  case case9 =>
    fun_cases MVarOp.run op (C.names.call call) with
    | case9 => exact h.declined
    | _ => simp_all [List.map_eq_cons_iff]
  all_goals unfold run
  all_goals simp only [Renaming.args_call, *, List.map_cons, List.map_nil, Renaming.atom]
  case case1 => exact h.newMVar.bind_maps fun v _ _ h' => h'.answer (.mvar v)
  all_goals
    refine (h.readMVar _).bind_maps fun found s' t' h' => ?_
  all_goals cases found
  case case2.none => exact related_block h' _
  case case2.some value =>
    exact (h'.writeMVar _ none).bind_maps fun _ _ _ h'' => h''.answer value
  case case3.none => exact related_block h' _
  case case3.some value => exact h'.answer value
  case case4.none => exact (h'.writeMVar _ (some _)).bind_maps fun _ _ _ h'' => h''.noValues
  case case4.some value => exact related_block h' _
  case case5.none => exact .ok ⟨h', rfl⟩
  case case5.some value => exact (h'.writeMVar _ none).bind_maps fun _ _ _ h'' => .ok ⟨h'', rfl⟩
  case case6.none => exact .ok ⟨h', rfl⟩
  case case6.some value => exact .ok ⟨h', rfl⟩
  case case7.none => exact (h'.writeMVar _ (some _)).bind_maps fun _ _ _ h'' => h''.answer _
  case case7.some value => exact h'.answer _
  case case8.none => exact h'.answer _
  case case8.some value => exact h'.answer _

/-! ### Tags, threads and stable pointers -/

theorem TagOp.related (h : C.Related live s t) (op : TagOp) :
    C.Outcomes (C.Maps live C.names.answer) (op.run call s) (op.run (C.names.call call) t) := by
  fun_cases TagOp.run op call
  case case5 =>
    fun_cases TagOp.run op (C.names.call call) with
    | case5 => exact h.declined
    | _ => simp_all [List.map_eq_cons_iff]
  all_goals unfold run
  all_goals simp only [Renaming.args_call, Renaming.resultTyCon_call, *, List.map_cons, List.map_nil,
    Renaming.atom]
  case case1 a _ => exact (h.readCon a).bind_maps fun found _ _ h' => h'.answer _
  case case2 | case3 => exact h.refuse _
  case case4 con _ => exact (h.allocate (.con con [])).bind_maps fun a _ _ h' => h'.answer (.ptr a)

theorem ConcurrencyOp.related (h : C.Related live s t) (op : ConcurrencyOp) :
    C.Outcomes (C.Maps live C.names.answer) (op.run call s) (op.run (C.names.call call) t) := by
  fun_cases ConcurrencyOp.run op call
  case case6 =>
    fun_cases ConcurrencyOp.run op (C.names.call call) with
    | case6 => exact h.declined
    | _ => simp_all [List.map_eq_cons_iff]
  all_goals unfold run
  all_goals simp only [Renaming.args_call, *, List.map_cons, List.map_nil, Renaming.atom]
  case case1 =>
    rw [Exec.get_bind, Exec.get_bind, h.store.thread]
    exact h.answer _
  case case2 => exact h.newWeak.bind_maps fun v _ _ h' => h'.answer (.weak v)
  case case3 => exact h.noValues
  case case4 a _ => exact h.answer (.stable a)
  case case5 a _ => exact h.answer a

/-! ### Arrays -/

theorem map_slice {α β : Type} (f : α → β) (xs : Array α) (start count : Nat) :
    (slice xs start count).map f = slice (xs.map f) start count := by
  simp [slice, Array.map_extract]

theorem map_splice {α β : Type} (f : α → β) (xs : Array α) (start : Nat) (new : Array α) :
    (splice xs start new).map f = splice (xs.map f) start (new.map f) := by
  simp [splice, Array.map_extract]

namespace ArrayOp

variable {source target kind : ArrayKind} {v : Handle}

theorem related_range (h : C.Related live s t) (size : Nat) (offset count : Int64) :
    C.Outcomes (C.Maps live id) (range call size offset count s)
      (range (C.names.call call) size offset count t) :=
  h.range size offset count fun _ _ => rfl

theorem related_element (h : C.Related live s t) (i : Int64) :
    C.Outcomes (C.Maps live C.names.answer) (element kind call v i s)
      (element kind (C.names.call call) v i t) := by
  refine (h.readArray kind v).bind_maps fun elements _ _ h₁ => ?_
  rw [Array.size_map]
  refine (related_range h₁ elements.size i 1).bind_maps fun slot _ _ h₂ => .ok ⟨h₂, ?_⟩
  simp [Renaming.answer, Function.comp_def]

theorem related_sizeOf (h : C.Related live s t) :
    C.Outcomes (C.Maps live C.names.answer) (sizeOf kind v s) (sizeOf kind v t) := by
  refine (h.readArray kind v).bind_maps fun elements _ _ h₁ => ?_
  rw [Array.size_map]
  exact h₁.answer _

theorem related_copyWhole (h : C.Related live s t) :
    C.Outcomes (C.Maps live id) (copyWhole source target v s) (copyWhole source target v t) :=
  (h.readArray source v).bind_maps fun elements _ _ h₁ => h₁.newArray target elements

theorem related_copyRange (h : C.Related live s t) (offset count : Int64) :
    C.Outcomes (C.Maps live id) (copyRange source target call v offset count s)
      (copyRange source target (C.names.call call) v offset count t) := by
  refine (h.readArray source v).bind_maps fun elements _ _ h₁ => ?_
  rw [Array.size_map]
  refine (related_range h₁ elements.size offset count).bind_maps fun found _ _ h₂ => ?_
  obtain ⟨start, n⟩ := found
  have hnew := h₂.newArray target (slice elements start n)
  rw [map_slice] at hnew
  exact hnew

theorem related_copyInto (h : C.Related live s t) (src dst : Handle) (srcOffset dstOffset count : Int64) :
    C.Outcomes (C.Maps live C.names.answer)
      (copyInto source target call src srcOffset dst dstOffset count s)
      (copyInto source target (C.names.call call) src srcOffset dst dstOffset count t) := by
  refine (h.readArray source src).bind_maps fun elements _ _ h₁ => ?_
  rw [Array.size_map]
  refine (related_range h₁ elements.size srcOffset count).bind_maps fun found _ _ h₂ => ?_
  obtain ⟨start, n⟩ := found
  refine (h₂.readArray target dst).bind_maps fun old _ _ h₃ => ?_
  rw [Array.size_map]
  refine (related_range h₃ old.size dstOffset count).bind_maps fun place _ _ h₄ => ?_
  obtain ⟨place, m⟩ := place
  refine (h₄.modifyArray target dst fun xs => ?_).bind_maps fun _ _ _ h₅ => h₅.noValues
  rw [map_splice, map_slice]

end ArrayOp

theorem Flavour.frozen?_atom (fl : Flavour) (ρ : Renaming) (a : Atom) :
    fl.frozen? (ρ.atom a) = fl.frozen? a := by
  cases fl <;> cases a <;> rfl

theorem Flavour.mutable?_atom (fl : Flavour) (ρ : Renaming) (a : Atom) :
    fl.mutable? (ρ.atom a) = fl.mutable? a := by
  cases fl <;> cases a <;> rfl

theorem Flavour.atom_frozen (fl : Flavour) (ρ : Renaming) (v : Handle) :
    ρ.atom (fl.frozen v) = fl.frozen v := by
  cases fl <;> rfl

theorem Flavour.atom_mutable (fl : Flavour) (ρ : Renaming) (v : Handle) :
    ρ.atom (fl.mutable v) = fl.mutable v := by
  cases fl <;> rfl

theorem ArrayOp.related (fl : Flavour) (h : C.Related live s t) (op : ArrayOp) :
    C.Outcomes (C.Maps live C.names.answer) (op.run host fl call s)
      (op.run host fl (C.names.call call) t) := by
  fun_cases ArrayOp.run host fl op call
  case case26 =>
    fun_cases ArrayOp.run host fl op (C.names.call call) with
    | case26 => exact h.declined
    | _ => simp_all [List.map_eq_cons_iff]
  all_goals unfold run
  all_goals simp only [Renaming.args_call, *, List.map_cons, List.map_nil, Renaming.atom,
    Flavour.frozen?_atom, Flavour.mutable?_atom]
  case case1 count init _ =>
    refine (h.index count).bind_maps fun size _ _ h₁ => ?_
    refine (h₁.filled host.atoms C.names.atom init size).bind_maps fun elements _ _ h₂ => ?_
    exact (h₂.newArray _ elements).bind_maps fun v _ _ h₃ => h₃.scalar (fl.atom_mutable _ v)
  case case2 => exact related_element h _
  case case4 => exact related_element h _
  case case6 arr i value _ v _ =>
    refine (h.readArray _ v).bind_maps fun elements _ _ h₁ => ?_
    rw [Array.size_map]
    refine (related_range h₁ elements.size i 1).bind_maps fun slot _ _ h₂ => ?_
    refine (h₂.modifyArray _ v fun xs => ?_).bind_maps fun _ _ _ h₃ => h₃.noValues
    exact Array.map_setIfInBounds.symm
  case case8 => exact related_sizeOf h
  case case10 => exact related_sizeOf h
  case case12 => exact related_sizeOf h
  case case14 => exact (related_copyWhole h).bind_maps fun v _ _ h₁ => h₁.scalar (fl.atom_frozen _ v)
  case case16 => exact (related_copyWhole h).bind_maps fun v _ _ h₁ => h₁.scalar (fl.atom_mutable _ v)
  case case18 =>
    exact (related_copyRange h _ _).bind_maps fun v _ _ h₁ => h₁.scalar (fl.atom_frozen _ v)
  case case20 =>
    exact (related_copyRange h _ _).bind_maps fun v _ _ h₁ => h₁.scalar (fl.atom_mutable _ v)
  case case22 => exact related_copyInto h _ _ _ _ _
  case case24 => exact related_copyInto h _ _ _ _ _
  all_goals exact h.declined

/-! ### Byte arrays -/

theorem Element.atom_decode (e : Element) (ρ : Renaming) (bytes : List UInt8) :
    ρ.atom (e.decode bytes) = e.decode bytes := by
  cases e <;> rfl

theorem Element.encode?_atom (e : Element) (ρ : Renaming) (a : Atom) :
    e.encode? (ρ.atom a) = e.encode? a := by
  cases e <;> cases a <;> rfl

namespace ByteOp

variable {v : Handle}

theorem related_range (h : C.Related live s t) (size : Nat) (offset count : Int64) :
    C.Outcomes (C.Maps live id) (range call size offset count s)
      (range (C.names.call call) size offset count t) :=
  h.range size offset count fun _ _ => rfl

theorem related_elementStart (h : C.Related live s t) (size : Nat) (i : Int64) (width : Nat) :
    C.Outcomes (C.Maps live id) (elementStart call size i width s)
      (elementStart (C.names.call call) size i width t) := by
  refine (h.index i).bind_maps fun n _ _ h₁ => ?_
  simp only [id]
  split
  · exact .ok ⟨h₁, rfl⟩
  · exact h₁.refuse _

theorem related_create (h : C.Related live s t) (size : Int64) (pinned : Bool) :
    C.Outcomes (C.Maps live C.names.answer) (create host call size pinned s)
      (create host (C.names.call call) size pinned t) := by
  refine (h.index size).bind_maps fun n _ _ h₁ => ?_
  refine (h₁.filled host.bytes id 0 n).bind_maps fun bytes _ _ h₂ => ?_
  rw [Array.map_id]
  exact (h₂.newBytes bytes pinned).bind_maps fun v _ _ h₃ => h₃.answer (.byteArray v)

theorem related_sizeOf (h : C.Related live s t) :
    C.Outcomes (C.Maps live C.names.answer) (sizeOf v s) (sizeOf v t) :=
  (h.readBytes v).bind_maps fun _ _ _ h₁ => h₁.answer _

theorem related_fetch (h : C.Related live s t) (e : Element) (i : Int64) :
    C.Outcomes (C.Maps live C.names.answer) (fetch e call v i s) (fetch e (C.names.call call) v i t) := by
  refine (h.readBytes v).bind_maps fun found _ _ h₁ => ?_
  exact (related_elementStart h₁ found.bytes.size i e.width).bind_maps fun start _ _ h₂ =>
    h₂.scalar (e.atom_decode _ _)

theorem related_put (h : C.Related live s t) (e : Element) (i : Int64) (value : Atom) :
    C.Outcomes (C.Maps live C.names.answer) (put e call v i value s)
      (put e (C.names.call call) v i (C.names.atom value) t) := by
  refine (h.readBytes v).bind_maps fun found _ _ h₁ => ?_
  refine (related_elementStart h₁ found.bytes.size i e.width).bind_maps fun start _ _ h₂ => ?_
  rw [e.encode?_atom]
  cases e.encode? value with
  | none => exact h₂.declined
  | some encoded => exact (h₂.modifyBytes v _).bind_maps fun _ _ _ h₃ => h₃.noValues

theorem related_copyInto (h : C.Related live s t) (src dst : Handle) (srcOffset dstOffset count : Int64) :
    C.Outcomes (C.Maps live C.names.answer) (copyInto call src srcOffset dst dstOffset count s)
      (copyInto (C.names.call call) src srcOffset dst dstOffset count t) := by
  refine (h.readBytes src).bind_maps fun found _ _ h₁ => ?_
  refine (related_range h₁ found.bytes.size srcOffset count).bind_maps fun part _ _ h₂ => ?_
  refine (h₂.readBytes dst).bind_maps fun old _ _ h₃ => ?_
  refine (related_range h₃ old.bytes.size dstOffset count).bind_maps fun place _ _ h₄ => ?_
  exact (h₄.modifyBytes dst _).bind_maps fun _ _ _ h₅ => h₅.noValues

theorem related (h : C.Related live s t) (op : ByteOp) :
    C.Outcomes (C.Maps live C.names.answer) (op.run host call s) (op.run host (C.names.call call) t) := by
  fun_cases ByteOp.run host op call
  case case12 =>
    fun_cases ByteOp.run host op (C.names.call call) with
    | case12 => exact h.declined
    | case8 =>
        have hargs := (C.names.args_call_eq_iff rfl).1 ‹(C.names.call call).args = _›
        grind
    | _ => simp_all [List.map_eq_cons_iff]
  all_goals unfold run
  all_goals simp only [Renaming.args_call, *, List.map_cons, List.map_nil, Renaming.atom]
  case case1 => exact related_create h _ _
  case case2 => exact related_create h _ _
  case case3 => exact related_sizeOf h
  case case4 => exact related_sizeOf h
  case case5 v count _ =>
    refine (h.index count).bind_maps fun wanted _ _ h₁ => ?_
    refine (h₁.readBytes v).bind_maps fun found _ _ h₂ => ?_
    simp only [id]
    split
    · exact h₂.refuse _
    · exact (h₂.modifyBytes v _).bind_maps fun _ _ _ h₃ => h₃.noValues
  case case6 => exact (h.readBytes _).bind_maps fun _ _ _ h₁ => h₁.answer _
  case case7 => exact (h.readBytes _).bind_maps fun _ _ _ h₁ => h₁.answer _
  case case8 => exact related_copyInto h _ _ _ _ _
  case case9 => exact related_fetch h _ _
  case case10 => exact related_fetch h _ _
  case case11 => exact related_put h _ _ _

end ByteOp

end PrimOp

/-! ## The registry -/

section Registry

variable {C : Coupling} {live : Bool} {s t : State} {call : Call}

/-- A handler does not look at names if its operations do not. -/
theorem Handler.related_ofNames {Op : Type} {family : String} {names : List String}
    {ofName? : String → Option Op} {run : Op → Call → Exec Answer} (h : C.Related live s t)
    (hrun : ∀ op, C.Outcomes (C.Maps live C.names.answer) (run op call s) (run op (C.names.call call) t)) :
    C.Outcomes (C.Maps live C.names.answer) ((Handler.ofNames family names ofName? run).evaluate call s)
      ((Handler.ofNames family names ofName? run).evaluate (C.names.call call) t) := by
  have hname : ofName? (C.names.call call).name = ofName? call.name := rfl
  cases hop : ofName? call.name with
  | none =>
      rw [evaluate_ofNames_of_none hop, evaluate_ofNames_of_none (hname.trans hop)]
      exact h.declined
  | some op =>
      rw [evaluate_ofNames_of_some hop, evaluate_ofNames_of_some (hname.trans hop)]
      exact hrun op

/-- No standard family looks at names. -/
theorem PrimOp.related_of_mem_standardHandlers {handler : Handler} (hmem : handler ∈ standardHandlers host)
    (h : C.Related live s t) :
    C.Outcomes (C.Maps live C.names.answer) (handler.evaluate call s)
      (handler.evaluate (C.names.call call) t) := by
  simp only [standardHandlers, List.mem_cons, List.not_mem_nil, or_false] at hmem
  rcases hmem with rfl | rfl | rfl | rfl | rfl | rfl | rfl | rfl | rfl | rfl | rfl | rfl | rfl
  · refine Handler.related_ofNames h (FloatOp.related single (fun a => ?_) (fun _ => rfl) (fun _ => rfl) h)
    cases a <;> rfl
  · refine Handler.related_ofNames h (FloatOp.related double (fun a => ?_) (fun _ => rfl) (fun _ => rfl) h)
    cases a <;> rfl
  · exact Handler.related_ofNames h (IntOp.related h)
  · exact Handler.related_ofNames h (WordOp.related h)
  · exact Handler.related_ofNames h (CharOp.related h)
  · exact Handler.related_ofNames h (MutVarOp.related h)
  · exact Handler.related_ofNames h (MVarOp.related h)
  · exact Handler.related_ofNames h (ArrayOp.related _ h)
  · exact Handler.related_ofNames h (ArrayOp.related _ h)
  · exact Handler.related_ofNames h (ByteOp.related h)
  · exact Handler.related_ofNames h (AddrOp.related h)
  · exact Handler.related_ofNames h (TagOp.related h)
  · exact Handler.related_ofNames h (ConcurrencyOp.related h)

/-- A registry of handlers that do not look at names does not look at names. -/
theorem Registry.related_evaluate {r : Registry} (h : C.Related live s t)
    (hhandlers : ∀ handler ∈ r.handlers, C.Outcomes (C.Maps live C.names.answer)
      (handler.evaluate call s) (handler.evaluate (C.names.call call) t)) :
    C.Outcomes (C.Maps live (List.map C.names.atom)) (r.evaluate call s)
      (r.evaluate (C.names.call call) t) := by
  have hanswer : C.Outcomes (C.Maps live C.names.answer) (r.answer call s)
      (r.answer (C.names.call call) t) := by
    have hname : (C.names.call call).name = call.name := rfl
    unfold Registry.answer
    rw [hname]
    cases howner : r.owner? call.name with
    | none => exact h.declined
    | some handler =>
        obtain ⟨i, -, hi⟩ := Option.bind_eq_some_iff.1 howner
        exact hhandlers handler (Array.mem_of_getElem? hi)
  refine hanswer.bind_maps fun answer s' t' h' => ?_
  cases answer with
  | some atoms => exact .ok ⟨h', rfl⟩
  | none => exact .fail h' (by simp [Coupling.cause, Cause.deeper, Renaming.cause, Renaming.call])

/-- The standard registry does not look at names. -/
theorem Registry.related_standard (h : C.Related live s t) (call : Call) :
    C.Outcomes (C.Maps live (List.map C.names.atom)) ((standard host).evaluate call s)
      ((standard host).evaluate (C.names.call call) t) :=
  related_evaluate h fun _ hhandler =>
    PrimOp.related_of_mem_standardHandlers (mem_of_mem_ofHandlers hhandler) h

end Registry

end Spineless
