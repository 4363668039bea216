import Mathlib.Data.List.Nodup
import Mathlib.Logic.Equiv.Defs
import Spineless.Machine.Step

/-!
# Other names for the same things

A `Renaming` permutes the heap addresses and the numbers of the string literals, and maps variables to
variables. It acts on everything that a machine holds: atoms, environments, code, heap objects, object
spaces and the causes of faults. Handles are indices into their spaces and keep their numbers.

The action is by functions, so that two runs which differ in names only are compared by equations. A
renaming that leaves variables alone acts on code as the identity (`Renaming.expr_eq_self`).
-/

namespace Spineless

/-- Environments are given by their entries. -/
theorem Env.ext_entries {e f : Env} (h : e.entries = f.entries) : e = f := by
  cases e
  cases f
  cases h
  rfl

/-- Other names for addresses, literals and variables. Variables are the same afterwards exactly if they
were before, and the two tokens stay tokens. -/
structure Renaming where
  /-- The new address of an object. -/
  addr : Equiv.Perm Addr
  /-- The new number of a literal. -/
  literal : Equiv.Perm Nat
  /-- The new variable for a variable. -/
  ident : Ident → Ident
  /-- The new key for a key. -/
  key : String → String
  key_ident : ∀ x, (ident x).key = key x.key
  key_injective : Function.Injective key
  isToken_ident : ∀ x, (ident x).isToken = x.isToken

namespace Renaming

/-- The renaming that leaves variables alone. -/
def ofPerms (addr : Equiv.Perm Addr) (literal : Equiv.Perm Nat) : Renaming where
  addr := addr
  literal := literal
  ident := id
  key := id
  key_ident _ := rfl
  key_injective := Function.injective_id
  isToken_ident _ := rfl

/-- The renaming that leaves everything alone. -/
def refl : Renaming := ofPerms (Equiv.refl Addr) (Equiv.refl Nat)

/-! ## Atoms -/

/-- A pointer to the same byte of a literal. -/
def stringPtr (ρ : Renaming) (p : StringPtr) : StringPtr := { p with id := ρ.literal p.id }

/-- An atom under its new name. -/
@[simp]
def atom (ρ : Renaming) : Atom → Atom
  | .ptr a => .ptr (ρ.addr a)
  | .str p => .str (ρ.stringPtr p)
  | .stable inner => .stable (ρ.atom inner)
  | .int n => .int n
  | .word n => .word n
  | .char c => .char c
  | .nullAddr => .nullAddr
  | .void => .void
  | .float x => .float x
  | .double x => .double x
  | .mvar h => .mvar h
  | .array h => .array h
  | .mutableArray h => .mutableArray h
  | .smallArray h => .smallArray h
  | .smallMutableArray h => .smallMutableArray h
  | .mutVar h => .mutVar h
  | .byteArray h => .byteArray h
  | .weak h => .weak h
  | .thread h => .thread h

variable (ρ : Renaming)

/-- String pointers are the same afterwards exactly if they were before. -/
@[simp]
theorem stringPtr_inj {p q : StringPtr} : ρ.stringPtr p = ρ.stringPtr q ↔ p = q := by
  obtain ⟨i, m⟩ := p
  obtain ⟨j, n⟩ := q
  simp [stringPtr]

/-- A renamed atom equals a literal exactly if the atom does. -/
theorem beq_literal {l : Lit} {expected : Atom} (h : l.atom? = some expected) (a : Atom) :
    (ρ.atom a == expected) = (a == expected) := by
  cases l <;> cases h <;> cases a <;> rfl

/-! ## Environments -/

/-- An environment with new keys and new atoms. -/
def env (e : Env) : Env where
  entries := e.entries.map fun entry => (ρ.key entry.1, ρ.atom entry.2)
  nodup := by
    have hkeys : ((e.entries.map Prod.fst).map ρ.key).Nodup := e.nodup.map ρ.key_injective
    simpa [List.map_map, Function.comp_def] using hkeys

/-- A key is bound to the new name of what it was bound to. -/
@[simp]
theorem find?_env (e : Env) (key : String) :
    (ρ.env e).find? (ρ.key key) = (e.find? key).map ρ.atom := by
  change (e.entries.map fun entry => (ρ.key entry.1, ρ.atom entry.2)).lookup (ρ.key key) =
    (e.entries.lookup key).map ρ.atom
  induction e.entries with
  | nil => rfl
  | cons entry rest ih =>
      obtain ⟨k, a⟩ := entry
      by_cases hk : key = k
      · simp [hk]
      · have hne : ρ.key key ≠ ρ.key k := fun h => hk (ρ.key_injective h)
        rw [List.map_cons, List.lookup_cons, List.lookup_cons, beq_false_of_ne hk, beq_false_of_ne hne]
        exact ih

/-- Binding a variable and renaming can be done in either order. -/
@[simp]
theorem env_bind (e : Env) (x : Ident) (a : Atom) :
    ρ.env (e.bind x a) = (ρ.env e).bind (ρ.ident x) (ρ.atom a) := by
  refine Env.ext_entries ?_
  simp only [env, Env.bind, Env.insert, ρ.key_ident, List.map_cons, List.filter_map, List.cons.injEq,
    true_and]
  congr 1
  refine List.filter_congr fun entry _ => ?_
  simp only [Function.comp_apply, bne, ρ.key_injective.beq_eq]

/-- Binding several variables and renaming can be done in either order. -/
theorem env_extend (e : Env) (pairs : List (Ident × Atom)) :
    ρ.env (e.extend pairs) =
      (ρ.env e).extend (pairs.map fun pair => (ρ.ident pair.1, ρ.atom pair.2)) := by
  induction pairs generalizing e with
  | nil => rfl
  | cons pair rest ih =>
      change ρ.env ((e.bind pair.1 pair.2).extend rest) = _
      rw [ih, env_bind]
      rfl

/-- Variables paired with values, before and after. -/
theorem zip_map (xs : List Ident) (atoms : List Atom) :
    (xs.map ρ.ident).zip (atoms.map ρ.atom) =
      (xs.zip atoms).map fun pair => (ρ.ident pair.1, ρ.atom pair.2) :=
  List.zip_map ..

/-! ## Code -/

/-- An argument under its new name. -/
def arg : Arg → Arg
  | .var x => .var (ρ.ident x)
  | .lit l => .lit l

end Renaming

mutual

/-- An expression with new variables. -/
def Renaming.expr (ρ : Renaming) : Expr → Expr
  | .app callee args => .app (ρ.ident callee) (args.map ρ.arg)
  | .lit l => .lit l
  | .conApp k args => .conApp k (args.map ρ.arg)
  | .multiVal args => .multiVal (args.map ρ.arg)
  | .opApp op args resultType resultTyCon => .opApp op (args.map ρ.arg) resultType resultTyCon
  | .case scrutinee binder altType alts =>
    .case (ρ.expr scrutinee) (ρ.ident binder) altType (ρ.alts alts)
  | .letIn binding body => .letIn (ρ.binding binding) (ρ.expr body)

/-- Alternatives with new variables. -/
def Renaming.alts (ρ : Renaming) : List Alt → List Alt
  | [] => []
  | ⟨con, binders, rhs⟩ :: rest => ⟨con, binders.map ρ.ident, ρ.expr rhs⟩ :: ρ.alts rest

/-- A right-hand side with new variables. -/
def Renaming.rhs (ρ : Renaming) : Rhs → Rhs
  | .closure freeVars ⟨params, body⟩ =>
    .closure (freeVars.map ρ.ident) ⟨params.map ρ.ident, ρ.expr body⟩
  | .con k args => .con k (args.map ρ.arg)

/-- The members of a group with new variables. -/
def Renaming.pairs (ρ : Renaming) : List (Ident × Rhs) → List (Ident × Rhs)
  | [] => []
  | (x, rhs) :: rest => (ρ.ident x, ρ.rhs rhs) :: ρ.pairs rest

/-- A binding with new variables. -/
def Renaming.binding (ρ : Renaming) : Binding → Binding
  | .nonRec x rhs => .nonRec (ρ.ident x) (ρ.rhs rhs)
  | .group pairs => .group (ρ.pairs pairs)

end

namespace Renaming

variable (ρ : Renaming)

/-- An alternative with new variables. -/
def alt (a : Alt) : Alt := ⟨a.con, a.binders.map ρ.ident, ρ.expr a.rhs⟩

/-- Parameters and code with new variables. -/
def lambda (l : Lambda) : Lambda := ⟨l.params.map ρ.ident, ρ.expr l.body⟩

theorem alts_eq_map (as : List Alt) : ρ.alts as = as.map ρ.alt := by
  induction as with
  | nil => rw [alts, List.map_nil]
  | cons a rest ih =>
      obtain ⟨con, binders, rhs⟩ := a
      rw [alts, ih, List.map_cons, alt]

theorem pairs_eq_map (ps : List (Ident × Rhs)) :
    ρ.pairs ps = ps.map fun pair => (ρ.ident pair.1, ρ.rhs pair.2) := by
  induction ps with
  | nil => rw [pairs, List.map_nil]
  | cons pair rest ih => rw [pairs, ih, List.map_cons]

theorem rhs_closure (freeVars : List Ident) (l : Lambda) :
    ρ.rhs (.closure freeVars l) = .closure (freeVars.map ρ.ident) (ρ.lambda l) := by
  obtain ⟨params, body⟩ := l
  rw [rhs, lambda]

end Renaming

section Self

variable {ρ : Renaming} (h : ρ.ident = id)
include h

theorem Renaming.map_arg_eq_self (args : List Arg) : args.map ρ.arg = args := by
  refine (List.map_congr_left fun a _ => ?_).trans (List.map_id args)
  cases a with
  | var x => rw [arg, h]; rfl
  | lit l => rfl

theorem Renaming.map_ident_eq_self (xs : List Ident) : xs.map ρ.ident = xs := by
  rw [h, List.map_id]

mutual

/-- A renaming that leaves variables alone leaves expressions alone. -/
theorem Renaming.expr_eq_self : ∀ e : Expr, ρ.expr e = e
  | .app callee args => by rw [expr, map_arg_eq_self h, h, id]
  | .lit l => by rw [expr]
  | .conApp k args => by rw [expr, map_arg_eq_self h]
  | .multiVal args => by rw [expr, map_arg_eq_self h]
  | .opApp op args resultType resultTyCon => by rw [expr, map_arg_eq_self h]
  | .case scrutinee binder altType alts => by
      rw [expr, expr_eq_self scrutinee, alts_eq_self alts, h, id]
  | .letIn binding body => by rw [expr, binding_eq_self binding, expr_eq_self body]

theorem Renaming.alts_eq_self : ∀ as : List Alt, ρ.alts as = as
  | [] => by rw [alts]
  | ⟨con, binders, rhs⟩ :: rest => by
      rw [alts, map_ident_eq_self h, expr_eq_self rhs, alts_eq_self rest]

theorem Renaming.rhs_eq_self : ∀ r : Rhs, ρ.rhs r = r
  | .closure freeVars ⟨params, body⟩ => by
      rw [rhs, map_ident_eq_self h, map_ident_eq_self h, expr_eq_self body]
  | .con k args => by rw [rhs, map_arg_eq_self h]

theorem Renaming.pairs_eq_self : ∀ ps : List (Ident × Rhs), ρ.pairs ps = ps
  | [] => by rw [pairs]
  | (x, r) :: rest => by rw [pairs, rhs_eq_self r, pairs_eq_self rest, h, id]

theorem Renaming.binding_eq_self : ∀ b : Binding, ρ.binding b = b
  | .nonRec x r => by rw [binding, rhs_eq_self r, h, id]
  | .group ps => by rw [binding, pairs_eq_self ps]

end

end Self

namespace Renaming

variable (ρ : Renaming)

/-- A piece of work under new names. -/
def code : Code → Code
  | .eval e => .eval (ρ.expr e)
  | .enter a => .enter (ρ.atom a)
  | .ret atoms => .ret (atoms.map ρ.atom)

/-- The outcome of a transition under new names. -/
def next : Next → Next
  | .code c => .code (ρ.code c)
  | .done atoms => .done (atoms.map ρ.atom)

/-! ## What a machine holds -/

/-- A closure under new names. -/
def closure (c : Closure) : Closure where
  name := ρ.ident c.name
  lambda := ρ.lambda c.lambda
  env := ρ.env c.env
  args := c.args.map ρ.atom
  missing := c.missing

/-- An object under new names. -/
@[simp]
def object (ρ : Renaming) : Object → Object
  | .con k args => .con k (args.map ρ.atom)
  | .closure c => .closure (ρ.closure c)
  | .blackhole covered => .blackhole (ρ.object covered)

/-- A continuation under new names. -/
@[simp]
def cont : Continuation → Continuation
  | .caseOf binder altType alts => .caseOf (ρ.ident binder) altType (alts.map ρ.alt)
  | .update target => .update (ρ.addr target)
  | .apply args => .apply (args.map ρ.atom)

/-- Object spaces that hold the same atoms under new names. -/
def spaces (sp : Spaces) : Spaces where
  mutVars := sp.mutVars.map ρ.atom
  mvars := sp.mvars.map (Option.map ρ.atom)
  arrays := sp.arrays.map (Array.map ρ.atom)
  mutableArrays := sp.mutableArrays.map (Array.map ρ.atom)
  smallArrays := sp.smallArrays.map (Array.map ρ.atom)
  smallMutableArrays := sp.smallMutableArrays.map (Array.map ρ.atom)
  byteArrays := sp.byteArrays
  weakPointers := sp.weakPointers

/-- Renaming does not change the shape of a closure. -/
@[simp]
theorem shape_closure (c : Closure) : (ρ.closure c).shape = c.shape := by
  have hargs : (ρ.closure c).args.isEmpty = c.args.isEmpty := List.isEmpty_map
  rw [Closure.shape, Closure.isFunction, hargs]
  rfl

/-- The arrays of a kind hold the same atoms under new names. -/
theorem arraysOf_spaces (sp : Spaces) (kind : ArrayKind) :
    (ρ.spaces sp).arraysOf kind = (sp.arraysOf kind).map (Array.map ρ.atom) := by
  cases kind <;> rfl

/-- Changing the arrays of a kind and renaming can be done in either order. -/
theorem spaces_modifyArrays {f g : Array (Array Atom) → Array (Array Atom)} (sp : Spaces)
    (kind : ArrayKind)
    (h : g ((sp.arraysOf kind).map (Array.map ρ.atom)) = (f (sp.arraysOf kind)).map (Array.map ρ.atom)) :
    (ρ.spaces sp).modifyArrays kind g = ρ.spaces (sp.modifyArrays kind f) := by
  cases kind <;> simp only [Spaces.modifyArrays, spaces, Spaces.arraysOf] at h ⊢ <;> rw [h]

/-! ## Faults -/

/-- What stood where a function was expected, under new names. -/
def nonFunction : NonFunction → NonFunction
  | .values atoms => .values (atoms.map ρ.atom)
  | .object shape addr => .object shape (ρ.addr addr)

/-- What no alternative matched, under new names. -/
def unmatched : Unmatched → Unmatched
  | .con name => .con name
  | .values atoms => .values (atoms.map ρ.atom)

/-- A refusal under new names. -/
def misfit : Misfit → Misfit
  | .byteOutside offset id => .byteOutside offset (ρ.literal id)
  | m => m

/-- A cause under new names. It stays the same cause. -/
def cause : Cause → Cause
  | .unboundVariable x => .unboundVariable (ρ.ident x)
  | .unknownAddress addr => .unknownAddress (ρ.addr addr)
  | .notAConstructor addr found => .notAConstructor (ρ.addr addr) found
  | .notAFunction found => .notAFunction (ρ.nonFunction found)
  | .unknownHandle space handle => .unknownHandle space handle
  | .nonExhaustiveMatch binder scrutinee => .nonExhaustiveMatch (ρ.ident binder) (ρ.unmatched scrutinee)
  | .unknownPrimOp name arity => .unknownPrimOp name arity
  | .blackholeEntered addr => .blackholeEntered (ρ.addr addr)
  | .invalidUpdate target found => .invalidUpdate (ρ.addr target) (found.map ρ.atom)
  | .stackOverflow limit => .stackOverflow limit
  | .stepLimitExceeded limit => .stepLimitExceeded limit
  | .duplicatePrimOp name => .duplicatePrimOp name
  | .primOpShape name m => .primOpShape name (ρ.misfit m)
  | .wouldBlock op handle => .wouldBlock op handle
  | .noProgramLoaded => .noProgramLoaded

/-- A call with its arguments under new names. -/
def call (c : Call) : Call := { c with args := c.args.map ρ.atom }

/-! ## Renamings that leave atoms alone -/

end Renaming

/-- The cause with other variables in it. -/
def Cause.mapIdents (f : Ident → Ident) : Cause → Cause
  | .unboundVariable x => .unboundVariable (f x)
  | .nonExhaustiveMatch binder scrutinee => .nonExhaustiveMatch (f binder) scrutinee
  | cause => cause

namespace Renaming

/-- A renaming that leaves addresses and literals alone leaves atoms alone. -/
theorem atom_eq_self {ρ : Renaming} (haddr : ρ.addr = Equiv.refl Addr)
    (hliteral : ρ.literal = Equiv.refl Nat) (a : Atom) : ρ.atom a = a := by
  induction a with
  | ptr a => rw [atom, haddr]; rfl
  | str p => rw [atom, stringPtr, hliteral]; rfl
  | stable inner ih => rw [atom, ih]
  | _ => rfl

theorem map_atom_eq_self {ρ : Renaming} (haddr : ρ.addr = Equiv.refl Addr)
    (hliteral : ρ.literal = Equiv.refl Nat) (atoms : List Atom) : atoms.map ρ.atom = atoms :=
  (List.map_congr_left fun a _ => atom_eq_self haddr hliteral a).trans (List.map_id atoms)

/-- A renaming that leaves addresses and literals alone changes the variables of a cause only. -/
theorem cause_eq_mapIdents {ρ : Renaming} (haddr : ρ.addr = Equiv.refl Addr)
    (hliteral : ρ.literal = Equiv.refl Nat) (c : Cause) : ρ.cause c = c.mapIdents ρ.ident := by
  have hatoms := map_atom_eq_self haddr hliteral
  cases c with
  | notAFunction found =>
      cases found with
      | values atoms => rw [cause, nonFunction, hatoms]; rfl
      | object shape addr => rw [cause, nonFunction, haddr]; rfl
  | nonExhaustiveMatch binder scrutinee =>
      cases scrutinee with
      | con name => rfl
      | values atoms => rw [cause, unmatched, hatoms]; rfl
  | primOpShape name m =>
      cases m with
      | byteOutside offset id => rw [cause, misfit, hliteral]; rfl
      | _ => rfl
  | invalidUpdate target found => rw [cause, hatoms, haddr]; rfl
  | unknownAddress addr | notAConstructor addr | blackholeEntered addr => rw [cause, haddr]; rfl
  | _ => rfl

/-- A renaming that leaves atoms alone leaves object spaces alone. -/
theorem spaces_eq_self {ρ : Renaming} (h : ρ.atom = id) (sp : Spaces) : ρ.spaces sp = sp := by
  have harray : Array.map (id : Atom → Atom) = id := funext Array.map_id
  rw [spaces, h, harray, Option.map_id]
  simp

/-! ## The renaming that leaves everything alone -/

@[simp]
theorem atom_refl (a : Atom) : refl.atom a = a := atom_eq_self rfl rfl a

@[simp]
theorem map_atom_refl (atoms : List Atom) : atoms.map refl.atom = atoms := map_atom_eq_self rfl rfl atoms

@[simp]
theorem env_refl (e : Env) : refl.env e = e := by
  refine Env.ext_entries ?_
  refine (List.map_congr_left fun entry _ => ?_).trans (List.map_id e.entries)
  rw [atom_refl]
  rfl

@[simp]
theorem code_refl (c : Code) : refl.code c = c := by
  cases c with
  | eval e => rw [code, expr_eq_self rfl]
  | enter a => rw [code, atom_refl]
  | ret atoms => rw [code, map_atom_refl]

@[simp]
theorem object_refl (o : Object) : refl.object o = o := by
  induction o with
  | con k args => simp
  | closure c =>
      obtain ⟨name, ⟨params, body⟩, env, args, missing⟩ := c
      simp [closure, lambda, expr_eq_self (ρ := refl) rfl, map_ident_eq_self (ρ := refl) rfl]
      rfl
  | blackhole covered ih => rw [object, ih]

@[simp]
theorem cont_refl (k : Continuation) : refl.cont k = k := by
  cases k with
  | caseOf binder altType alts =>
      rw [cont, ← alts_eq_map, alts_eq_self rfl]
      rfl
  | update target => rfl
  | apply args => rw [cont, map_atom_refl]

@[simp]
theorem spaces_refl (sp : Spaces) : refl.spaces sp = sp := spaces_eq_self (funext atom_refl) sp

@[simp]
theorem cause_refl (c : Cause) : refl.cause c = c := by
  rw [cause_eq_mapIdents rfl rfl]
  cases c with
  | _ => rfl

end Renaming

end Spineless
