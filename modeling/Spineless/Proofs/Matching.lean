import Mathlib.Data.List.Forall2
import Spineless.Proofs.Loading

/-!
# Stores that correspond

A `Matching` says which addresses and literals of one store stand for which of another. What corresponds
follows from that, part by part: atoms, environments, objects, frames, causes of failure. The two stores
need not be of the same size, and what no matched address or literal leads to is not compared; neither are
the top-level variables in `lost`. `Matching.States` is the relation between the states.

Runs allocate objects and enter literals, so the matching grows with them (`Grows`), and whatever
corresponds goes on to correspond (the lemmas called `mono`). `Matching.Outcomes` relates two outcomes of
an action: both succeed or both fail, in states that correspond under a matching that grew. This module has
one rule for each elementary action; `Outcomes.bind` puts them together.
-/

namespace Spineless

/-! ## Pairs of options and of arrays -/

section Related

variable {α β : Type} {R S : α → β → Prop}

theorem rel_mono (h : ∀ a b, R a b → S a b) {x : Option α} {y : Option β} (hrel : Option.Rel R x y) :
    Option.Rel S x y := by
  cases hrel with
  | none => exact .none
  | some hab => exact .some (h _ _ hab)

/-- The entries of related lists are related. -/
theorem rel_getElem?_of_forall₂ {xs : List α} {ys : List β} (h : List.Forall₂ R xs ys) (i : Nat) :
    Option.Rel R xs[i]? ys[i]? := by
  induction h generalizing i with
  | nil => exact .none
  | cons hab _ ih =>
      cases i with
      | zero => exact .some hab
      | succ i => exact ih i

/-- Arrays whose entries are related one by one. -/
def Pointwise (R : α → β → Prop) (xs : Array α) (ys : Array β) : Prop :=
  ∀ i : Nat, Option.Rel R xs[i]? ys[i]?

namespace Pointwise

variable {xs : Array α} {ys : Array β}

theorem mono (h : ∀ a b, R a b → S a b) (hxs : Pointwise R xs ys) : Pointwise S xs ys :=
  fun i => rel_mono h (hxs i)

theorem empty : Pointwise R #[] #[] := fun _ => .none

theorem size_eq (h : Pointwise R xs ys) : ys.size = xs.size := by
  -- Neither array has an entry where the other one ends.
  have hend := h ys.size
  have hend' := h xs.size
  rw [Array.getElem?_eq_none (Nat.le_refl ys.size)] at hend
  rw [Array.getElem?_eq_none (Nat.le_refl xs.size)] at hend'
  refine Nat.le_antisymm ?_ ?_
  · generalize hy : ys[xs.size]? = y at hend'
    cases hend'
    exact Array.getElem?_eq_none_iff.1 hy
  · generalize hx : xs[ys.size]? = x at hend
    cases hend
    exact Array.getElem?_eq_none_iff.1 hx

theorem push (h : Pointwise R xs ys) {a : α} {b : β} (hab : R a b) :
    Pointwise R (xs.push a) (ys.push b) := by
  intro i
  rw [Array.getElem?_push, Array.getElem?_push, h.size_eq]
  split
  · exact .some hab
  · exact h i

theorem setIfInBounds (h : Pointwise R xs ys) (k : Nat) {a : α} {b : β} (hab : R a b) :
    Pointwise R (xs.setIfInBounds k a) (ys.setIfInBounds k b) := by
  intro i
  rw [Array.getElem?_setIfInBounds, Array.getElem?_setIfInBounds, h.size_eq]
  split
  · split
    · exact .some hab
    · exact .none
  · exact h i

theorem modify (h : Pointwise R xs ys) (k : Nat) {f : α → α} {g : β → β}
    (hchange : ∀ a b, R a b → R (f a) (g b)) : Pointwise R (xs.modify k f) (ys.modify k g) := by
  intro i
  have hi := h i
  rw [Array.getElem?_modify, Array.getElem?_modify]
  split
  · generalize xs[i]? = x at hi ⊢
    generalize ys[i]? = y at hi ⊢
    cases hi with
    | none => exact .none
    | some hab => exact .some (hchange _ _ hab)
  · exact hi

theorem replicate (n : Nat) {a : α} {b : β} (hab : R a b) :
    Pointwise R (Array.replicate n a) (Array.replicate n b) := by
  intro i
  rw [Array.getElem?_replicate, Array.getElem?_replicate]
  split
  · exact .some hab
  · exact .none

theorem extract (h : Pointwise R xs ys) (start stop : Nat) :
    Pointwise R (xs.extract start stop) (ys.extract start stop) := by
  intro i
  rw [Array.getElem?_extract, Array.getElem?_extract, h.size_eq]
  split
  · exact h _
  · exact .none

theorem append (h : Pointwise R xs ys) {xs' : Array α} {ys' : Array β} (h' : Pointwise R xs' ys') :
    Pointwise R (xs ++ xs') (ys ++ ys') := by
  intro i
  rw [Array.getElem?_append, Array.getElem?_append, h.size_eq]
  split
  · exact h i
  · exact h' _

end Pointwise

end Related

/-- A literal reads back under its number after another one is entered. -/
theorem StringTable.resolve?_intern_of_eq_some {t : StringTable} {i : Nat} {bytes : List UInt8}
    (h : t.resolve? i = some bytes) (new : List UInt8) : (t.intern new).2.resolve? i = some bytes := by
  rcases t.intern_cases new with ⟨_, -, hintern⟩ | ⟨-, hintern⟩
  · rw [hintern, h]
  · have hlt : i < t.literals.size := (Array.getElem?_eq_some_iff.1 h).1
    rw [hintern, resolve?, Array.getElem?_push, if_neg (Nat.ne_of_lt hlt)]
    exact h

/-! ## Matchings -/

/-- Whether there is neither a heap address nor the number of a literal in an atom. -/
def Atom.isPlain : Atom → Bool
  | .ptr _ | .str _ | .stable _ => false
  | _ => true

/-- Whether a cause names no heap address, no number of a literal and no values. -/
def Cause.isPlain : Cause → Bool
  | .unknownAddress _ | .notAConstructor .. | .notAFunction _ | .nonExhaustiveMatch _ (.values _)
  | .blackholeEntered _ | .invalidUpdate .. | .primOpShape _ (.byteOutside ..) => false
  | _ => true

/-- Which addresses and literals of one store stand for which of another. -/
structure Matching where
  /-- The address in the second store. -/
  addr : Addr → Addr
  /-- Different addresses stay different. -/
  injective : Function.Injective addr
  /-- The addresses that are matched. -/
  live : Addr → Prop
  /-- The pairs of literals that are matched, with their bytes. -/
  literal : Nat → Nat → List UInt8 → Prop
  /-- The keys of top-level variables that are not matched. -/
  lost : List String

namespace Matching

/-- More is matched by the second matching, and nothing is matched differently. -/
structure Grows (M N : Matching) : Prop where
  addr : ∀ {a}, M.live a → N.addr a = M.addr a
  live : ∀ {a}, M.live a → N.live a
  literal : ∀ {i j bytes}, M.literal i j bytes → N.literal i j bytes

theorem Grows.trans {M N O : Matching} (h : M.Grows N) (h' : N.Grows O) : M.Grows O :=
  ⟨fun ha => (h'.addr (h.live ha)).trans (h.addr ha), fun ha => h'.live (h.live ha),
    fun hij => h'.literal (h.literal hij)⟩

/-- A matching that grew between the same two stores. -/
structure Continues (M N : Matching) : Prop extends Grows M N where
  addr_eq : N.addr = M.addr
  lost_eq : N.lost = M.lost

theorem Continues.refl (M : Matching) : M.Continues M := ⟨⟨fun _ => rfl, id, id⟩, rfl, rfl⟩

theorem Continues.trans {M N O : Matching} (h : M.Continues N) (h' : N.Continues O) : M.Continues O :=
  ⟨h.toGrows.trans h'.toGrows, h'.addr_eq.trans h.addr_eq, h'.lost_eq.trans h.lost_eq⟩

variable (M : Matching)

/-- Corresponding atoms. -/
inductive Atoms : Atom → Atom → Prop
  /-- References to matched addresses. -/
  | ptr {a : Addr} (live : M.live a) : Atoms (.ptr a) (.ptr (M.addr a))
  /-- Pointers to the same byte of matched literals. -/
  | str {i j : Nat} {bytes : List UInt8} (literal : M.literal i j bytes) (offset : Nat) :
      Atoms (.str ⟨i, offset⟩) (.str ⟨j, offset⟩)
  /-- Stable pointers to corresponding atoms. -/
  | stable {a b : Atom} (inner : Atoms a b) : Atoms (.stable a) (.stable b)
  /-- An atom without addresses and literals. -/
  | plain {a : Atom} (plain : a.isPlain = true) : Atoms a a

/-- Environments that bind the same keys to corresponding atoms. -/
def Envs (e f : Env) : Prop := ∀ key, Option.Rel M.Atoms (e.find? key) (f.find? key)

/-- Closures with the same code in corresponding environments. -/
structure Closures (c d : Closure) : Prop where
  name : d.name = c.name
  lambda : d.lambda = c.lambda
  env : M.Envs c.env d.env
  args : List.Forall₂ M.Atoms c.args d.args
  missing : d.missing = c.missing

/-- Corresponding objects. -/
inductive Objects : Object → Object → Prop
  /-- The same constructor with corresponding fields. -/
  | con (k : DataCon) {args args' : List Atom} (fields : List.Forall₂ M.Atoms args args') :
      Objects (.con k args) (.con k args')
  /-- Corresponding closures. -/
  | closure {c d : Closure} (closures : M.Closures c d) : Objects (.closure c) (.closure d)
  /-- Blackholes over corresponding objects. -/
  | blackhole {o o' : Object} (covered : Objects o o') : Objects (.blackhole o) (.blackhole o')

/-- Corresponding continuations. -/
inductive Conts : Continuation → Continuation → Prop
  /-- The same alternatives. -/
  | caseOf (binder : Ident) (altType : AltType) (alts : List Alt) :
      Conts (.caseOf binder altType alts) (.caseOf binder altType alts)
  /-- Updates of matched addresses. -/
  | update {a : Addr} (live : M.live a) : Conts (.update a) (.update (M.addr a))
  /-- Corresponding arguments. -/
  | apply {args args' : List Atom} (values : List.Forall₂ M.Atoms args args') :
      Conts (.apply args) (.apply args')

/-- Frames with corresponding continuations in corresponding scopes. -/
structure Frames (f g : Frame) : Prop where
  cont : M.Conts f.cont g.cont
  env : M.Envs f.env g.env
  trace : g.trace = f.trace

/-- Object spaces with corresponding contents under the same handles. -/
structure Cells (p q : Spaces) : Prop where
  mutVars : Pointwise M.Atoms p.mutVars q.mutVars
  mvars : Pointwise (Option.Rel M.Atoms) p.mvars q.mvars
  arrays : ∀ kind, Pointwise (Pointwise M.Atoms) (p.arraysOf kind) (q.arraysOf kind)
  byteArrays : q.byteArrays = p.byteArrays
  weakPointers : q.weakPointers = p.weakPointers

/-- Causes that say the same of corresponding addresses, literals and values. -/
inductive Causes : Cause → Cause → Prop
  | unknownAddress {a : Addr} (live : M.live a) : Causes (.unknownAddress a) (.unknownAddress (M.addr a))
  | notAConstructor {a : Addr} (live : M.live a) (found : Shape) :
      Causes (.notAConstructor a found) (.notAConstructor (M.addr a) found)
  | notAFunction {atoms atoms' : List Atom} (values : List.Forall₂ M.Atoms atoms atoms') :
      Causes (.notAFunction (.values atoms)) (.notAFunction (.values atoms'))
  | notApplicable {a : Addr} (live : M.live a) (shape : Shape) :
      Causes (.notAFunction (.object shape a)) (.notAFunction (.object shape (M.addr a)))
  | noMatch {atoms atoms' : List Atom} (binder : Ident) (values : List.Forall₂ M.Atoms atoms atoms') :
      Causes (.nonExhaustiveMatch binder (.values atoms)) (.nonExhaustiveMatch binder (.values atoms'))
  | blackholeEntered {a : Addr} (live : M.live a) : Causes (.blackholeEntered a) (.blackholeEntered (M.addr a))
  | invalidUpdate {a : Addr} {atoms atoms' : List Atom} (live : M.live a)
      (values : List.Forall₂ M.Atoms atoms atoms') :
      Causes (.invalidUpdate a atoms) (.invalidUpdate (M.addr a) atoms')
  | byteOutside {i j : Nat} {bytes : List UInt8} (name : String) (offset : Nat)
      (literal : M.literal i j bytes) :
      Causes (.primOpShape name (.byteOutside offset i)) (.primOpShape name (.byteOutside offset j))
  | plain {c : Cause} (plain : c.isPlain = true) : Causes c c

/-- Faults for corresponding causes with the same trace. -/
structure Faults (e f : Fault) : Prop where
  cause : M.Causes e.cause f.cause
  trace : f.trace = e.trace

/-- Corresponding states. The variables with the keys in `reads` denote corresponding atoms: they are
matched at top level, or there is a binding of them in the environment. -/
structure States (reads : String → Prop) (s t : State) : Prop where
  bound : ∀ a, M.live a → a < s.heap.size
  fresh : ∀ i, M.addr (s.heap.size + i) = t.heap.size + i
  object : ∀ a, M.live a → Option.Rel M.Objects (s.object? a) (t.object? (M.addr a))
  literal : ∀ i j bytes, M.literal i j bytes →
    s.strings.resolve? i = some bytes ∧ t.strings.resolve? j = some bytes
  distinct : s.strings.literals.toList.Nodup
  distinct' : t.strings.literals.toList.Nodup
  env : M.Envs s.env t.env
  globals : ∀ key, key ∉ M.lost → Option.Rel M.Atoms (s.globals.find? key) (t.globals.find? key)
  held : ∀ key, reads key → key ∈ M.lost → (s.env.find? key).isSome
  frames : List.Forall₂ M.Frames s.stack.frames t.stack.frames
  cells : M.Cells s.spaces t.spaces
  trace : t.trace = s.trace
  traceLimit : t.traceLimit = s.traceLimit
  maxStackDepth : t.maxStackDepth = s.maxStackDepth
  thread : t.thread = s.thread

/-- Corresponding outcomes of an action that started under a matching. -/
inductive Outcomes {α β : Type} (reads : String → Prop) (V : Matching → α → β → Prop) :
    EStateM.Result Fault State α → EStateM.Result Fault State β → Prop
  /-- Both succeed. -/
  | ok {N : Matching} {a : α} {b : β} {s t : State} (continues : M.Continues N)
      (states : N.States reads s t) (values : V N a b) : Outcomes reads V (.ok a s) (.ok b t)
  /-- Both fail. -/
  | error {N : Matching} {e f : Fault} {s t : State} (continues : M.Continues N)
      (states : N.States (fun _ => False) s t) (faults : N.Faults e f) :
      Outcomes reads V (.error e s) (.error f t)

/-! ## Growing -/

section Mono

variable {M} {N : Matching} (h : M.Grows N)
include h

theorem Atoms.mono {a b : Atom} (hab : M.Atoms a b) : N.Atoms a b := by
  induction hab with
  | ptr hlive =>
      rw [← h.addr hlive]
      exact .ptr (h.live hlive)
  | str hliteral offset => exact .str (h.literal hliteral) offset
  | stable _ ih => exact .stable ih
  | plain hplain => exact .plain hplain

theorem values_mono {as bs : List Atom} (hvalues : List.Forall₂ M.Atoms as bs) :
    List.Forall₂ N.Atoms as bs :=
  hvalues.imp fun _ _ hab => hab.mono h

theorem Envs.mono {e f : Env} (hef : M.Envs e f) : N.Envs e f :=
  fun key => rel_mono (fun _ _ hab => hab.mono h) (hef key)

theorem Closures.mono {c d : Closure} (hcd : M.Closures c d) : N.Closures c d :=
  ⟨hcd.name, hcd.lambda, hcd.env.mono h, values_mono h hcd.args, hcd.missing⟩

theorem Objects.mono {o o' : Object} (ho : M.Objects o o') : N.Objects o o' := by
  induction ho with
  | con k hfields => exact .con k (values_mono h hfields)
  | closure hclosures => exact .closure (hclosures.mono h)
  | blackhole _ ih => exact .blackhole ih

theorem Frames.mono {f g : Frame} (hfg : M.Frames f g) : N.Frames f g := by
  obtain ⟨k, env, trace⟩ := f
  obtain ⟨k', env', trace'⟩ := g
  refine ⟨?_, hfg.env.mono h, hfg.trace⟩
  cases hfg.cont with
  | caseOf binder altType alts => exact .caseOf binder altType alts
  | update hlive =>
      rw [← h.addr hlive]
      exact .update (h.live hlive)
  | apply hvalues => exact .apply (values_mono h hvalues)

theorem Cells.mono {p q : Spaces} (hpq : M.Cells p q) : N.Cells p q where
  mutVars := hpq.mutVars.mono fun _ _ hab => hab.mono h
  mvars := hpq.mvars.mono fun _ _ hab => rel_mono (fun _ _ hab => hab.mono h) hab
  arrays kind := (hpq.arrays kind).mono fun _ _ hxs => hxs.mono fun _ _ hab => hab.mono h
  byteArrays := hpq.byteArrays
  weakPointers := hpq.weakPointers

end Mono

/-! ## Atoms, environments and closures -/

section Parts

variable {M}

/-- A plain atom corresponds to itself only. -/
theorem atoms_plain_iff {a b : Atom} (ha : a.isPlain = true) : M.Atoms a b ↔ b = a := by
  constructor
  · intro h
    cases h with
    | plain => rfl
    | _ => cases ha
  · rintro rfl
    exact .plain ha

/-- Only a plain atom itself corresponds to it. -/
theorem atoms_plain_right_iff {a b : Atom} (hb : b.isPlain = true) : M.Atoms a b ↔ a = b := by
  constructor
  · intro h
    cases h with
    | plain => rfl
    | _ => cases hb
  · rintro rfl
    exact .plain hb

theorem Envs.empty : M.Envs .empty .empty := fun _ => .none

theorem Envs.bind {e f : Env} (h : M.Envs e f) (x : Ident) {a b : Atom} (hab : M.Atoms a b) :
    M.Envs (e.bind x a) (f.bind x b) := by
  intro key
  rw [Env.bind, Env.bind, Env.find?_insert, Env.find?_insert]
  split
  · exact .some hab
  · exact h key

/-- Bindings of the same variables to corresponding atoms. -/
def Pairs (M : Matching) : List (Ident × Atom) → List (Ident × Atom) → Prop :=
  List.Forall₂ fun p q => q.1 = p.1 ∧ M.Atoms p.2 q.2

theorem Envs.extend {e f : Env} (h : M.Envs e f) {pairs pairs' : List (Ident × Atom)}
    (hpairs : M.Pairs pairs pairs') : M.Envs (e.extend pairs) (f.extend pairs') := by
  induction hpairs generalizing e f with
  | nil => exact h
  | @cons p q _ _ hpq _ ih =>
      obtain ⟨x, a⟩ := p
      obtain ⟨y, b⟩ := q
      obtain ⟨rfl, hab⟩ : y = x ∧ M.Atoms a b := hpq
      exact ih (h.bind y hab)

theorem pairs_zip (xs : List Ident) {as bs : List Atom} (h : List.Forall₂ M.Atoms as bs) :
    M.Pairs (xs.zip as) (xs.zip bs) := by
  induction h generalizing xs with
  | nil =>
      rw [List.zip_nil_right]
      exact .nil
  | cons hab _ ih =>
      cases xs with
      | nil => exact .nil
      | cons x xs => exact .cons ⟨rfl, hab⟩ (ih xs)

theorem Closures.isThunk {c d : Closure} (h : M.Closures c d) : d.isThunk = c.isThunk := by
  rw [Closure.isThunk, Closure.isThunk, h.missing]

theorem Closures.shape {c d : Closure} (h : M.Closures c d) : d.shape = c.shape := by
  have hargs : d.args.isEmpty = c.args.isEmpty := by
    rw [Bool.eq_iff_iff, List.isEmpty_iff_length_eq_zero, List.isEmpty_iff_length_eq_zero,
      h.args.length_eq]
  rw [Closure.shape, Closure.shape, Closure.isThunk, Closure.isThunk, Closure.isFunction,
    Closure.isFunction, h.missing, hargs]

end Parts

/-! ## Sequences of actions -/

variable {M} {N : Matching} {reads reads' : String → Prop} {s t : State} {α β γ δ : Type}
  {V : Matching → α → β → Prop} {W : Matching → γ → δ → Prop}

/-- Equal values. -/
def Same (_ : Matching) (a b : α) : Prop := b = a

/-- Corresponding addresses. -/
def Refs (M : Matching) (a b : Addr) : Prop := M.live a ∧ b = M.addr a

namespace Outcomes

/-- What corresponds under a matching that grew corresponds after the growth. -/
theorem after (h : M.Continues N) {x : EStateM.Result Fault State α} {y : EStateM.Result Fault State β}
    (hxy : N.Outcomes reads V x y) : M.Outcomes reads V x y := by
  cases hxy with
  | ok hcontinues hstates hvalues => exact .ok (h.trans hcontinues) hstates hvalues
  | error hcontinues hstates hfaults => exact .error (h.trans hcontinues) hstates hfaults

/-- What follows a pair of actions corresponds if it does after each pair of successes. -/
theorem andThen {x : Exec α} {y : Exec β} {f : α → Exec γ} {g : β → Exec δ}
    (h : M.Outcomes reads V (x s) (y t))
    (hnext : ∀ N a b s' t', M.Continues N → N.States reads s' t' → V N a b →
      N.Outcomes reads' W (f a s') (g b t')) :
    M.Outcomes reads' W ((x >>= f) s) ((y >>= g) t) := by
  change M.Outcomes reads' W (EStateM.bind x f s) (EStateM.bind y g t)
  unfold EStateM.bind
  generalize x s = first at h
  generalize y t = second at h
  cases h with
  | ok hcontinues hstates hvalues =>
      exact (hnext _ _ _ _ _ hcontinues hstates hvalues).after hcontinues
  | error hcontinues hstates hfaults => exact .error hcontinues hstates hfaults

/-- The case of `andThen` in which nothing depends on which variables are lost. -/
theorem bind {x : Exec α} {y : Exec β} {f : α → Exec γ} {g : β → Exec δ}
    (h : M.Outcomes reads V (x s) (y t))
    (hnext : ∀ N a b s' t', M.Grows N → N.States reads s' t' → V N a b →
      N.Outcomes reads' W (f a s') (g b t')) :
    M.Outcomes reads' W ((x >>= f) s) ((y >>= g) t) :=
  h.andThen fun N a b s' t' hcontinues => hnext N a b s' t' hcontinues.toGrows

/-- The case of `bind` in which both actions give the same value. -/
theorem bind_same {x y : Exec α} {f : α → Exec γ} {g : α → Exec δ}
    (h : M.Outcomes reads Same (x s) (y t))
    (hnext : ∀ N a s' t', M.Grows N → N.States reads s' t' → N.Outcomes reads' W (f a s') (g a t')) :
    M.Outcomes reads' W ((x >>= f) s) ((y >>= g) t) := by
  refine h.bind fun N a b s' t' hgrows hstates hsame => ?_
  cases hsame
  exact hnext N a s' t' hgrows hstates

theorem pure (h : M.States reads s t) {a : α} {b : β} (hvalues : V M a b) :
    M.Outcomes reads V ((Pure.pure a : Exec α) s) ((Pure.pure b : Exec β) t) :=
  .ok (.refl M) h hvalues

end Outcomes

namespace States

/-- Less is read. -/
theorem weaken (h : M.States reads s t) (hreads : ∀ key, reads' key → key ∈ M.lost → reads key) :
    M.States reads' s t :=
  { h with held := fun key hkey hlost => h.held key (hreads key hkey hlost) hlost }

/-- Nothing is read. -/
theorem forget (h : M.States reads s t) : M.States (fun _ => False) s t :=
  h.weaken fun _ hkey => hkey.elim

/-- Failing for corresponding causes. -/
theorem fail (h : M.States reads s t) {c c' : Cause} (hcause : M.Causes c c') :
    M.Outcomes reads' V ((Exec.fail c : Exec α) s) ((Exec.fail c' : Exec β) t) :=
  .error (.refl M) h.forget ⟨hcause, h.trace⟩

/-- Taking corresponding values, or failing for corresponding causes. -/
theorem orFail (h : M.States reads s t) {v : Option α} {v' : Option β} {c c' : Cause}
    (hvalue : Option.Rel (V M) v v') (hcause : M.Causes c c') :
    M.Outcomes reads V (Exec.orFail v c s) (Exec.orFail v' c' t) := by
  cases hvalue with
  | none => exact h.fail hcause
  | some hvalues => exact .pure h hvalues

/-! ## Heap -/

/-- A matched address was handed out in the second store too, since fresh ones are matched with fresh
ones. -/
theorem addr_lt (h : M.States reads s t) {a : Addr} (ha : M.live a) : M.addr a < t.heap.size := by
  by_contra hge
  obtain ⟨i, hi⟩ := Nat.exists_eq_add_of_le (Nat.le_of_not_lt hge)
  have hsame : a = s.heap.size + i := M.injective (hi.trans (h.fresh i).symm)
  have hlt := h.bound a ha
  rw [hsame] at hlt
  exact absurd hlt (Nat.not_lt.2 (Nat.le_add_right _ _))

theorem read (h : M.States reads s t) {a : Addr} (ha : M.live a) :
    M.Outcomes reads Objects (Exec.read a s) (Exec.read (M.addr a) t) :=
  h.orFail (h.object a ha) (.unknownAddress ha)

theorem write (h : M.States reads s t) {a : Addr} (ha : M.live a) {o o' : Object} (ho : M.Objects o o') :
    M.Outcomes reads Same (Exec.store a o s) (Exec.store (M.addr a) o' t) := by
  have hlt := h.bound a ha
  have hlt' := h.addr_lt ha
  rw [Exec.store_apply, Exec.store_apply, if_pos hlt, if_pos hlt']
  refine .ok (.refl M) { h with bound := ?_, fresh := ?_, object := ?_ } rfl
  · intro b hb
    simpa [State.overwrite] using h.bound b hb
  · intro i
    simpa [State.overwrite] using h.fresh i
  · intro b hb
    rw [State.object?_overwrite, State.object?_overwrite]
    by_cases hba : b = a
    · rw [if_pos ⟨hba, hlt⟩, if_pos ⟨congrArg M.addr hba, hlt'⟩]
      exact .some ho
    · rw [if_neg fun hand => hba hand.1, if_neg fun hand => hba (M.injective hand.1)]
      exact h.object b hb

end States

/-- The matching with some new addresses. -/
def link (M : Matching) (start n : Nat) : Matching :=
  { M with live := fun a => M.live a ∨ start ≤ a ∧ a < start + n }

theorem continues_link (M : Matching) (start n : Nat) : M.Continues (M.link start n) :=
  ⟨⟨fun _ => rfl, .inl, id⟩, rfl, rfl⟩

theorem link_live (M : Matching) (start : Nat) {n i : Nat} (hi : i < n) :
    (M.link start n).live (start + i) :=
  .inr ⟨Nat.le_add_right _ _, Nat.add_lt_add_left hi _⟩

namespace States

/-- More is matched, if what is new corresponds. -/
theorem mono (h : M.States reads s t) (hcontinues : M.Continues N)
    (hlive : ∀ a, N.live a → M.live a ∨
      a < s.heap.size ∧ Option.Rel N.Objects (s.object? a) (t.object? (M.addr a)))
    (hliteral : ∀ i j bytes, N.literal i j bytes → M.literal i j bytes ∨
      s.strings.resolve? i = some bytes ∧ t.strings.resolve? j = some bytes) :
    N.States reads s t where
  bound a ha := (hlive a ha).elim (h.bound a) And.left
  fresh i := by rw [hcontinues.addr_eq, h.fresh]
  object a ha := by
    rw [hcontinues.addr_eq]
    refine (hlive a ha).elim (fun hold => ?_) And.right
    exact rel_mono (fun _ _ ho => ho.mono hcontinues.toGrows) (h.object a hold)
  literal i j bytes hij := (hliteral i j bytes hij).elim (h.literal i j bytes) id
  distinct := h.distinct
  distinct' := h.distinct'
  env := h.env.mono hcontinues.toGrows
  globals key hkey := by
    rw [hcontinues.lost_eq] at hkey
    exact rel_mono (fun _ _ hab => hab.mono hcontinues.toGrows) (h.globals key hkey)
  held key hread hlost := h.held key hread (hcontinues.lost_eq ▸ hlost)
  frames := h.frames.imp fun _ _ hfg => hfg.mono hcontinues.toGrows
  cells := h.cells.mono hcontinues.toGrows
  trace := h.trace
  traceLimit := h.traceLimit
  maxStackDepth := h.maxStackDepth
  thread := h.thread

/-- New slots with corresponding contents are matched in order. -/
theorem grow (h : M.States reads s t) {slots slots' : List (Option Object)}
    (hslots : List.Forall₂ (Option.Rel (M.link s.heap.size slots.length).Objects) slots slots') :
    (M.link s.heap.size slots.length).States reads (s.grow slots) (t.grow slots') := by
  have hgrown : M.States reads (s.grow slots) (t.grow slots') := by
    refine { h with bound := ?_, fresh := ?_, object := ?_ }
    · intro a ha
      rw [State.heap_size_grow]
      exact Nat.lt_add_right _ (h.bound a ha)
    · intro i
      rw [State.heap_size_grow, State.heap_size_grow, Nat.add_assoc, Nat.add_assoc, ← hslots.length_eq]
      exact h.fresh _
    · intro a ha
      rw [State.object?_grow_of_lt (h.bound a ha), State.object?_grow_of_lt (h.addr_lt ha)]
      exact h.object a ha
  refine hgrown.mono (M.continues_link _ _) (fun a ha => ha.imp id fun hnew => ?_) fun _ _ _ => .inl
  obtain ⟨i, rfl⟩ := Nat.exists_eq_add_of_le hnew.1
  refine ⟨by rw [State.heap_size_grow]; exact hnew.2, ?_⟩
  have hslot := rel_getElem?_of_forall₂ hslots i
  rw [h.fresh, State.object?_grow, State.object?_grow, if_neg (Nat.not_lt.2 (Nat.le_add_right _ _)),
    if_neg (Nat.not_lt.2 (Nat.le_add_right _ _)), Nat.add_sub_cancel_left, Nat.add_sub_cancel_left]
  generalize slots[i]? = slot at hslot ⊢
  generalize slots'[i]? = slot' at hslot ⊢
  cases hslot with
  | none => exact .none
  | some hslot => exact hslot

theorem allocate (h : M.States reads s t) {o o' : Object} (ho : M.Objects o o') :
    M.Outcomes reads Refs (Exec.allocate o s) (Exec.allocate o' t) := by
  have hcontinues := M.continues_link s.heap.size 1
  have hslots : List.Forall₂ (Option.Rel (M.link s.heap.size [some o].length).Objects) [some o] [some o'] :=
    .cons (.some (ho.mono hcontinues.toGrows)) .nil
  rw [Exec.allocate_apply, Exec.allocate_apply]
  refine .ok hcontinues (h.grow hslots) ⟨?_, ?_⟩
  · exact M.link_live s.heap.size Nat.one_pos
  · exact (h.fresh 0).symm

/-- The constructor at an address. -/
theorem readCon (h : M.States reads s t) {a : Addr} (ha : M.live a) :
    M.Outcomes reads (fun N x y => y.1 = x.1 ∧ List.Forall₂ N.Atoms x.2 y.2) (Exec.readCon a s)
      (Exec.readCon (M.addr a) t) := by
  refine (h.read ha).bind fun N o o' s' t' hgrows h' ho => ?_
  rw [← hgrows.addr ha]
  cases ho with
  | con k hfields => exact .pure h' ⟨rfl, hfields⟩
  | closure hclosures =>
      have hshape := hclosures.shape
      refine h'.fail ?_
      rw [Object.shape, Object.shape, hshape]
      exact .notAConstructor (hgrows.live ha) _
  | blackhole _ => exact h'.fail (.notAConstructor (hgrows.live ha) _)

/-! ## Scope -/

/-- A variable that is read denotes corresponding atoms. -/
theorem lookup? (h : M.States reads s t) {x : Ident} (hx : x.isToken = false → reads x.key) :
    Option.Rel M.Atoms (s.lookup? x) (t.lookup? x) := by
  unfold State.lookup?
  cases htoken : x.isToken with
  | true => exact .some (.plain rfl)
  | false =>
      have henv := h.env x.key
      have hheld := h.held x.key (hx htoken)
      have hglobals := h.globals x.key
      simp only [Env.get?, Bool.false_eq_true, if_false]
      generalize s.env.find? x.key = a at henv hheld ⊢
      generalize t.env.find? x.key = b at henv ⊢
      cases henv with
      | some hab => exact .some hab
      | none =>
          -- The environment has no binding, so the top-level variable is matched.
          exact hglobals fun hlost => by cases hheld hlost

theorem resolve (h : M.States reads s t) {x : Ident} (hx : x.isToken = false → reads x.key) :
    M.Outcomes reads Atoms (Exec.resolve x s) (Exec.resolve x t) :=
  h.orFail (h.lookup? hx) (.plain rfl)

/-- Several bindings in the current environment. What they bind may be read from then on. -/
theorem bindAll (h : M.States reads s t) {pairs pairs' : List (Ident × Atom)}
    (hpairs : M.Pairs pairs pairs') :
    M.States (fun key => reads key ∨ key ∈ keys (pairs.map Prod.fst)) (s.bindAll pairs)
      (t.bindAll pairs') := by
  refine { h with env := h.env.extend hpairs, held := ?_ }
  intro key hkey hlost
  rw [State.bindAll, Env.isSome_find?_extend]
  exact (hkey.symm).imp id fun hread => h.held key hread hlost

/-- A binding in the current environment. -/
theorem bind (h : M.States reads s t) (x : Ident) {a b : Atom} (hab : M.Atoms a b) :
    M.States reads (s.bind x a) (t.bind x b) :=
  have hpairs : M.Pairs [(x, a)] [(x, b)] := .cons ⟨rfl, hab⟩ .nil
  (h.bindAll hpairs).weaken fun _ hkey _ => .inl hkey

/-- Another environment and another trace. -/
theorem restoreScope (h : M.States reads s t) {env env' : Env} (henv : M.Envs env env')
    (trace : List Ident) :
    M.States (fun _ => False) (s.restoreScope env trace) (t.restoreScope env' trace) :=
  { h with env := henv, held := fun _ hkey => hkey.elim, trace := rfl }

/-- The scope of a closure. -/
theorem enterScope (h : M.States reads s t) (name : Ident) {env env' : Env} (henv : M.Envs env env') :
    M.States (fun _ => False) (s.enterScope name env) (t.enterScope name env') := by
  refine { h with env := henv, held := fun _ hkey => hkey.elim, trace := ?_ }
  rw [State.enterScope, State.enterScope, h.traceLimit]

/-- One more binder in the trace. -/
theorem pushTrace (h : M.States reads s t) (x : Ident) :
    M.States reads (s.pushTrace x) (t.pushTrace x) := by
  refine { h with trace := ?_ }
  rw [State.pushTrace, State.pushTrace, h.traceLimit, h.trace]

/-! ## Control stack -/

theorem stack_depth (h : M.States reads s t) : t.stack.depth = s.stack.depth := by
  rw [t.stack.depth_eq, s.stack.depth_eq, h.frames.length_eq]

/-- A continuation that resumes in the current scope. -/
theorem pushFrame (h : M.States reads s t) {k k' : Continuation} (hk : M.Conts k k') :
    M.Outcomes reads Same (Exec.pushFrame k s) (Exec.pushFrame k' t) := by
  rw [Exec.pushFrame_apply, Exec.pushFrame_apply, h.stack_depth, h.maxStackDepth]
  split
  · exact h.fail (.plain rfl)
  · exact .ok (.refl M) { h with frames := .cons ⟨hk, h.env, h.trace⟩ h.frames } rfl

/-- The states in the scopes of corresponding frames that were taken off the stacks. -/
theorem resumed (h : M.States reads s t) {frame frame' : Frame} {rest rest' : Stack}
    (hpop : s.stack.pop? = some (frame, rest)) (hpop' : t.stack.pop? = some (frame', rest')) :
    M.Conts frame.cont frame'.cont ∧
      M.States (fun _ => False) (s.resumed frame rest) (t.resumed frame' rest') := by
  have hframes := h.frames
  rw [Stack.frames_of_pop? hpop, Stack.frames_of_pop? hpop'] at hframes
  cases hframes with
  | cons hframe hrest =>
      exact ⟨hframe.cont, { h with
        env := hframe.env, held := fun _ hkey => hkey.elim, frames := hrest, trace := hframe.trace }⟩

/-! ## Literals and spaces -/

/-- Matched literals are the same exactly if those that they are matched with are. -/
theorem literal_inj (h : M.States reads s t) {i j i' j' : Nat} {bytes bytes' : List UInt8}
    (hij : M.literal i j bytes) (hij' : M.literal i' j' bytes') : j = j' ↔ i = i' := by
  obtain ⟨hi, hj⟩ := h.literal i j bytes hij
  obtain ⟨hi', hj'⟩ := h.literal i' j' bytes' hij'
  constructor
  · rintro rfl
    rw [hj, Option.some.injEq] at hj'
    subst hj'
    rw [← StringTable.number?_eq_some_iff h.distinct] at hi hi'
    rw [hi, Option.some.injEq] at hi'
    exact hi'
  · rintro rfl
    rw [hi, Option.some.injEq] at hi'
    subst hi'
    rw [← StringTable.number?_eq_some_iff h.distinct'] at hj hj'
    rw [hj, Option.some.injEq] at hj'
    exact hj'

end States

/-- The matching with one more pair of literals. -/
def linkLiteral (M : Matching) (i j : Nat) (bytes : List UInt8) : Matching :=
  { M with literal := fun k l other => M.literal k l other ∨ k = i ∧ l = j ∧ other = bytes }

theorem continues_linkLiteral (M : Matching) (i j : Nat) (bytes : List UInt8) :
    M.Continues (M.linkLiteral i j bytes) :=
  ⟨⟨fun _ => rfl, id, .inl⟩, rfl, rfl⟩

namespace States

/-- Entering a literal matches its numbers. -/
theorem intern (h : M.States reads s t) (bytes : List UInt8) :
    M.Outcomes reads (fun N p q => N.Atoms (.str p) (.str q)) (Exec.intern bytes s)
      (Exec.intern bytes t) := by
  have hentered : M.States reads (s.withStrings (s.strings.intern bytes).2)
      (t.withStrings (t.strings.intern bytes).2) := by
    refine { h with literal := fun i j old hij => ?_, distinct := ?_, distinct' := ?_ }
    · obtain ⟨hi, hj⟩ := h.literal i j old hij
      exact ⟨StringTable.resolve?_intern_of_eq_some hi bytes,
        StringTable.resolve?_intern_of_eq_some hj bytes⟩
    · exact @StringTable.nodup_internAll s.strings [bytes] h.distinct
    · exact @StringTable.nodup_internAll t.strings [bytes] h.distinct'
  obtain ⟨i, hptr, -⟩ := s.strings.exists_number?_intern bytes
  obtain ⟨j, hptr', -⟩ := t.strings.exists_number?_intern bytes
  have hi := s.strings.resolve?_intern bytes
  have hj := t.strings.resolve?_intern bytes
  rw [hptr] at hi
  rw [hptr'] at hj
  have hcontinues := M.continues_linkLiteral i j bytes
  refine .ok hcontinues (hentered.mono hcontinues (fun _ => .inl) ?_) ?_
  · rintro k l other (hkl | ⟨rfl, rfl, rfl⟩)
    · exact .inl hkl
    · exact .inr ⟨hi, hj⟩
  · change (M.linkLiteral i j bytes).Atoms (.str (s.strings.intern bytes).1) (.str (t.strings.intern bytes).1)
    rw [hptr, hptr']
    have hnew : (M.linkLiteral i j bytes).literal i j bytes := .inr ⟨rfl, rfl, rfl⟩
    exact .str hnew 0

/-- Corresponding changes of the spaces. -/
theorem modifySpaces (h : M.States reads s t) {f g : Spaces → Spaces}
    (hcells : M.Cells (f s.spaces) (g t.spaces)) :
    M.Outcomes reads Same (Exec.modifySpaces f s) (Exec.modifySpaces g t) :=
  .ok (.refl M) { h with cells := hcells } rfl

end States

end Matching

end Spineless
