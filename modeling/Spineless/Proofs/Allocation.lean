import Mathlib.Data.List.Forall2
import Spineless.Machine.Allocate
import Spineless.Proofs.Action

/-!
# What allocation does

`Arg.Denotes` and `Rhs.Builds` say what an argument and a right-hand side may become, given what
variables denote. Evaluating arguments, capturing variables and building an object change nothing but
the table of literals, and fail only for a variable that the scope does not bind.

A group is declared by handing out the next addresses in order, and defined by filling them in the
same order; so a group that is allocated appends its objects to the heap, and one that fails appends
the objects of the members before the failing one and empty slots for the rest.
-/

namespace Spineless

/-! ## What arguments and right-hand sides denote -/

/-- The states that differ at most in the table of literals. -/
def State.Interns (s t : State) : Prop := ∃ strings, t = s.withStrings strings

/-- A state differs from itself in nothing. -/
theorem State.Interns.refl (s : State) : s.Interns s := ⟨s.strings, rfl⟩

/-- Differences in the table of literals add up to one. -/
theorem State.Interns.trans {s t u : State} (h : s.Interns t) (h' : t.Interns u) : s.Interns u := by
  obtain ⟨_, rfl⟩ := h
  obtain ⟨strings, rfl⟩ := h'
  exact ⟨strings, rfl⟩

/-- What an argument may denote: a variable its binding, a literal its atom or a string pointer. -/
def Arg.Denotes (lookup : Ident → Option Atom) : Arg → Atom → Prop
  | .var x, a => lookup x = some a
  | .lit l, a => l.atom? = some a ∨ ∃ p, a = .str p

/-- The variable that an argument is. -/
def Arg.var? : Arg → Option Ident
  | .var x => some x
  | .lit _ => none

/-- An environment that binds each listed variable to what it denotes. -/
def Captures (lookup : Ident → Option Atom) (freeVars : List Ident) (env : Env) : Prop :=
  ∃ atoms, List.Forall₂ (fun x a => lookup x = some a) freeVars atoms ∧
    env = .ofList (freeVars.zip atoms)

/-- The object of a right-hand side, given what variables denote. -/
def Rhs.Builds (lookup : Ident → Option Atom) (name : Ident) : Rhs → Object → Prop
  | .closure freeVars lambda, o =>
    ∃ env, Captures lookup freeVars env ∧ o = .closure (.ofLambda name lambda env)
  | .con k args, o => ∃ atoms, List.Forall₂ (Arg.Denotes lookup) args atoms ∧ o = .con k atoms

/-- The variables that are looked up to build a right-hand side. -/
def Rhs.vars : Rhs → List Ident
  | .closure freeVars _ => freeVars
  | .con _ args => args.filterMap Arg.var?

/-- Every entry of the second of two related lists has its partner in the first. -/
theorem exists_mem_of_forall₂ {α β : Type} {R : α → β → Prop} {xs : List α} {ys : List β}
    (h : List.Forall₂ R xs ys) : ∀ y ∈ ys, ∃ x ∈ xs, R x y := by
  intro y hy
  induction h with
  | nil => exact absurd hy List.not_mem_nil
  | @cons a b _ _ hab _ ih =>
      rcases List.mem_cons.1 hy with rfl | hy
      · exact ⟨a, List.mem_cons_self, hab⟩
      · obtain ⟨x, hx, hxy⟩ := ih hy
        exact ⟨x, List.mem_cons_of_mem _ hx, hxy⟩

namespace Exec

variable {s t : State} {e : Fault}

/-- A literal becomes its atom; only a string touches the table of literals. -/
theorem literal_eq_ok {l : Lit} {a : Atom} (h : literal l s = .ok a t) :
    s.Interns t ∧ (Arg.lit l).Denotes s.lookup? a := by
  cases l with
  | string bytes =>
      obtain ⟨p, u, hp, hu⟩ := bind_eq_ok.1 h
      obtain ⟨rfl, rfl⟩ := pure_eq_ok.1 hu
      cases hp
      exact ⟨⟨_, rfl⟩, .inr ⟨_, rfl⟩⟩
  | int | word | char | float | double | nullAddr =>
      obtain ⟨rfl, rfl⟩ := pure_eq_ok.1 h
      exact ⟨.refl s, .inl rfl⟩

/-- A literal always has an atom. -/
theorem literal_ne_error {l : Lit} : literal l s ≠ .error e t := by
  cases l with
  | string bytes => rintro ⟨⟩
  | int | word | char | float | double | nullAddr => rintro ⟨⟩

/-- An argument becomes what it denotes. -/
theorem argument_eq_ok {arg : Arg} {a : Atom} (h : argument arg s = .ok a t) :
    s.Interns t ∧ arg.Denotes s.lookup? a := by
  cases arg with
  | var x =>
      obtain ⟨hx, rfl⟩ := resolve_eq_ok.1 h
      exact ⟨.refl s, hx⟩
  | lit l => exact literal_eq_ok h

/-- An argument fails only as an unbound variable. -/
theorem argument_eq_error {arg : Arg} (h : argument arg s = .error e t) :
    s.Interns t ∧ ∃ x, arg.var? = some x ∧ s.lookup? x = none ∧ e = ⟨.unboundVariable x, s.trace⟩ := by
  cases arg with
  | var x =>
      obtain ⟨hx, rfl, rfl⟩ := resolve_eq_error.1 h
      exact ⟨.refl _, x, rfl, hx, rfl⟩
  | lit l => exact absurd h literal_ne_error

/-- The atoms of an argument list are evaluated from left to right. -/
theorem arguments_cons (arg : Arg) (args : List Arg) :
    arguments (arg :: args) = (do return (← argument arg) :: (← arguments args)) := by
  simp only [arguments, List.mapM_cons]

/-- Arguments become what they denote. -/
theorem arguments_eq_ok {args : List Arg} {atoms : List Atom} (h : arguments args s = .ok atoms t) :
    s.Interns t ∧ List.Forall₂ (Arg.Denotes s.lookup?) args atoms := by
  induction args generalizing s atoms with
  | nil =>
      obtain ⟨rfl, rfl⟩ := pure_eq_ok.1 h
      exact ⟨.refl _, .nil⟩
  | cons arg args ih =>
      -- The first argument may intern a literal; variables denote the same afterwards.
      rw [arguments_cons, bind_eq_ok] at h
      obtain ⟨a, u, ha, h⟩ := h
      obtain ⟨rest, v, hrest, h⟩ := bind_eq_ok.1 h
      obtain ⟨rfl, rfl⟩ := pure_eq_ok.1 h
      obtain ⟨⟨_, rfl⟩, hden⟩ := argument_eq_ok ha
      obtain ⟨hv, hall⟩ := ih hrest
      exact ⟨.trans ⟨_, rfl⟩ hv, .cons hden hall⟩

/-- Arguments fail only at an unbound variable among them. -/
theorem arguments_eq_error {args : List Arg} (h : arguments args s = .error e t) :
    s.Interns t ∧ ∃ x ∈ args.filterMap Arg.var?, s.lookup? x = none ∧
      e = ⟨.unboundVariable x, s.trace⟩ := by
  induction args generalizing s with
  | nil => exact (pure_ne_error.1 h).elim
  | cons arg args ih =>
      rw [arguments_cons, bind_eq_error] at h
      rcases h with h | ⟨a, u, ha, h⟩
      · obtain ⟨ht, x, hx, hfree, rfl⟩ := argument_eq_error h
        exact ⟨ht, x, List.mem_filterMap.2 ⟨arg, List.mem_cons_self, hx⟩, hfree, rfl⟩
      · rw [bind_eq_error] at h
        rcases h with h | ⟨_, _, -, h⟩
        · obtain ⟨⟨_, rfl⟩, -⟩ := argument_eq_ok ha
          obtain ⟨hv, x, hx, hfree, rfl⟩ := ih h
          obtain ⟨arg', hmem, hvar⟩ := List.mem_filterMap.1 hx
          exact ⟨.trans ⟨_, rfl⟩ hv, x,
            List.mem_filterMap.2 ⟨arg', List.mem_cons_of_mem _ hmem, hvar⟩, hfree, rfl⟩
        · exact (pure_ne_error.1 h).elim

/-- Capturing extends an environment by what the variables denote, in order. -/
private theorem capture_loop {freeVars : List Ident} {env env' : Env}
    (h : (freeVars.foldlM (fun env x => return env.bind x (← resolve x)) env : Exec Env) s =
      .ok env' t) :
    t = s ∧ ∃ atoms, List.Forall₂ (fun x a => s.lookup? x = some a) freeVars atoms ∧
      env' = env.extend (freeVars.zip atoms) := by
  induction freeVars generalizing env with
  | nil =>
      obtain ⟨rfl, rfl⟩ := pure_eq_ok.1 h
      exact ⟨rfl, [], .nil, rfl⟩
  | cons x xs ih =>
      rw [List.foldlM_cons, bind_eq_ok] at h
      obtain ⟨env₁, u, h₁, h⟩ := h
      obtain ⟨a, v, ha, h₁⟩ := bind_eq_ok.1 h₁
      obtain ⟨hx, rfl⟩ := resolve_eq_ok.1 ha
      obtain ⟨rfl, rfl⟩ := pure_eq_ok.1 h₁
      obtain ⟨rfl, atoms, hall, rfl⟩ := ih h
      exact ⟨rfl, a :: atoms, .cons hx hall, rfl⟩

/-- A closure captures what its free variables denote. -/
theorem capture_eq_ok {freeVars : List Ident} {env : Env} (h : capture freeVars s = .ok env t) :
    t = s ∧ Captures s.lookup? freeVars env :=
  capture_loop h

/-- Capturing fails only at an unbound variable of the list. -/
private theorem capture_loop_error {freeVars : List Ident} {env : Env}
    (h : (freeVars.foldlM (fun env x => return env.bind x (← resolve x)) env : Exec Env) s =
      .error e t) :
    t = s ∧ ∃ x ∈ freeVars, s.lookup? x = none ∧ e = ⟨.unboundVariable x, s.trace⟩ := by
  induction freeVars generalizing env with
  | nil => exact (pure_ne_error.1 h).elim
  | cons x xs ih =>
      rw [List.foldlM_cons, bind_eq_error] at h
      rcases h with h | ⟨env₁, u, h₁, h⟩
      · rcases bind_eq_error.1 h with h | ⟨_, _, -, h⟩
        · obtain ⟨hx, rfl, rfl⟩ := resolve_eq_error.1 h
          exact ⟨rfl, x, List.mem_cons_self, hx, rfl⟩
        · exact (pure_ne_error.1 h).elim
      · obtain ⟨a, v, ha, h₁⟩ := bind_eq_ok.1 h₁
        obtain ⟨-, rfl⟩ := resolve_eq_ok.1 ha
        obtain ⟨-, rfl⟩ := pure_eq_ok.1 h₁
        obtain ⟨ht, y, hy, hfree⟩ := ih h
        exact ⟨ht, y, List.mem_cons_of_mem _ hy, hfree⟩

/-- A right-hand side becomes its object. -/
theorem build_eq_ok {name : Ident} {rhs : Rhs} {o : Object} (h : build name rhs s = .ok o t) :
    s.Interns t ∧ rhs.Builds s.lookup? name o := by
  cases rhs with
  | closure freeVars lambda =>
      obtain ⟨env, u, henv, h⟩ := bind_eq_ok.1 h
      obtain ⟨rfl, rfl⟩ := pure_eq_ok.1 h
      obtain ⟨rfl, hcap⟩ := capture_eq_ok henv
      exact ⟨.refl _, env, hcap, rfl⟩
  | con con args =>
      obtain ⟨atoms, u, hatoms, h⟩ := bind_eq_ok.1 h
      obtain ⟨rfl, rfl⟩ := pure_eq_ok.1 h
      obtain ⟨ht, hall⟩ := arguments_eq_ok hatoms
      exact ⟨ht, atoms, hall, rfl⟩

/-- A right-hand side cannot be built only for an unbound variable of its own. -/
theorem build_eq_error {name : Ident} {rhs : Rhs} (h : build name rhs s = .error e t) :
    s.Interns t ∧ ∃ x ∈ rhs.vars, s.lookup? x = none ∧ e = ⟨.unboundVariable x, s.trace⟩ := by
  cases rhs with
  | closure freeVars lambda =>
      rcases bind_eq_error.1 h with h | ⟨_, _, -, h⟩
      · obtain ⟨rfl, hx⟩ := capture_loop_error h
        exact ⟨.refl _, hx⟩
      · exact (pure_ne_error.1 h).elim
  | con con args =>
      rcases bind_eq_error.1 h with h | ⟨_, _, -, h⟩
      · exact arguments_eq_error h
      · exact (pure_ne_error.1 h).elim

end Exec

/-! ## Groups -/

/-- The members of a group with the addresses from `start` on. -/
def numbered : Addr → List (Ident × Rhs) → List (Addr × Ident × Rhs)
  | _, [] => []
  | start, (x, rhs) :: rest => (start, x, rhs) :: numbered (start + 1) rest

/-- The binders of a group with references to the addresses from `start` on. -/
def references : Addr → List (Ident × Rhs) → List (Ident × Atom)
  | _, [] => []
  | start, (x, _) :: rest => (x, .ptr start) :: references (start + 1) rest

/-- The references of a group are for its binders, in order. -/
theorem map_fst_references (start : Addr) (pairs : List (Ident × Rhs)) :
    (references start pairs).map Prod.fst = pairs.map Prod.fst := by
  induction pairs generalizing start with
  | nil => rfl
  | cons pair rest ih => rw [references, List.map_cons, ih, List.map_cons]

/-- A reference of a group is to one of its addresses. -/
theorem exists_of_mem_references {start : Addr} {pairs : List (Ident × Rhs)} {ref : Ident × Atom}
    (h : ref ∈ references start pairs) : ∃ i < pairs.length, ref.2 = .ptr (start + i) := by
  induction pairs generalizing start with
  | nil => exact absurd h List.not_mem_nil
  | cons pair rest ih =>
      rcases List.mem_cons.1 h with rfl | h
      · exact ⟨0, Nat.succ_pos _, rfl⟩
      · obtain ⟨i, hi, href⟩ := ih h
        refine ⟨i + 1, Nat.succ_lt_succ hi, ?_⟩
        rw [href, Nat.add_assoc, Nat.add_comm 1 i]

/-- Growing the heap twice is growing it once. -/
theorem State.grow_grow (s : State) (slots more : List (Option Object)) :
    (s.grow slots).grow more = s.grow (slots ++ more) := by
  simp only [grow, Array.append_assoc, List.append_toArray]

/-- Growing the heap by nothing changes nothing. -/
theorem State.grow_nil (s : State) : s.grow [] = s := by
  simp only [grow, Array.append_empty]

/-- Storing into the first new slot. -/
theorem State.overwrite_grow (s : State) (slot : Option Object) (slots : List (Option Object))
    (o : Object) : (s.grow (slot :: slots)).overwrite s.heap.size o = (s.grow [some o]).grow slots := by
  rw [grow_grow]
  simp [grow, overwrite]

namespace Exec

variable {s t : State} {e : Fault}

/-- The first member is declared before the others. -/
private theorem declare_cons (bind : Ident → Atom → State → State) (x : Ident) (rhs : Rhs)
    (rest : List (Ident × Rhs)) :
    declare bind ((x, rhs) :: rest) = (do
      let addr ← reserve
      modify (bind x (.ptr addr))
      let members ← declare bind rest
      return (addr, x, rhs) :: members) := by
  simp only [declare, List.mapM_cons, bind_assoc, pure_bind]

/-- A group is declared by handing out the next addresses in order. The binding action commutes with
growing the heap, so all slots can be appended at once. -/
theorem declare_apply (bind : Ident → Atom → State → State)
    (hgrow : ∀ x a s slots, bind x a (s.grow slots) = (bind x a s).grow slots)
    (hsize : ∀ x a s, (bind x a s).heap.size = s.heap.size) (pairs : List (Ident × Rhs)) (s : State) :
    declare bind pairs s =
      .ok (numbered s.heap.size pairs)
        (((references s.heap.size pairs).foldl (fun s pair => bind pair.1 pair.2 s) s).grow
          (List.replicate pairs.length none)) := by
  induction pairs generalizing s with
  | nil =>
      rw [List.length_nil, List.replicate_zero, State.grow_nil]
      rfl
  | cons pair rest ih =>
      obtain ⟨x, rhs⟩ := pair
      -- The slot of the first member is appended before the others are bound; move it behind them.
      have hfold : ∀ (refs : List (Ident × Atom)) (u : State),
          refs.foldl (fun s pair => bind pair.1 pair.2 s) (u.grow [none]) =
            (refs.foldl (fun s pair => bind pair.1 pair.2 s) u).grow [none] := by
        intro refs
        induction refs with
        | nil => intro u; rfl
        | cons ref refs ihr => intro u; rw [List.foldl_cons, hgrow, ihr]; rfl
      have hrest := ih (bind x (.ptr s.heap.size) (s.grow [none]))
      rw [hsize, State.heap_size_grow, hgrow, hfold, State.grow_grow] at hrest
      rw [declare_cons, bind_of_ok reserve_apply, modify_bind, hgrow, bind_of_ok hrest]
      rfl

/-- Storing the object of a member fills the first of the slots that wait. -/
theorem store_member (s : State) (strings : StringTable) (o : Object) (n : Nat) :
    store s.heap.size o ((s.grow (List.replicate (n + 1) none)).withStrings strings) =
      .ok () (((s.withStrings strings).grow [some o]).grow (List.replicate n none)) := by
  rw [store_apply, if_pos (by simp [State.withStrings])]
  exact congrArg (EStateM.Result.ok ()) (State.overwrite_grow (s.withStrings strings) none _ o)

/-- The first member is defined before the others. -/
theorem define_cons (build' : Ident → Rhs → Exec Object) (start : Addr) (x : Ident) (rhs : Rhs)
    (rest : List (Ident × Rhs)) :
    define build' (numbered start ((x, rhs) :: rest)) = (do
      let o ← build' x rhs
      store start o
      define build' (numbered (start + 1) rest)) := by
  rw [← bind_assoc]
  rfl

section Define

-- `scope x s` is the scope in which member `x` is built. What it shows may not depend on the heap
-- and the table of literals, which the loop changes.
variable {build' : Ident → Rhs → Exec Object} (scope : Ident → State → State)
  (hscope : ∀ x (s t : State), s.env = t.env → s.globals = t.globals → s.trace = t.trace →
    s.traceLimit = t.traceLimit →
      (scope x s).lookup? = (scope x t).lookup? ∧ (scope x s).trace = (scope x t).trace)
  (hok : ∀ {x rhs s o t}, build' x rhs s = .ok o t →
    s.Interns t ∧ rhs.Builds (scope x s).lookup? x o)
  (herror : ∀ {x rhs s e t}, build' x rhs s = .error e t →
    s.Interns t ∧ ∃ y ∈ rhs.vars, (scope x s).lookup? y = none ∧
      e = ⟨.unboundVariable y, (scope x s).trace⟩)
include hscope hok

/-- A declared group is defined by putting the built objects into its slots, in order. -/
theorem define_eq_ok {pairs : List (Ident × Rhs)} {u : Unit}
    (h : define build' (numbered s.heap.size pairs) (s.grow (List.replicate pairs.length none)) =
      .ok u t) :
    ∃ strings objects,
      List.Forall₂ (fun pair o => pair.2.Builds (scope pair.1 s).lookup? pair.1 o) pairs objects ∧
      t = (s.withStrings strings).grow (objects.map some) := by
  induction pairs generalizing s with
  | nil =>
      obtain ⟨-, rfl⟩ := pure_eq_ok.1 h
      exact ⟨s.strings, [], .nil, rfl⟩
  | cons pair rest ih =>
      obtain ⟨x, rhs⟩ := pair
      rw [define_cons, bind_eq_ok] at h
      obtain ⟨o, _, ho, h⟩ := h
      obtain ⟨⟨strings, rfl⟩, hbuilt⟩ := hok ho
      -- The empty slots are not in scope, so the member is built as in `s`.
      rw [(hscope x (s.grow (List.replicate ((x, rhs) :: rest).length none)) s rfl rfl rfl rfl).1] at hbuilt
      rw [List.length_cons, bind_of_ok (store_member s strings o _)] at h
      obtain ⟨strings', objects, hall, rfl⟩ :=
        ih (s := (s.withStrings strings).grow [some o]) (by rw [State.heap_size_grow]; exact h)
      refine ⟨strings', o :: objects, .cons hbuilt (hall.imp ?_), ?_⟩
      · intro pair o' h'
        rw [(hscope pair.1 ((s.withStrings strings).grow [some o]) s rfl rfl rfl rfl).1] at h'
        exact h'
      · exact State.grow_grow (s.withStrings strings') [some o] (objects.map some)

include herror

/-- A declared group that cannot be defined has an unbound variable in one of its members; the members
before it are built and the other slots stay empty. -/
theorem define_eq_error {pairs : List (Ident × Rhs)}
    (h : define build' (numbered s.heap.size pairs) (s.grow (List.replicate pairs.length none)) =
      .error e t) :
    ∃ strings done x rhs rest objects, pairs = done ++ (x, rhs) :: rest ∧
      List.Forall₂ (fun pair o => pair.2.Builds (scope pair.1 s).lookup? pair.1 o) done objects ∧
      t = (s.withStrings strings).grow
        (objects.map some ++ List.replicate (rest.length + 1) none) ∧
      ∃ y ∈ rhs.vars, (scope x s).lookup? y = none ∧ e = ⟨.unboundVariable y, (scope x s).trace⟩ := by
  induction pairs generalizing s with
  | nil => exact (pure_ne_error.1 h).elim
  | cons pair rest ih =>
      obtain ⟨x, rhs⟩ := pair
      rw [define_cons, bind_eq_error] at h
      rcases h with h | ⟨o, _, ho, h⟩
      · obtain ⟨⟨strings, rfl⟩, hy⟩ := herror h
        obtain ⟨hlookup, htrace⟩ :=
          hscope x (s.grow (List.replicate ((x, rhs) :: rest).length none)) s rfl rfl rfl rfl
        rw [hlookup, htrace] at hy
        -- The first member fails: nothing is built, and all slots stay empty.
        exact ⟨strings, [], x, rhs, rest, [], rfl, .nil, rfl, hy⟩
      · obtain ⟨⟨strings, rfl⟩, hbuilt⟩ := hok ho
        rw [(hscope x (s.grow (List.replicate ((x, rhs) :: rest).length none)) s rfl rfl rfl rfl).1] at hbuilt
        rw [List.length_cons, bind_of_ok (store_member s strings o _)] at h
        obtain ⟨strings', done, x', rhs', rest', objects, rfl, hall, rfl, hy⟩ :=
          ih (s := (s.withStrings strings).grow [some o]) (by rw [State.heap_size_grow]; exact h)
        obtain ⟨hlookup, htrace⟩ := hscope x' ((s.withStrings strings).grow [some o]) s rfl rfl rfl rfl
        rw [hlookup, htrace] at hy
        refine ⟨strings', (x, rhs) :: done, x', rhs', rest', o :: objects, rfl,
          .cons hbuilt (hall.imp ?_), ?_, hy⟩
        · intro pair o' h'
          rw [(hscope pair.1 ((s.withStrings strings).grow [some o]) s rfl rfl rfl rfl).1] at h'
          exact h'
        · exact State.grow_grow (s.withStrings strings') [some o] _

end Define

/-! ## Bindings -/

/-- A binding of one variable appends its object and binds the variable to it. -/
theorem allocateBinding_nonRec_eq_ok {x : Ident} {rhs : Rhs} {u : Unit}
    (h : allocateBinding (.nonRec x rhs) s = .ok u t) :
    ∃ strings o, rhs.Builds s.lookup? x o ∧
      t = ((s.withStrings strings).grow [some o]).bind x (.ptr s.heap.size) := by
  obtain ⟨o, _, ho, h⟩ := bind_eq_ok.1 h
  obtain ⟨⟨strings, rfl⟩, hbuilt⟩ := build_eq_ok ho
  rw [bind_of_ok (allocate_apply o)] at h
  cases h
  exact ⟨strings, o, hbuilt, rfl⟩

/-- A binding of one variable fails only for an unbound variable of its right-hand side. -/
theorem allocateBinding_nonRec_eq_error {x : Ident} {rhs : Rhs}
    (h : allocateBinding (.nonRec x rhs) s = .error e t) :
    s.Interns t ∧ ∃ y ∈ rhs.vars, s.lookup? y = none ∧ e = ⟨.unboundVariable y, s.trace⟩ := by
  rcases bind_eq_error.1 h with h | ⟨o, u, -, h⟩
  · exact build_eq_error h
  · rw [bind_of_ok (allocate_apply o)] at h
    cases h

/-- Binding a list of variables is binding them one after the other. -/
theorem foldl_bind (refs : List (Ident × Atom)) (s : State) :
    refs.foldl (fun s pair => s.bind pair.1 pair.2) s = s.bindAll refs := by
  induction refs generalizing s with
  | nil => rfl
  | cons ref refs ih => rw [List.foldl_cons, ih]; rfl

/-- A group is declared in the current environment. -/
theorem declare_local (pairs : List (Ident × Rhs)) (s : State) :
    declare (fun x a s => s.bind x a) pairs s =
      .ok (numbered s.heap.size pairs)
        ((s.bindAll (references s.heap.size pairs)).grow (List.replicate pairs.length none)) := by
  rw [declare_apply (fun x a s => s.bind x a) (fun _ _ _ _ => rfl) (fun _ _ _ => rfl), foldl_bind]

/-- A group appends its objects and binds its variables to them, each built with all of them bound. -/
theorem allocateBinding_group_eq_ok {pairs : List (Ident × Rhs)} {u : Unit}
    (h : allocateBinding (.group pairs) s = .ok u t) :
    ∃ strings objects,
      List.Forall₂ (fun pair o =>
        pair.2.Builds (s.bindAll (references s.heap.size pairs)).lookup? pair.1 o) pairs objects ∧
      t = ((s.bindAll (references s.heap.size pairs)).withStrings strings).grow
        (objects.map some) := by
  rw [allocateBinding, bind_of_ok (declare_local pairs s)] at h
  refine define_eq_ok (fun _ s => s) (s := s.bindAll (references s.heap.size pairs)) ?_
    build_eq_ok h
  rintro x ⟨⟩ ⟨⟩ rfl rfl rfl rfl
  exact ⟨rfl, rfl⟩

/-- A group that cannot be built has an unbound variable in one of its members. Its addresses stay
handed out: those of the members before it are filled, the others are not. -/
theorem allocateBinding_group_eq_error {pairs : List (Ident × Rhs)}
    (h : allocateBinding (.group pairs) s = .error e t) :
    ∃ strings done x rhs rest objects, pairs = done ++ (x, rhs) :: rest ∧
      List.Forall₂ (fun pair o =>
        pair.2.Builds (s.bindAll (references s.heap.size pairs)).lookup? pair.1 o) done objects ∧
      t = ((s.bindAll (references s.heap.size pairs)).withStrings strings).grow
        (objects.map some ++ List.replicate (rest.length + 1) none) ∧
      ∃ y ∈ rhs.vars, (s.bindAll (references s.heap.size pairs)).lookup? y = none ∧
        e = ⟨.unboundVariable y, s.trace⟩ := by
  rw [allocateBinding, bind_of_ok (declare_local pairs s)] at h
  refine define_eq_error (fun _ s => s) (s := s.bindAll (references s.heap.size pairs)) ?_
    build_eq_ok build_eq_error h
  rintro x ⟨⟩ ⟨⟩ rfl rfl rfl rfl
  exact ⟨rfl, rfl⟩

/-! ## Top-level bindings -/

/-- An action in another scope succeeds as it does there. -/
theorem within_eq_ok {α : Type} {name : Ident} {env : Env} {action : Exec α} {a : α}
    (h : within name env action s = .ok a t) :
    ∃ u, action (s.enterScope name env) = .ok a u ∧ t = u.restoreScope s.env s.trace := by
  unfold within at h
  cases haction : action (s.enterScope name env) with
  | ok b u => rw [haction] at h; cases h; exact ⟨u, rfl, rfl⟩
  | error f u => rw [haction] at h; cases h

/-- An action in another scope fails as it does there. -/
theorem within_eq_error {α : Type} {name : Ident} {env : Env} {action : Exec α}
    (h : within name env action s = .error e t) :
    ∃ u, action (s.enterScope name env) = .error e u ∧ t = u.restoreScope s.env s.trace := by
  unfold within at h
  cases haction : action (s.enterScope name env) with
  | ok b u => rw [haction] at h; cases h
  | error f u => rw [haction] at h; cases h; exact ⟨u, rfl, rfl⟩

/-- Binding top-level variables is binding them one after the other. -/
theorem foldl_bindGlobal (refs : List (Ident × Atom)) (s : State) :
    refs.foldl (fun s pair => s.bindGlobal pair.1 pair.2) s =
      { s with globals := s.globals.extend refs } := by
  induction refs generalizing s with
  | nil => rfl
  | cons ref refs ih => rw [List.foldl_cons, ih]; rfl

/-- The state in which the top-level variables of a program are declared. -/
def declared (s : State) (pairs : List (Ident × Rhs)) : State :=
  { s with globals := s.globals.extend (references s.heap.size pairs) }

/-- The top-level variables of a program are declared in the top-level environment. -/
theorem declare_global (pairs : List (Ident × Rhs)) (s : State) :
    declare (fun x a s => s.bindGlobal x a) pairs s =
      .ok (numbered s.heap.size pairs)
        ((declared s pairs).grow (List.replicate pairs.length none)) := by
  rw [declare_apply (fun x a s => s.bindGlobal x a) (fun _ _ _ _ => rfl) (fun _ _ _ => rfl),
    foldl_bindGlobal]
  rfl

/-- A top-level right-hand side is built where only top-level variables are bound. -/
private theorem build_within_eq_ok {x : Ident} {rhs : Rhs} {o : Object}
    (h : within x .empty (build x rhs) s = .ok o t) :
    s.Interns t ∧ rhs.Builds (s.enterScope x .empty).lookup? x o := by
  obtain ⟨v, hv, rfl⟩ := within_eq_ok h
  obtain ⟨⟨strings, rfl⟩, hbuilt⟩ := build_eq_ok hv
  exact ⟨⟨strings, rfl⟩, hbuilt⟩

/-- A top-level right-hand side cannot be built only for a variable that is not bound there. -/
private theorem build_within_eq_error {x : Ident} {rhs : Rhs}
    (h : within x .empty (build x rhs) s = .error e t) :
    s.Interns t ∧ ∃ y ∈ rhs.vars, (s.enterScope x .empty).lookup? y = none ∧
      e = ⟨.unboundVariable y, (s.enterScope x .empty).trace⟩ := by
  obtain ⟨v, hv, rfl⟩ := within_eq_error h
  obtain ⟨⟨strings, rfl⟩, hy⟩ := build_eq_error hv
  exact ⟨⟨strings, rfl⟩, hy⟩

/-- Top-level bindings append their objects to the heap, each built where only top-level variables
are bound. -/
theorem allocateGlobals_eq_ok {pairs : List (Ident × Rhs)} {u : Unit}
    (h : allocateGlobals pairs s = .ok u t) :
    ∃ strings objects,
      List.Forall₂ (fun pair o =>
        pair.2.Builds ((declared s pairs).enterScope pair.1 .empty).lookup? pair.1 o) pairs objects ∧
      t = ((declared s pairs).withStrings strings).grow (objects.map some) := by
  rw [allocateGlobals, bind_of_ok (declare_global pairs s)] at h
  refine define_eq_ok (fun x s => s.enterScope x .empty) (s := declared s pairs) ?_
    build_within_eq_ok h
  rintro x ⟨⟩ ⟨⟩ rfl rfl rfl rfl
  exact ⟨rfl, rfl⟩

/-- Top-level bindings fail only for a variable that is not bound at top level. -/
theorem allocateGlobals_eq_error {pairs : List (Ident × Rhs)}
    (h : allocateGlobals pairs s = .error e t) :
    ∃ strings done x rhs rest objects, pairs = done ++ (x, rhs) :: rest ∧
      List.Forall₂ (fun pair o =>
        pair.2.Builds ((declared s pairs).enterScope pair.1 .empty).lookup? pair.1 o) done objects ∧
      t = ((declared s pairs).withStrings strings).grow
        (objects.map some ++ List.replicate (rest.length + 1) none) ∧
      ∃ y ∈ rhs.vars, ((declared s pairs).enterScope x .empty).lookup? y = none ∧
        e = ⟨.unboundVariable y, ((declared s pairs).enterScope x .empty).trace⟩ := by
  rw [allocateGlobals, bind_of_ok (declare_global pairs s)] at h
  refine define_eq_error (fun x s => s.enterScope x .empty) (s := declared s pairs) ?_
    build_within_eq_ok build_within_eq_error h
  rintro x ⟨⟩ ⟨⟩ rfl rfl rfl rfl
  exact ⟨rfl, rfl⟩

end Exec

end Spineless
