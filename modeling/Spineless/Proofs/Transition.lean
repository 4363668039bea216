import Spineless.Machine.Step
import Spineless.Proofs.Allocation

/-!
# What a transition does

`Transition` lists the ways in which a run goes on, `Failure` the ways in which it fails. Each rule
gives the guards that were passed and the state that is left, in terms of the changes named in
`Spineless.Proofs.Action`. Later modules argue by cases over these two relations and unfold no action.

A rule may allow any table of literals in the state that it leaves, so the relations say a little less
than `step`: what a string literal is numbered does not matter to any of the invariants.
-/

namespace Spineless

/-! ## Parts of transitions -/

/-- Whether an object is in weak head normal form. -/
def Object.isValue : Object → Bool
  | .con _ _ => true
  | .closure c => !c.isThunk
  | .blackhole _ => false

/-- An atom in weak head normal form: no reference, or a reference to a value. -/
def State.Evaluated (s : State) (a : Atom) : Prop :=
  ∀ p, a = .ptr p → ∃ o, s.object? p = some o ∧ o.isValue = true

/-- A closure with more arguments, too few to run it. -/
def Closure.supply (c : Closure) (args : List Atom) : Closure :=
  { c with args := c.args ++ args, missing := c.missing - args.length }

/-- The environment in which the code of a closure runs once it has all its arguments. -/
def Closure.scope (c : Closure) (args : List Atom) : Env :=
  c.env.extend (c.lambda.params.zip (c.args ++ args.take c.missing))

/-- The state in which the value of a scrutinee is bound, if there is exactly one. -/
def State.bindValue (s : State) (binder : Ident) : List Atom → State
  | [value] => s.bind binder value
  | _ => s

/-- Binding the value of a scrutinee changes the environment only. -/
theorem State.bindValue_eq (s : State) (binder : Ident) (atoms : List Atom) :
    ∃ env, s.bindValue binder atoms = s.restoreScope env s.trace := by
  rcases atoms with _ | ⟨value, _ | ⟨other, more⟩⟩
  · exact ⟨s.env, rfl⟩
  · exact ⟨s.env.bind binder value, rfl⟩
  · exact ⟨s.env, rfl⟩

/-- The variables that are looked up to evaluate an expression by one transition, those of a recursive
group apart. -/
def Expr.lookups : Expr → List Ident
  | .app callee args => callee :: args.filterMap Arg.var?
  | .conApp _ args | .multiVal args | .opApp _ args _ _ => args.filterMap Arg.var?
  | .letIn (.nonRec _ rhs) _ => rhs.vars
  | .lit _ | .case .. | .letIn (.group _) _ => []

/-- The constructor that an alternative is matched against: the one behind a single reference, if some
alternative asks for it. -/
inductive Scrutinises (s : State) (alts : List Alt) : List Atom → Option (DataCon × List Atom) → Prop
  /-- No constructor is asked for, or the values are not one reference. -/
  | none {atoms : List Atom} (unasked : alts.any Alt.isData = true → ∀ p, atoms ≠ [.ptr p]) :
      Scrutinises s alts atoms none
  /-- The constructor behind the reference. -/
  | some {a : Addr} {k : DataCon} {fields : List Atom} (asked : alts.any Alt.isData = true)
      (found : s.object? a = some (.con k fields)) : Scrutinises s alts [.ptr a] (some (k, fields))

/-- The alternative that is taken is one of the alternatives, and receives no fields, the returned
values or the fields of the constructor. -/
theorem Alt.first?_cases {alts : List Alt} {altType : AltType} {atoms fields : List Atom}
    {scrutinee : Option (DataCon × List Atom)} {alt : Alt}
    (h : Alt.first? alts altType atoms scrutinee = some (alt, fields)) :
    alt ∈ alts ∧ (fields = [] ∨ fields = atoms ∨ ∃ k, scrutinee = some (k, fields)) := by
  obtain ⟨alt', hmem, hfields⟩ := List.exists_of_findSome?_eq_some h
  obtain ⟨values, hvalues, heq⟩ := Option.map_eq_some_iff.1 hfields
  cases heq
  refine ⟨hmem, ?_⟩
  unfold Alt.fields? at hvalues
  split at hvalues
  · split at hvalues
    · exact .inr (.inl (Option.some.inj hvalues).symm)
    · exact .inl (Option.some.inj hvalues).symm
  · split at hvalues
    · split at hvalues
      · cases hvalues
        exact .inr (.inr ⟨_, rfl⟩)
      · cases hvalues
    · cases hvalues
  · split at hvalues
    · split at hvalues
      · exact .inl (Option.some.inj hvalues).symm
      · cases hvalues
    · cases hvalues

/-! ## Transitions that go on -/

/-- The next piece of work and the next state of a run. -/
inductive Transition (r : Registry) (base : Nat) : Code → State → Code → State → Prop
  /-- A variable is entered, and its arguments wait for the result. -/
  | app {s : State} {callee : Ident} {args : List Arg} {f : Atom} {atoms : List Atom}
      {strings : StringTable} (head : s.lookup? callee = some f)
      (denotes : List.Forall₂ (Arg.Denotes s.lookup?) args atoms) (room : atoms = [] ∨ s.HasRoom) :
      Transition r base (.eval (.app callee args)) s (.enter f) ((s.withStrings strings).pushArgs atoms)
  /-- A literal is returned. -/
  | lit {s : State} {l : Lit} {a : Atom} {strings : StringTable}
      (literal : (Arg.lit l).Denotes s.lookup? a) :
      Transition r base (.eval (.lit l)) s (.ret [a]) (s.withStrings strings)
  /-- A constructor is allocated and returned. -/
  | conApp {s : State} {k : DataCon} {args : List Arg} {atoms : List Atom} {strings : StringTable}
      (denotes : List.Forall₂ (Arg.Denotes s.lookup?) args atoms) :
      Transition r base (.eval (.conApp k args)) s (.ret [.ptr s.heap.size])
        ((s.withStrings strings).grow [some (.con k atoms)])
  /-- Values are returned. -/
  | multiVal {s : State} {args : List Arg} {atoms : List Atom} {strings : StringTable}
      (denotes : List.Forall₂ (Arg.Denotes s.lookup?) args atoms) :
      Transition r base (.eval (.multiVal args)) s (.ret atoms) (s.withStrings strings)
  /-- The values of a primitive operation are returned. -/
  | opApp {s t : State} {op : String} {args : List Arg} {resultType : ResultType}
      {resultTyCon : Option TyCon} {atoms results : List Atom} {strings : StringTable}
      (denotes : List.Forall₂ (Arg.Denotes s.lookup?) args atoms)
      (evaluate : r.evaluate ⟨op, atoms, resultType, resultTyCon⟩ (s.withStrings strings) =
        .ok results t) :
      Transition r base (.eval (.opApp op args resultType resultTyCon)) s (.ret results) t
  /-- A scrutinee is evaluated, and its alternatives wait for the result. -/
  | case {s : State} {scrutinee : Expr} {binder : Ident} {altType : AltType} {alts : List Alt}
      (room : s.HasRoom) :
      Transition r base (.eval (.case scrutinee binder altType alts)) s (.eval scrutinee)
        ((s.pushed (.caseOf binder altType alts)).pushTrace binder)
  /-- One binding is allocated. -/
  | letOne {s : State} {x : Ident} {rhs : Rhs} {body : Expr} {o : Object} {strings : StringTable}
      (builds : rhs.Builds s.lookup? x o) :
      Transition r base (.eval (.letIn (.nonRec x rhs) body)) s (.eval body)
        (((s.withStrings strings).grow [some o]).bind x (.ptr s.heap.size))
  /-- A group is allocated. -/
  | letGroup {s : State} {pairs : List (Ident × Rhs)} {body : Expr} {objects : List Object}
      {strings : StringTable}
      (builds : List.Forall₂ (fun pair o =>
        pair.2.Builds (s.bindAll (references s.heap.size pairs)).lookup? pair.1 o) pairs objects) :
      Transition r base (.eval (.letIn (.group pairs) body)) s (.eval body)
        (((s.bindAll (references s.heap.size pairs)).withStrings strings).grow (objects.map some))
  /-- What is no heap reference is its own value. -/
  | enterScalar {s : State} {a : Atom} (scalar : a.addr? = none) :
      Transition r base (.enter a) s (.ret [a]) s
  /-- A value is returned. -/
  | enterValue {s : State} {p : Addr} {o : Object} (found : s.object? p = some o)
      (value : o.isValue) : Transition r base (.enter (.ptr p)) s (.ret [.ptr p]) s
  /-- A thunk is covered by a blackhole, and its code runs. -/
  | enterThunk {s : State} {p : Addr} {c : Closure} (found : s.object? p = some (.closure c))
      (thunk : c.missing = 0) (room : s.HasRoom) :
      Transition r base (.enter (.ptr p)) s (.eval c.lambda.body)
        (((s.overwrite p (.blackhole (.closure c))).pushed (.update p)).enterScope c.name c.env)
  /-- A thunk is overwritten by the object of its result. -/
  | update {s : State} {frame : Frame} {rest : Stack} {target result : Addr} {o : Object}
      (pop : s.stack.pop? = some (frame, rest)) (depth : base < s.stack.depth)
      (cont : frame.cont = .update target) (found : s.object? result = some o)
      (known : target < s.heap.size) :
      Transition r base (.ret [.ptr result]) s (.ret [.ptr result])
        ((s.resumed frame rest).overwrite target o)
  /-- Too few arguments make a partial application. -/
  | applyPartial {s : State} {frame : Frame} {rest : Stack} {args : List Atom} {p : Addr} {c : Closure}
      (pop : s.stack.pop? = some (frame, rest)) (depth : base < s.stack.depth)
      (cont : frame.cont = .apply args) (found : s.object? p = some (.closure c))
      (few : args.length < c.missing) :
      Transition r base (.ret [.ptr p]) s (.ret [.ptr s.heap.size])
        ((s.resumed frame rest).grow [some (.closure (c.supply args))])
  /-- Enough arguments run the code of a function, and those left over wait for the result. -/
  | applyFull {s : State} {frame : Frame} {rest : Stack} {args : List Atom} {p : Addr} {c : Closure}
      (pop : s.stack.pop? = some (frame, rest)) (depth : base < s.stack.depth)
      (cont : frame.cont = .apply args) (found : s.object? p = some (.closure c))
      (misses : 0 < c.missing) (enough : c.missing ≤ args.length)
      (room : args.drop c.missing = [] ∨ (s.resumed frame rest).HasRoom) :
      Transition r base (.ret [.ptr p]) s (.eval c.lambda.body)
        (((s.resumed frame rest).pushArgs (args.drop c.missing)).enterScope c.name (c.scope args))
  /-- The first alternative that matches is taken. -/
  | select {s : State} {frame : Frame} {rest : Stack} {binder : Ident} {altType : AltType}
      {alts : List Alt} {atoms fields : List Atom} {scrutinee : Option (DataCon × List Atom)} {alt : Alt}
      (pop : s.stack.pop? = some (frame, rest)) (depth : base < s.stack.depth)
      (cont : frame.cont = .caseOf binder altType alts) (reads : Scrutinises s alts atoms scrutinee)
      (first : Alt.first? alts altType atoms scrutinee = some (alt, fields)) :
      Transition r base (.ret atoms) s (.eval alt.rhs)
        (((s.resumed frame rest).bindValue binder atoms).bindAll (alt.binders.zip fields))

/-! ## Transitions that fail -/

/-- Why a continuation fails on returned values, in the state in which it is resumed. -/
inductive Rejected (s : State) (atoms : List Atom) : Continuation → Cause → Prop
  /-- A thunk returned something other than one heap reference. -/
  | notAReference {target : Addr} (values : ∀ p, atoms ≠ [.ptr p]) :
      Rejected s atoms (.update target) (.invalidUpdate target atoms)
  /-- The thunk to overwrite was never handed out. -/
  | unknownTarget {target : Addr} (unknown : ¬ target < s.heap.size) :
      Rejected s atoms (.update target) (.unknownAddress target)
  /-- The returned reference has no object. -/
  | dangling {k : Continuation} {p : Addr} (values : atoms = [.ptr p]) (found : s.object? p = none) :
      Rejected s atoms k (.unknownAddress p)
  /-- The returned values are no function. -/
  | notAFunction {args : List Atom} (found : NonFunction) :
      Rejected s atoms (.apply args) (.notAFunction found)
  /-- There is no room for the arguments left over. -/
  | overflow {args : List Atom} (full : ¬ s.HasRoom) :
      Rejected s atoms (.apply args) (.stackOverflow s.maxStackDepth)
  /-- The scrutinee is no constructor. -/
  | notAConstructor {binder : Ident} {altType : AltType} {alts : List Alt} {p : Addr} {o : Object}
      (values : atoms = [.ptr p]) (found : s.object? p = some o) :
      Rejected s atoms (.caseOf binder altType alts) (.notAConstructor p o.shape)
  /-- No alternative matches. -/
  | noMatch {binder : Ident} {altType : AltType} {alts : List Alt} (shown : Unmatched) :
      Rejected s atoms (.caseOf binder altType alts) (.nonExhaustiveMatch binder shown)

/-- The fault and the state of a run that fails. -/
inductive Failure (r : Registry) (base : Nat) : Code → State → Fault → State → Prop
  /-- A variable is not bound. -/
  | unbound {s : State} {e : Expr} {x : Ident} {strings : StringTable} (lookup : x ∈ e.lookups)
      (missing : s.lookup? x = none) :
      Failure r base (.eval e) s ⟨.unboundVariable x, s.trace⟩ (s.withStrings strings)
  /-- A variable of a member of a group is not bound. The addresses of the group stay handed out. -/
  | unboundMember {s : State} {done rest : List (Ident × Rhs)} {x : Ident} {rhs : Rhs} {body : Expr}
      {objects : List Object} {y : Ident} {strings : StringTable} {bound : List (Ident × Atom)}
      (binds : bound = references s.heap.size (done ++ (x, rhs) :: rest))
      (builds : List.Forall₂ (fun pair o => pair.2.Builds (s.bindAll bound).lookup? pair.1 o) done objects)
      (lookup : y ∈ rhs.vars) (missing : (s.bindAll bound).lookup? y = none) :
      Failure r base (.eval (.letIn (.group (done ++ (x, rhs) :: rest)) body)) s
        ⟨.unboundVariable y, s.trace⟩
        (((s.bindAll bound).withStrings strings).grow
          (objects.map some ++ List.replicate (rest.length + 1) none))
  /-- There is no room for the continuation of an expression. -/
  | overflow {s : State} {e : Expr} {strings : StringTable} (full : ¬ s.HasRoom) :
      Failure r base (.eval e) s ⟨.stackOverflow s.maxStackDepth, s.trace⟩ (s.withStrings strings)
  /-- A primitive operation fails. -/
  | operation {s t : State} {op : String} {args : List Arg} {resultType : ResultType}
      {resultTyCon : Option TyCon} {atoms : List Atom} {strings : StringTable} {e : Fault}
      (denotes : List.Forall₂ (Arg.Denotes s.lookup?) args atoms)
      (evaluate : r.evaluate ⟨op, atoms, resultType, resultTyCon⟩ (s.withStrings strings) = .error e t) :
      Failure r base (.eval (.opApp op args resultType resultTyCon)) s e t
  /-- A reference without an object is entered. -/
  | dangling {s : State} {p : Addr} (found : s.object? p = none) :
      Failure r base (.enter (.ptr p)) s ⟨.unknownAddress p, s.trace⟩ s
  /-- A blackhole is entered. -/
  | blackholed {s : State} {p : Addr} {o : Object} (found : s.object? p = some (.blackhole o)) :
      Failure r base (.enter (.ptr p)) s ⟨.blackholeEntered p, s.trace⟩ s
  /-- There is no room for the frame of a thunk, which is covered by then. -/
  | covered {s : State} {p : Addr} {c : Closure} (found : s.object? p = some (.closure c))
      (thunk : c.missing = 0) (full : ¬ s.HasRoom) :
      Failure r base (.enter (.ptr p)) s ⟨.stackOverflow s.maxStackDepth, s.trace⟩
        (s.overwrite p (.blackhole (.closure c)))
  /-- A continuation fails on the returned values. It may have bound the scrutinee's. -/
  | rejected {s : State} {frame : Frame} {rest : Stack} {atoms : List Atom} {cause : Cause} {env : Env}
      (pop : s.stack.pop? = some (frame, rest)) (depth : base < s.stack.depth)
      (why : Rejected (s.resumed frame rest) atoms frame.cont cause) :
      Failure r base (.ret atoms) s ⟨cause, frame.trace⟩
        ((s.resumed frame rest).restoreScope env frame.trace)

end Spineless
