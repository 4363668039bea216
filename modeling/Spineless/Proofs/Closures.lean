import Spineless.Proofs.Reentrancy
import Spineless.Proofs.Scoping

/-!
# Closures and where they come from

A thunk, a function and a partial application are one record, told apart by the number of arguments that
are still missing. `Closure.WellFormed` says that this number never drifts: with the arguments that were
supplied it makes up the parameters, and it is zero only where there are none. It also says where the
closure comes from: some right-hand side of a program that was loaded or of an expression that was
evaluated has its code, and the closure captured exactly the variables listed there.

So when the code of a closure is entered there is one value for each parameter, and nothing is in scope but
the listed variables and the parameters (`Session.closures_wellFormed`).
-/

namespace Spineless

open Snapshot

variable {host : Host}

/-! ## The closures of a program -/

mutual

/-- All closures in an expression: their listed variables and their code. -/
def Expr.closures : Expr → List (List Ident × Lambda)
  | .case scrutinee _ _ alts => scrutinee.closures ++ Alt.closures alts
  | .letIn binding body => binding.closures ++ body.closures
  | .app .. | .lit _ | .conApp .. | .multiVal _ | .opApp .. => []

/-- All closures in some alternatives. -/
def Alt.closures : List Alt → List (List Ident × Lambda)
  | [] => []
  | ⟨_, _, rhs⟩ :: rest => rhs.closures ++ Alt.closures rest

/-- All closures in a right-hand side, the one that it is included. -/
def Rhs.closures : Rhs → List (List Ident × Lambda)
  | .closure freeVars ⟨params, body⟩ => (freeVars, ⟨params, body⟩) :: body.closures
  | .con .. => []

/-- All closures in some right-hand sides. -/
def Rhs.closuresAll : List (Ident × Rhs) → List (List Ident × Lambda)
  | [] => []
  | (_, rhs) :: rest => rhs.closures ++ Rhs.closuresAll rest

/-- All closures in a binding. -/
def Binding.closures : Binding → List (List Ident × Lambda)
  | .nonRec _ rhs => rhs.closures
  | .group pairs => Rhs.closuresAll pairs

end

/-- All closures in what a call brings to a machine: a program to load or an expression to evaluate. -/
def Command.closures : Command → List (List Ident × Lambda)
  | .load p => Rhs.closuresAll p.pairs
  | .eval _ _ e => e.closures
  | .runEntry | .force _ => []

/-- All closures in what the calls of a session brought. -/
def Event.closuresAll (events : List Event) : List (List Ident × Lambda) :=
  events.flatMap fun event => event.command.closures

theorem Alt.closures_eq (alts : List Alt) :
    Alt.closures alts = alts.flatMap fun alt => alt.rhs.closures := by
  induction alts with
  | nil => rw [Alt.closures, List.flatMap_nil]
  | cons alt rest ih =>
      obtain ⟨con, binders, rhs⟩ := alt
      rw [Alt.closures, ih, List.flatMap_cons]

theorem Rhs.closuresAll_eq (pairs : List (Ident × Rhs)) :
    Rhs.closuresAll pairs = pairs.flatMap fun pair => pair.2.closures := by
  induction pairs with
  | nil => rw [Rhs.closuresAll, List.flatMap_nil]
  | cons pair rest ih => rw [Rhs.closuresAll, ih, List.flatMap_cons]

theorem Rhs.closures_subset {pairs : List (Ident × Rhs)} {pair : Ident × Rhs} (h : pair ∈ pairs) :
    pair.2.closures ⊆ Rhs.closuresAll pairs := by
  intro closure hclosure
  rw [Rhs.closuresAll_eq]
  exact List.mem_flatMap.2 ⟨pair, h, hclosure⟩

theorem Binding.closures_eq (binding : Binding) : binding.closures = Rhs.closuresAll binding.pairs := by
  cases binding with
  | nonRec x rhs => rw [Binding.closures, Binding.pairs, Rhs.closuresAll, Rhs.closuresAll, List.append_nil]
  | group pairs => rw [Binding.closures, Binding.pairs]

/-! ## Closures in the heap -/

/-- A closure of the machine that agrees with a closure of the source. -/
structure Closure.WellFormed (sources : List (List Ident × Lambda)) (c : Closure) : Prop where
  /-- What was supplied and what is missing make up the parameters. -/
  arity : c.args.length + c.missing = c.lambda.params.length
  /-- Nothing is missing exactly where there are no parameters. -/
  thunk : c.missing = 0 ↔ c.lambda.params = []
  /-- A closure of the source has the code and lists the captured variables. -/
  source : ∃ freeVars, (freeVars, c.lambda) ∈ sources ∧
    ∀ key, (c.env.find? key).isSome ↔ key ∈ keys freeVars
  /-- The closures in the code are closures of the source. -/
  body : c.lambda.body.closures ⊆ sources

/-- An object is a closure, or a blackhole over it. -/
def Object.Holds (c : Closure) : Object → Prop
  | .con .. => False
  | .closure c' => c' = c
  | .blackhole covered => covered.Holds c

/-- All closures in an object agree with the source. -/
def Object.WellFormed (sources : List (List Ident × Lambda)) (o : Object) : Prop :=
  ∀ c, o.Holds c → c.WellFormed sources

/-- All closures in the heap of a state agree with the source. -/
def State.WellFormed (sources : List (List Ident × Lambda)) (s : State) : Prop :=
  ∀ a o, s.object? a = some o → o.WellFormed sources

/-- All closures in a snapshot, and all that the code in it may build, agree with the source. -/
structure Snapshot.WellFormed (sources : List (List Ident × Lambda)) (d : Snapshot) : Prop where
  heap : d.state.WellFormed sources
  frames : ∀ f ∈ d.state.stack.frames, ∀ binder altType alts, f.cont = .caseOf binder altType alts →
    Alt.closures alts ⊆ sources
  code : ∀ e, d.code = .eval e → e.closures ⊆ sources

section Heap

variable {sources more : List (List Ident × Lambda)}

theorem Closure.WellFormed.mono {c : Closure} (h : c.WellFormed sources) (hmore : sources ⊆ more) :
    c.WellFormed more := by
  obtain ⟨freeVars, hsource, hkeys⟩ := h.source
  exact ⟨h.arity, h.thunk, ⟨freeVars, hmore hsource, hkeys⟩, fun _ hclosure => hmore (h.body hclosure)⟩

theorem State.WellFormed.mono {s : State} (h : s.WellFormed sources) (hmore : sources ⊆ more) :
    s.WellFormed more :=
  fun a o ho c hc => (h a o ho c hc).mono hmore

theorem Object.wellFormed_con {k : DataCon} {atoms : List Atom} :
    (Object.con k atoms).WellFormed sources :=
  fun _ hc => hc.elim

theorem Closure.WellFormed.object {c : Closure} (h : c.WellFormed sources) :
    (Object.closure c).WellFormed sources := by
  intro c' hc
  cases hc
  exact h

/-- A captured environment binds the listed variables and no others. -/
theorem Captures.isSome_find? {lookup : Ident → Option Atom} {freeVars : List Ident} {env : Env}
    (h : Captures lookup freeVars env) (key : String) : (env.find? key).isSome ↔ key ∈ keys freeVars := by
  obtain ⟨atoms, hatoms, rfl⟩ := h
  rw [Env.ofList, Env.isSome_find?_extend, List.map_fst_zip (Nat.le_of_eq hatoms.length_eq)]
  simp [Env.find?, Env.empty]

/-- What a right-hand side of the source becomes. -/
theorem Rhs.Builds.wellFormed {lookup : Ident → Option Atom} {rhs : Rhs} {name : Ident} {o : Object}
    (hbuilds : rhs.Builds lookup name o) (h : rhs.closures ⊆ sources) : o.WellFormed sources := by
  cases rhs with
  | con k args =>
      obtain ⟨atoms, -, rfl⟩ := hbuilds
      exact Object.wellFormed_con
  | closure freeVars lambda =>
      obtain ⟨env, hcaptures, rfl⟩ := hbuilds
      obtain ⟨params, body⟩ := lambda
      rw [Rhs.closures] at h
      refine Closure.WellFormed.object ⟨Nat.zero_add _, List.length_eq_zero_iff, ?_, ?_⟩
      · exact ⟨freeVars, h List.mem_cons_self, hcaptures.isSome_find?⟩
      · exact fun _ hclosure => h (List.mem_cons_of_mem _ hclosure)

/-- A partial application still misses an argument, and has the code and the environment of its
function. -/
theorem Closure.WellFormed.supply {c : Closure} {args : List Atom} (h : c.WellFormed sources)
    (hfew : args.length < c.missing) : (c.supply args).WellFormed sources := by
  have harity := h.arity
  refine ⟨?_, ?_, h.source, h.body⟩
  · simp only [Closure.supply, List.length_append]
    omega
  · have hne : c.lambda.params ≠ [] := by
      intro hnil
      rw [hnil, List.length_nil] at harity
      omega
    simp only [Closure.supply]
    exact ⟨fun hzero => by omega, fun hnil => absurd hnil hne⟩

end Heap

/-! ## Closures that run -/

/-- The closure that a snapshot enters or applies next, and the arguments that it gets. -/
def Snapshot.call? (d : Snapshot) : Option (Addr × List Atom) :=
  match d.code, d.state.stack.pop? with
  | .enter (.ptr a), _ => some (a, [])
  | .ret [.ptr a], some (⟨.apply args, _, _⟩, _) => some (a, args)
  | _, _ => none

/-- An environment in which the code of a closure runs on some more arguments: each parameter has its
argument, and nothing else is in scope but the variables that the source lists. -/
structure Closure.RunsIn (sources : List (List Ident × Lambda)) (c : Closure) (args : List Atom)
    (env : Env) : Prop where
  /-- There is one argument for each parameter. -/
  complete : (c.args ++ args.take c.missing).length = c.lambda.params.length
  /-- A parameter is bound to its own argument, unless its key is repeated further on. -/
  bound : ∀ (i : Nat) (x : Ident), c.lambda.params[i]? = some x →
    (∀ y ∈ c.lambda.params.drop (i + 1), y.key ≠ x.key) → env.get? x = (c.args ++ args.take c.missing)[i]?
  /-- The listed variables and the parameters are in scope, and no others. -/
  scope : ∃ freeVars, (freeVars, c.lambda) ∈ sources ∧
    ∀ key, (env.find? key).isSome ↔ key ∈ keys freeVars ∨ key ∈ keys c.lambda.params

/-- Of variables bound in order, one is bound to its own atom unless its key is bound again. -/
theorem Env.get?_extend_zip {e : Env} {params : List Ident} {values : List Atom} {i : Nat} {x : Ident}
    (hlength : values.length = params.length) (hx : params[i]? = some x)
    (hlast : ∀ y ∈ params.drop (i + 1), y.key ≠ x.key) :
    (e.extend (params.zip values)).get? x = values[i]? := by
  induction params generalizing e values i with
  | nil => cases hx
  | cons param rest ih =>
      obtain ⟨value, more, rfl⟩ := List.exists_cons_of_length_eq_add_one hlength
      have hrest : more.length = rest.length := Nat.succ.inj hlength
      have hextend : e.extend ((param :: rest).zip (value :: more)) =
          (e.bind param value).extend (rest.zip more) := rfl
      rw [hextend]
      cases i with
      | zero =>
          cases hx
          have hkey : x.key ∉ keys ((rest.zip more).map Prod.fst) := by
            rw [List.map_fst_zip (Nat.le_of_eq hrest.symm)]
            intro hmem
            obtain ⟨y, hy, heq⟩ := List.mem_map.1 hmem
            exact hlast y hy heq
          rw [Env.get?, Env.find?_extend_of_notMem hkey]
          exact (Env.get?_bind e x x value).trans (if_pos rfl)
      | succ i => exact ih hrest hx hlast

/-- A closure runs once it gets what it misses. -/
theorem Closure.WellFormed.runsIn {sources : List (List Ident × Lambda)} {c : Closure} {args : List Atom}
    (h : c.WellFormed sources) (henough : c.missing ≤ args.length) : c.RunsIn sources args (c.scope args) := by
  have hcomplete : (c.args ++ args.take c.missing).length = c.lambda.params.length := by
    have harity := h.arity
    rw [List.length_append, List.length_take]
    omega
  obtain ⟨freeVars, hsource, hkeys⟩ := h.source
  refine ⟨hcomplete, fun i x hx hlast => Env.get?_extend_zip hcomplete hx hlast, freeVars, hsource, ?_⟩
  intro key
  rw [Closure.scope, Env.isSome_find?_extend, List.map_fst_zip (Nat.le_of_eq hcomplete.symm), hkeys, or_comm]

/-- A thunk runs in the environment that it captured. -/
theorem Closure.WellFormed.scope_nil {sources : List (List Ident × Lambda)} {c : Closure}
    (h : c.WellFormed sources) (hthunk : c.missing = 0) : c.scope [] = c.env := by
  rw [Closure.scope, h.thunk.1 hthunk]
  rfl

/-! ## Transitions -/

namespace Snapshot.WellFormed

variable {sources : List (List Ident × Lambda)} {base : Nat} {code code' : Code} {s s' : State}

theorem object_wellFormed (h : WellFormed sources ⟨code, s⟩) {o : Object} (hsource : o.Source code s) :
    o.WellFormed sources := by
  cases hsource with
  | kept hfound => exact h.heap _ _ hfound
  | con hshape =>
      rw [hshape]
      exact Object.wellFormed_con
  | blackhole hshape hfound =>
      rw [hshape]
      exact fun c hc => h.heap _ _ hfound c hc
  | partialApp hfound hfew hshape =>
      have hfunction := h.heap _ _ hfound _ rfl
      rw [hshape]
      exact (hfunction.supply hfew).object
  | @built binding body x rhs lookup hcode hpair hbuilds =>
      have hclosures := h.code _ hcode
      rw [Expr.closures, Binding.closures_eq] at hclosures
      refine hbuilds.wellFormed fun closure hclosure => hclosures (List.mem_append_left _ ?_)
      exact Rhs.closures_subset hpair hclosure

theorem frame_wellFormed (h : WellFormed sources ⟨code, s⟩) {f : Frame} (hsource : f.Source code s)
    {binder : Ident} {altType : AltType} {alts : List Alt} (hcont : f.cont = .caseOf binder altType alts) :
    Alt.closures alts ⊆ sources := by
  cases hsource with
  | kept hmem => exact h.frames f hmem binder altType alts hcont
  | noCode hwaits => exact absurd hcont (hwaits binder altType alts)
  | caseOf hcode hcont' =>
      have hclosures := h.code _ hcode
      cases hcont'.symm.trans hcont
      rw [Expr.closures] at hclosures
      exact fun closure hclosure => hclosures (List.mem_append_right _ hclosure)

theorem expr_wellFormed (h : WellFormed sources ⟨code, s⟩) {e : Expr} (hsource : e.Source code s) :
    e.closures ⊆ sources := by
  cases hsource with
  | scrutinee hcode =>
      have hclosures := h.code _ hcode
      rw [Expr.closures] at hclosures
      exact fun closure hclosure => hclosures (List.mem_append_left _ hclosure)
  | letBody hcode =>
      have hclosures := h.code _ hcode
      rw [Expr.closures] at hclosures
      exact fun closure hclosure => hclosures (List.mem_append_right _ hclosure)
  | closure hfound hbody =>
      rw [hbody]
      exact (h.heap _ _ hfound _ rfl).body
  | @alternative f rest binder altType alts alt hpop hcont hmem hrhs =>
      obtain ⟨hframe, -⟩ := Stack.forall_frames_of_pop? h.frames hpop
      have hclosures := hframe binder altType alts hcont
      rw [Alt.closures_eq] at hclosures
      rw [hrhs]
      exact fun closure hclosure => hclosures (List.mem_flatMap.2 ⟨alt, hmem, hclosure⟩)

theorem transition (h : WellFormed sources ⟨code, s⟩)
    (htrans : Transition (.standard host) base code s code' s') : WellFormed sources ⟨code', s'⟩ where
  heap _ _ ho := h.object_wellFormed (htrans.object_source ho)
  frames _ hf _ _ _ hcont := h.frame_wellFormed (htrans.frame_source hf) hcont
  code _ he := h.expr_wellFormed (htrans.expr_source he)

theorem failure {e : Fault} (h : WellFormed sources ⟨code, s⟩)
    (hfails : Failure (.standard host) base code s e s') : s'.WellFormed sources :=
  fun _ _ ho => h.object_wellFormed (hfails.object_source ho)

theorem reaches {c d : Snapshot} (h : c.WellFormed sources) (hreach : Reaches (.standard host) base c d) :
    d.WellFormed sources :=
  hreach.preserves (P := WellFormed sources) (fun _ _ hstep hc => hc.transition hstep.transition) h

/-- The code that a snapshot enters is that of the closure in question, and runs in an environment for
it. -/
theorem runsIn {a : Addr} {args : List Atom} {e : Expr} (h : WellFormed sources ⟨code, s⟩)
    (htrans : Transition (.standard host) base code s code' s') (hcall : call? ⟨code, s⟩ = some (a, args))
    (hbody : code' = .eval e) :
    ∃ f, s.object? a = some (.closure f) ∧ e = f.lambda.body ∧ f.RunsIn sources args s'.env := by
  cases htrans with
  -- An expression calls nothing by itself, and a value, a scalar or a partial application runs nothing.
  | app | lit | conApp | multiVal | opApp | case | letOne | letGroup => cases hcall
  | enterScalar | enterValue | update | applyPartial => cases hbody
  | @enterThunk _ p c hfound hthunk hroom =>
      cases hcall
      cases hbody
      have hclosure := h.heap _ _ hfound c rfl
      refine ⟨c, hfound, rfl, ?_⟩
      rw [← hclosure.scope_nil hthunk]
      exact hclosure.runsIn (Nat.le_of_eq hthunk)
  | @applyFull _ frame rest args' p c hpop hdepth hcont hfound hmisses henough hroom =>
      obtain ⟨cont, env, trace⟩ := frame
      cases hcont
      simp only [call?, hpop] at hcall
      cases hcall
      cases hbody
      exact ⟨c, hfound, rfl, (h.heap _ _ hfound c rfl).runsIn henough⟩
  | @select _ frame rest binder altType alts atoms fields scrutinee alt hpop hdepth hcont =>
      -- A case waits on top of the stack, and no arguments.
      obtain ⟨cont, env, trace⟩ := frame
      cases hcont
      simp only [call?, hpop] at hcall
      cases hcall

end Snapshot.WellFormed

/-! ## Sessions -/

section Sessions

variable {sources : List (List Ident × Lambda)} {config : Config} {events : List Event} {m m' : Machine}
  {command : Command} {reply : Reply} {start : Snapshot} {t : State}

/-- A state whose new slots hold what right-hand sides of the source became. -/
theorem State.WellFormed.grow_built {s t : State} (h : s.WellFormed sources) (hheap : t.heap = s.heap)
    {pairs : List (Ident × Rhs)} {objects : List Object} {lookup : Ident × Rhs → Ident → Option Atom}
    (hbuilds : List.Forall₂ (fun pair o => pair.2.Builds (lookup pair) pair.1 o) pairs objects)
    (hpairs : ∀ pair ∈ pairs, pair.2.closures ⊆ sources) (empty : Nat) :
    (t.grow (objects.map some ++ List.replicate empty none)).WellFormed sources := by
  intro a o ho
  rcases State.object?_grow_cases ho with ho | ⟨-, hslot⟩
  · rw [State.object?, hheap] at ho
    exact h a o ho
  · rcases List.mem_append.1 hslot with hbuilt | hempty
    · obtain ⟨new, hnew, heq⟩ := List.mem_map.1 hbuilt
      cases heq
      obtain ⟨pair, hpair, hobject⟩ := exists_mem_of_forall₂ hbuilds o hnew
      exact hobject.wellFormed (hpairs pair hpair)
    · cases List.eq_of_mem_replicate hempty

/-- A run starts in a snapshot whose closures agree with the source, that of its call included. -/
theorem Command.wellFormed_of_start? (hidle : Idle config m) (h : m.state.WellFormed sources)
    (hstart : command.start? m = some start) (hcommand : command.closures ⊆ sources) :
    start.WellFormed sources := by
  have hframes := Command.frames_of_start? hidle hstart
  refine ⟨?_, by simp [hframes], ?_⟩
  · obtain ⟨name, env, hstate⟩ := Command.exists_scope_of_start? hstart
    rw [hstate]
    exact h
  · cases command with
    | load p => cases hstart
    | runEntry =>
        obtain ⟨entry, a, -, -, rfl⟩ := Command.start?_runEntry hstart
        intro e he
        cases he
    | eval name env e =>
        cases hstart
        intro e' he
        cases he
        exact hcommand
    | force a =>
        cases hstart
        intro e he
        cases he

/-- The closures of every state of a run agree with the source, that of its call included. -/
theorem Command.Passes.wellFormed (hidle : Idle config m) (h : m.state.WellFormed sources)
    (hcommand : command.closures ⊆ sources) (hpasses : command.Passes m t) : t.WellFormed sources := by
  obtain ⟨host, hregistry⟩ := hidle.registry
  cases hpasses with
  | reached hstart hreach =>
      rw [hregistry] at hreach
      exact ((Command.wellFormed_of_start? hidle h hstart hcommand).reaches hreach).heap
  | failed hstart hreach hfails =>
      rw [hregistry] at hreach hfails
      have hreached := (Command.wellFormed_of_start? hidle h hstart hcommand).reaches hreach
      exact hreached.failure (step_eq_error hfails)

/-- A call leaves a heap behind whose closures agree with the source, that of the call included. -/
theorem Called.wellFormed (hidle : Idle config m) (h : m.state.WellFormed sources)
    (hcommand : command.closures ⊆ sources) (hcalled : Called m command reply m') :
    m'.state.WellFormed sources := by
  cases hcalled with
  | @loaded p s hloads =>
      obtain ⟨strings, objects, hbuilds, rfl⟩ := Exec.allocateGlobals_eq_ok hloads
      have hgrown := h.grow_built (t := (Exec.declared m.state p.pairs).withStrings strings) rfl hbuilds
        (fun pair hpair _ hclosure => hcommand (Rhs.closures_subset hpair hclosure)) 0
      rw [List.replicate_zero, List.append_nil] at hgrown
      exact hgrown
  | @notLoaded p e s hloads =>
      obtain ⟨strings, done, x, rhs, rest, objects, hpairs, hbuilds, rfl, -⟩ :=
        Exec.allocateGlobals_eq_error hloads
      refine h.grow_built (t := (Exec.declared m.state p.pairs).withStrings strings) rfl hbuilds ?_ _
      intro pair hpair closure hclosure
      refine hcommand (Rhs.closures_subset ?_ hclosure)
      rw [hpairs]
      exact List.mem_append_left _ hpair
  | noEntry => exact h
  | returned hstart hreach | notOneValue hstart hreach | exhausted hstart hreach =>
      have hpassed := (Command.Passes.reached hstart hreach).wellFormed hidle h hcommand
      exact fun a o ho => hpassed a o ho
  | failed hstart hreach hfails =>
      have hpassed := (Command.Passes.failed hstart hreach hfails).wellFormed hidle h hcommand
      exact fun a o ho => hpassed a o ho

/-- Between two calls of a session all closures agree with what the calls brought. -/
theorem Session.wellFormed (hsession : Session config events m) :
    m.state.WellFormed (Event.closuresAll events) := by
  induction hsession with
  | fresh =>
      intro a o ho
      simp [State.object?, Machine.new, Machine.withRegistry, State.ofConfig] at ho
  | @call events m m' command reply fuel hsession hperforms ih =>
      have hmore := ih.mono (List.subset_append_right command.closures _)
      exact Called.wellFormed hsession.idle hmore (List.subset_append_left _ _)
        (Command.perform_eq_some hperforms)

/-- Every closure that a machine with the standard operations ever holds, plain or under a blackhole,
agrees with a closure of a program that was loaded or an expression that was evaluated: between two calls
of a session, and at every point of the run of a call. Whenever the code of a closure is entered, because
it is forced or has all its arguments, each parameter is bound to its own argument, none of which is lost,
and nothing else is in scope but the variables that the source lists. -/
theorem Session.closures_wellFormed (hsession : Session config events m) :
    (∀ a o c, m.state.object? a = some o → o.Holds c → c.WellFormed (Event.closuresAll events)) ∧
      ∀ command : Command,
        (∀ t, command.Passes m t → ∀ a o c, t.object? a = some o → o.Holds c →
          c.WellFormed (command.closures ++ Event.closuresAll events)) ∧
        ∀ start c d a args e, command.start? m = some start →
          Reaches m.registry m.state.stack.depth start c → Steps m.registry m.state.stack.depth c d →
          c.call? = some (a, args) → d.code = .eval e →
          ∃ f, c.state.object? a = some (.closure f) ∧ e = f.lambda.body ∧
            f.RunsIn (command.closures ++ Event.closuresAll events) args d.state.env := by
  have hidle := hsession.idle
  refine ⟨fun a o c ho hc => hsession.wellFormed a o ho c hc, fun command => ?_⟩
  have hsources : m.state.WellFormed (command.closures ++ Event.closuresAll events) :=
    hsession.wellFormed.mono (List.subset_append_right _ _)
  have hcommand : command.closures ⊆ command.closures ++ Event.closuresAll events :=
    List.subset_append_left _ _
  constructor
  · intro t hpasses a o c ho hc
    exact hpasses.wellFormed hidle hsources hcommand a o ho c hc
  · intro start c d a args e hstart hreach hstep hcall hbody
    obtain ⟨host, hregistry⟩ := hidle.registry
    rw [hregistry] at hreach hstep
    have hreached := (Command.wellFormed_of_start? hidle hsources hstart hcommand).reaches hreach
    exact hreached.runsIn hstep.transition hcall hbody

end Sessions

/-- A program whose entry supplies the arguments of a function in two parts, the second with one argument
too many. Two parameters of the function have one key. -/
def appliedInParts : Program :=
  let a : Ident := .ofName "a"
  let b : Ident := .ofName "b"
  let f : Ident := .ofName "f"
  let g : Ident := .ofName "g"
  let x : Ident := .ofName "x"
  let main : Ident := .ofName "main"
  { bindings :=
      [.nonRec a (.con ⟨"A", 0, 0⟩ []), .nonRec b (.con ⟨"B", 1, 0⟩ []),
        .nonRec f (.closure [] ⟨[x, .ofName "y", x], .app x []⟩),
        .nonRec main (.closure [] ⟨[],
          .letIn (.nonRec g (.closure [] ⟨[], .app f [.var a]⟩)) (.app g [.var a, .var b, .var b])⟩)]
    entry := main }

/-- The machine after `appliedInParts` was loaded, the snapshot before its function runs, and the one
after. -/
def appliedInPartsEnters : Option (List Event × Machine × Snapshot × Snapshot × Snapshot) :=
  (Session.play {} 1 [.load appliedInParts]).bind fun (events, m) =>
    (Command.runEntry.start? m).bind fun start =>
      (after? m.registry m.state.stack.depth 8 start).bind fun c =>
        (c.next? m.registry m.state.stack.depth).map fun d => (events, m, start, c, d)

/-- The key `x` is bound to the third argument, not to the first; the fourth is left over. -/
theorem Session.closures_wellFormed_appliedInParts :
    ∃ events m start c d f args, Session {} events m ∧ Command.runEntry.start? m = some start ∧
      Reaches m.registry m.state.stack.depth start c ∧ Steps m.registry m.state.stack.depth c d ∧
      c.call? = some (5, args) ∧ c.state.object? 5 = some (.closure f) ∧ d.code = .eval f.lambda.body ∧
      f.args.map Atom.addr? = [some 0] ∧ args.map Atom.addr? = [some 0, some 1, some 1] ∧
      f.RunsIn (Event.closuresAll events) args d.state.env ∧
      (d.state.env.get? (.ofName "x")).map Atom.addr? = some (some 1) := by
  have hcomputes : appliedInPartsEnters.any (fun (_, _, _, c, d) =>
      (c.call?.map fun (a, args) => (a, args.map Atom.addr?)) = some (5, [some 0, some 1, some 1]) ∧
      (((c.state.object? 5).bind Object.closure?).map fun f =>
        (f.args.map Atom.addr?, f.missing, f.lambda.params)) =
          some ([some 0], 2, [.ofName "x", .ofName "y", .ofName "x"]) ∧
      (match d.code with
        | .eval _ => true
        | _ => false) = true) := by
    decide +kernel
  obtain ⟨⟨events, m, start, c, d⟩, henters, hany⟩ := (Option.any_eq_true _ _).1 hcomputes
  obtain ⟨⟨events, m⟩, hplay, h⟩ := Option.bind_eq_some_iff.1 henters
  obtain ⟨start, hstart, h⟩ := Option.bind_eq_some_iff.1 h
  obtain ⟨c, hafter, h⟩ := Option.bind_eq_some_iff.1 h
  obtain ⟨d, hnext, heq⟩ := Option.map_eq_some_iff.1 h
  cases heq
  obtain ⟨hcall, hobject, hbody⟩ := of_decide_eq_true hany
  obtain ⟨⟨a, args⟩, hcall, hsupplied⟩ := Option.map_eq_some_iff.1 hcall
  obtain ⟨rfl, hargs⟩ := Prod.mk.inj hsupplied
  cases hcode : d.code with
  | enter | ret =>
      rw [hcode] at hbody
      cases hbody
  | eval e =>
      have hsession := Session.of_play hplay
      have hreach := reaches_of_after? hafter
      have hstep := steps_of_next? hnext
      obtain ⟨-, hcommands⟩ := Session.closures_wellFormed hsession
      obtain ⟨f, hf, rfl, hruns⟩ := (hcommands .runEntry).2 start c d 5 args e hstart hreach hstep hcall hcode
      rw [hf] at hobject
      obtain ⟨hgiven, hmissing, hparams⟩ : f.args.map Atom.addr? = [some 0] ∧ f.missing = 2 ∧
          f.lambda.params = [.ofName "x", .ofName "y", .ofName "x"] := by
        simpa [Object.closure?] using hobject
      refine ⟨events, m, start, c, d, f, args, hsession, hstart, hreach, hstep, hcall, hf, hcode, hgiven,
        hargs, hruns, ?_⟩
      have hx := hruns.bound 2 (.ofName "x") (by rw [hparams]; rfl) (by rw [hparams]; decide)
      have hvalues : (f.args ++ args.take f.missing).map Atom.addr? = [some 0, some 0, some 1] := by
        rw [List.map_append, List.map_take, hgiven, hargs, hmissing]
        rfl
      rw [hx, ← List.getElem?_map, hvalues]
      rfl

end Spineless
