import Spineless.Proofs.Simulation
import Spineless.Proofs.Trace

/-!
# Corresponding calls, one after the other

A load acts on corresponding machines as a run does: both programs can be loaded, or neither can
(`Machines.answers_load`). Each top-level closure is built in a scope of its own, so the simulation goes
into that scope and comes back.

A call that comes back leaves the stack, the scope and the limits of a machine alone, whatever the call
was (`Called.keeps`). So machines that gave corresponding answers still correspond (`Machines.called`), and
one pair of calls can follow another.
-/

namespace Spineless

variable {host : Host}

/-! ## What every call leaves alone -/

/-- The stack, the scope and the limits are those from before. -/
structure State.Keeps (s t : State) : Prop where
  stack : t.stack = s.stack
  env : t.env = s.env
  trace : t.trace = s.trace
  traceLimit : t.traceLimit = s.traceLimit
  maxStackDepth : t.maxStackDepth = s.maxStackDepth

section Keeps

variable {base : Nat} {code : Code} {s t : State} {e : Fault} {m m' : Machine} {command : Command}
  {reply : Reply} {pairs : List (Ident × Rhs)}

theorem Exec.keeps_of_allocateGlobals {u : Unit} (h : allocateGlobals pairs s = .ok u t) : s.Keeps t := by
  obtain ⟨strings, objects, -, rfl⟩ := allocateGlobals_eq_ok h
  exact ⟨rfl, rfl, rfl, rfl, rfl⟩

theorem Exec.keeps_of_allocateGlobals_error (h : allocateGlobals pairs s = .error e t) : s.Keeps t := by
  obtain ⟨strings, done, x, rhs, rest, objects, -, -, rfl, -⟩ := allocateGlobals_eq_error h
  exact ⟨rfl, rfl, rfl, rfl, rfl⟩

theorem Failure.traceLimit_eq (h : Failure (.standard host) base code s e t) :
    t.traceLimit = s.traceLimit := by
  cases h with
  | unbound | unboundMember | overflow | dangling | blackholed | covered | rejected => rfl
  | operation _ heval =>
      obtain ⟨rfl, -⟩ := Registry.standard_evaluate_eq_error heval
      rfl

/-- A run leaves the limit of the trace alone. -/
theorem Command.Passes.traceLimit_eq (hregistry : m.registry = .standard host) (h : command.Passes m t) :
    t.traceLimit = m.state.traceLimit := by
  cases h with
  | reached hstart hreach =>
      obtain ⟨history, htracked⟩ := Tracked.of_reaches hstart hreach
      obtain ⟨own, htells⟩ := htracked.tells hregistry
      exact htells.traceLimit
  | failed hstart hreach hfails =>
      obtain ⟨history, htracked⟩ := Tracked.of_reaches hstart hreach
      obtain ⟨own, htells⟩ := htracked.tells hregistry
      rw [hregistry] at hfails
      exact (step_eq_error hfails).traceLimit_eq.trans htells.traceLimit

/-- A state of a run with the scope of the caller, once its frames are gone. -/
theorem Command.Passes.keeps (hregistry : m.registry = .standard host) (h : command.Passes m t) {stack : Stack}
    (hstack : stack = m.state.stack) (steps : Nat) :
    m.state.Keeps (m.after steps { t with stack }).state := by
  have hlimit : t.traceLimit = m.state.traceLimit := h.traceLimit_eq hregistry
  have hdepth : t.maxStackDepth = m.state.maxStackDepth := (h.above hregistry).limit
  exact ⟨hstack, rfl, rfl, hlimit, hdepth⟩

/-- A call that comes back, with values or a fault, leaves the stack, the scope and the limits alone. -/
theorem Called.keeps (hregistry : m.registry = .standard host) (h : Called m command reply m') :
    m.state.Keeps m'.state := by
  cases h with
  | loaded hloads => exact Exec.keeps_of_allocateGlobals hloads
  | notLoaded hloads => exact Exec.keeps_of_allocateGlobals_error hloads
  | noEntry => exact ⟨rfl, rfl, rfl, rfl, rfl⟩
  | @returned _ _ d _ steps hstart hreach _ hdepth | @notOneValue _ _ d _ _ steps hstart hreach _ hdepth =>
      have hpasses := Command.Passes.reached hstart hreach
      exact hpasses.keeps hregistry ((hpasses.above hregistry).stack_eq hdepth) steps
  | @failed _ _ _ _ _ steps hstart hreach hfails =>
      have hpasses := Command.Passes.failed hstart hreach hfails
      exact hpasses.keeps hregistry (hpasses.above hregistry).truncate steps
  | @exhausted _ _ _ _ _ steps hstart hreach =>
      have hpasses := Command.Passes.reached hstart hreach
      exact hpasses.keeps hregistry (hpasses.above hregistry).truncate steps

/-- A call leaves the primitive operations and the configuration of a machine alone. -/
theorem Called.machine_eq (h : Called m command reply m') :
    m'.registry = m.registry ∧ m'.config = m.config := by
  cases h <;> exact ⟨rfl, rfl⟩

end Keeps

/-! ## Programs under other names -/

namespace Renaming

variable (ρ : Renaming)

/-- A program with new variables. -/
def program (p : Program) : Program := ⟨p.bindings.map ρ.binding, ρ.ident p.entry⟩

theorem pairs_binding (b : Binding) : (ρ.binding b).pairs = ρ.pairs b.pairs := by
  cases b with
  | nonRec x rhs => rw [binding, Binding.pairs, Binding.pairs, pairs, pairs]
  | group ps => rw [binding, Binding.pairs, Binding.pairs]

/-- The bindings of a program are renamed one by one. -/
theorem pairs_program (p : Program) : (ρ.program p).pairs = ρ.pairs p.pairs := by
  rw [Program.pairs, program, Program.pairs, List.flatMap_map, ρ.pairs_eq_map, List.map_flatMap]
  congr 1
  funext b
  rw [ρ.pairs_binding, ρ.pairs_eq_map]

/-- A renaming that leaves variables alone leaves programs alone. -/
theorem program_eq_self {ρ : Renaming} (h : ρ.ident = id) (p : Program) : ρ.program p = p := by
  have hbindings : p.bindings.map ρ.binding = p.bindings :=
    (List.map_congr_left fun b _ => binding_eq_self h b).trans (List.map_id _)
  rw [program, hbindings, h]
  rfl

theorem env_empty : ρ.env .empty = .empty := Env.ext_entries rfl

end Renaming

/-! ## Corresponding loads -/

namespace Coupling

variable {C : Coupling} {live : Bool} {s t : State} {m n : Machine}

namespace Related

/-- A top-level binding. -/
theorem bindGlobal (h : C.Related live s t) (x : Ident) (a : Atom) :
    C.Related live (s.bindGlobal x a) (t.bindGlobal (C.names.ident x) (C.names.atom a)) := by
  refine { h with store := { h.store with globals := fun key => ?_ } }
  show (t.globals.insert (C.names.ident x).key (C.names.atom a)).find? (C.names.key key) =
    ((s.globals.insert x.key a).find? key).map C.names.atom
  simp only [Env.find?_insert, C.names.key_ident, C.names.key_injective.eq_iff]
  split
  · rfl
  · exact h.store.globals key

/-- Corresponding actions in corresponding scopes, from which both come back. -/
theorem within {α β : Type} {φ : α → β} {x : Exec α} {y : Exec β} (h : C.Related live s t) (name : Ident)
    (haction : ∀ s' t', C.Related true s' t' → C.Outcomes (C.Maps true φ) (x s') (y t')) :
    C.Outcomes (C.Maps live φ) (Exec.within name .empty x s)
      (Exec.within (C.names.ident name) .empty y t) := by
  have hscope := h.enterScope name .empty
  rw [C.names.env_empty] at hscope
  have houtcomes := haction _ _ hscope
  unfold Exec.within
  generalize x (s.enterScope name .empty) = first at houtcomes ⊢
  generalize y (t.enterScope (C.names.ident name) .empty) = second at houtcomes ⊢
  cases houtcomes with
  | ok hmaps =>
      obtain ⟨h', rfl⟩ := hmaps
      exact .ok ⟨{ h' with store := { h'.store with }, trace := h.trace, scope := h.scope }, rfl⟩
  | error hstore hfaults => exact .error { hstore with } hfaults
  | overflow hspare hcause => exact .overflow hspare hcause

/-- Corresponding top-level variables are declared. -/
theorem declareGlobals (h : C.Related live s t) (pairs : List (Ident × Rhs)) :
    C.Outcomes
      (C.Maps live (List.map fun m => (C.names.addr m.1, C.names.ident m.2.1, C.names.rhs m.2.2)))
      (Exec.declare (fun x a s => s.bindGlobal x a) pairs s)
      (Exec.declare (fun x a s => s.bindGlobal x a) (C.names.pairs pairs) t) := by
  rw [C.names.pairs_eq_map]
  refine .mapM (fun pair s₁ t₁ h₁ => ?_) pairs h
  refine h₁.reserve.bind_maps fun a s₂ t₂ h₂ => ?_
  rw [Exec.modify_bind, Exec.modify_bind]
  exact .ok ⟨h₂.bindGlobal pair.1 (.ptr a), rfl⟩

/-- Corresponding top-level variables are defined, each in a scope of its own. -/
theorem defineGlobals (h : C.Related live s t) (members : List (Addr × Ident × Rhs)) :
    C.Outcomes (C.Maps live id)
      (Exec.define (fun x rhs => Exec.within x .empty (Exec.build x rhs)) members s)
      (Exec.define (fun x rhs => Exec.within x .empty (Exec.build x rhs))
        (members.map fun m => (C.names.addr m.1, C.names.ident m.2.1, C.names.rhs m.2.2)) t) := by
  refine .forM (fun member s₁ t₁ h₁ => ?_) members h
  have hbuild := h₁.within member.2.1 fun s' t' h' => h'.build member.2.1 member.2.2
  exact hbuild.bind_maps fun o s₂ t₂ h₂ => h₂.write member.1 o

/-- Corresponding top-level bindings are allocated. -/
theorem allocateGlobals (h : C.Related live s t) (pairs : List (Ident × Rhs)) :
    C.Outcomes (C.Maps live id) (Exec.allocateGlobals pairs s)
      (Exec.allocateGlobals (C.names.pairs pairs) t) :=
  (h.declareGlobals pairs).bind_maps fun members _ _ h' => h'.defineGlobals members

/-- States that hold the same under other names, in the scopes and on the stacks of corresponding ones. -/
theorem of_keeps {s' t' : State} (h : C.Related live s t) (hstore : s'.Renamed C.names t')
    (hs : s.Keeps s') (ht : t.Keeps t') : C.Related live s' t' where
  store := hstore
  limit := hs.traceLimit.trans h.limit
  limit' := ht.traceLimit.trans h.limit'
  depth := by rw [ht.maxStackDepth, hs.maxStackDepth, h.depth]
  frames := by
    rw [hs.stack, ht.stack]
    exact h.frames
  trace := by
    rw [hs.trace, ht.trace]
    exact h.trace
  scope hlive := by
    rw [hs.env, ht.env, hs.trace, ht.trace]
    exact h.scope hlive

end Related

/-! ## Corresponding answers -/

/-- Corresponding replies. -/
inductive Replied (C : Coupling) : Reply → Reply → Prop
  /-- Corresponding values. -/
  | values (atoms : List Atom) : Replied C (.ok atoms) (.ok (atoms.map C.names.atom))
  /-- Corresponding faults. -/
  | faults {e f : Fault} (faults : C.Faults e f) : Replied C (.error e) (.error f)

/-- What two calls give back and leave behind, if they come back. -/
inductive Answers (C : Coupling) : Option (Reply × Machine) → Option (Reply × Machine) → Prop
  /-- The runs are still going. -/
  | running : Answers C none none
  /-- Both calls came back, after as many transitions. -/
  | answered {reply reply' : Reply} {m n : Machine} (replies : C.Replied reply reply')
      (store : m.state.Renamed C.names n.state) (entry : n.entry = m.entry.map C.names.ident)
      (steps : n.steps = m.steps) : Answers C (some (reply, m)) (some (reply', n))

/-- Corresponding runs of machines that counted alike give corresponding answers. -/
theorem Calls.answers {α β : Type} {φ : α → β} {x : Option (Outcome Machine α)}
    {y : Option (Outcome Machine β)} (h : C.Calls φ m n x y) (hspare : C.spare = 0)
    (hentry : n.entry = m.entry.map C.names.ident) (hsteps : n.steps = m.steps)
    (hcount : n.count = m.count) {values : α → List Atom} {values' : β → List Atom}
    (hvalues : ∀ a, values' (φ a) = (values a).map C.names.atom) :
    C.Answers (x.map (Reply.ofOutcome values)) (y.map (Reply.ofOutcome values')) := by
  cases h with
  | running => exact .running
  | refused hstore hfaults => exact .answered (.faults hfaults) hstore hentry hsteps
  | returned k hstore =>
      rw [Option.map_some, Option.map_some, Reply.ofOutcome, Reply.ofOutcome, hvalues]
      exact .answered (.values _) { hstore with } hentry (congrArg tick^[k] hcount)
  | failed k hstore hfaults =>
      exact .answered (.faults hfaults) { hstore with } hentry (congrArg tick^[k] hcount)
  | overflow hpos => exact absurd hpos (by omega)

namespace Machines

variable {m' n' : Machine} {command command' : Command} {reply reply' : Reply}

/-- Machines without frames below that took as many steps count from the same number. -/
theorem count_eq (h : C.Machines m n) (hbelow : C.below = []) (hsteps : n.steps = m.steps) :
    n.count = m.count := by
  have hdepth : n.state.stack.depth = m.state.stack.depth := by
    rw [h.states.stack_depth, hbelow]
    rfl
  rw [Machine.count, Machine.count, hdepth, hsteps]

/-- Corresponding programs are loaded into corresponding machines, or neither can be. -/
theorem answers_load (h : C.Machines m n) (hspare : C.spare = 0) (hsteps : n.steps = m.steps)
    (fuel : Nat) (p : Program) :
    C.Answers ((Command.load p).perform fuel m) ((Command.load (C.names.program p)).perform fuel n) := by
  have houtcomes := h.states.allocateGlobals p.pairs
  rw [← C.names.pairs_program] at houtcomes
  rw [Command.perform, Command.perform]
  generalize hfirst : Exec.allocateGlobals p.pairs m.state = first at houtcomes
  generalize hsecond : Exec.allocateGlobals (C.names.program p).pairs n.state = second at houtcomes
  cases houtcomes with
  | ok hmaps =>
      rw [Machine.load_of_ok hfirst, Machine.load_of_ok hsecond]
      exact .answered (.values []) hmaps.1.store rfl hsteps
  | error hstore hfaults =>
      rw [Machine.load_of_error hfirst, Machine.load_of_error hsecond]
      exact .answered (.faults hfaults) hstore h.entry hsteps
  | overflow hpos => exact absurd hpos (by omega)

/-- Running corresponding entries. -/
theorem answers_runEntry (h : C.Machines m n) (hbelow : C.below = []) (hspare : C.spare = 0)
    (hsteps : n.steps = m.steps) (fuel : Nat) :
    C.Answers (Command.runEntry.perform fuel m) (Command.runEntry.perform fuel n) :=
  (h.runEntry fuel).answers hspare h.entry hsteps (h.count_eq hbelow hsteps) fun _ => rfl

/-- The same call on two machines that name everything alike. -/
theorem answers (h : C.Machines m n) (hnames : C.names = .refl) (hbelow : C.below = [])
    (hspare : C.spare = 0) (hsteps : n.steps = m.steps) (fuel : Nat) (command : Command) :
    C.Answers (command.perform fuel m) (command.perform fuel n) := by
  have hcount := h.count_eq hbelow hsteps
  have hident : C.names.ident = id := by
    rw [hnames]
    rfl
  cases command with
  | load p =>
      have hload := h.answers_load hspare hsteps fuel p
      rw [Renaming.program_eq_self hident] at hload
      exact hload
  | runEntry => exact h.answers_runEntry hbelow hspare hsteps fuel
  | eval name env e =>
      have hrun := h.runScoped fuel name env (.eval e)
      rw [hident, hnames, Renaming.env_refl, Renaming.code_refl] at hrun
      exact hrun.answers hspare h.entry hsteps hcount fun _ => by rw [hnames]; rfl
  | force a =>
      have hforce := h.force (by rw [hident]; rfl) fuel a
      rw [hnames, Renaming.atom_refl] at hforce
      exact hforce.answers hspare h.entry hsteps hcount fun _ => by rw [hnames]; rfl

/-- Machines that gave corresponding answers still correspond. -/
theorem called (h : C.Machines m n) (hbelow : C.below = []) (hcalled : Called m command reply m')
    (hcalled' : Called n command' reply' n') (hstore : m'.state.Renamed C.names n'.state)
    (hentry : n'.entry = m'.entry.map C.names.ident) (hsteps : n'.steps = m'.steps) :
    C.Machines m' n' := by
  obtain ⟨host, hstandard⟩ := h.registry
  have hstates : C.Related true m'.state n'.state :=
    h.states.of_keeps hstore (hcalled.keeps hstandard) (hcalled'.keeps (h.registry'.trans hstandard))
  obtain ⟨hregistry, hconfig⟩ := hcalled.machine_eq
  obtain ⟨hregistry', hconfig'⟩ := hcalled'.machine_eq
  have hdepth : n'.state.stack.depth = m'.state.stack.depth := by
    rw [hstates.stack_depth, hbelow]
    rfl
  exact {
    states := hstates
    entry := hentry
    registry := ⟨host, hregistry.trans hstandard⟩
    registry' := hregistry'.trans (h.registry'.trans hregistry.symm)
    budget := by rw [hconfig', hconfig, h.budget]
    count := .inl (by rw [Machine.count, Machine.count, hdepth, hsteps]) }

end Machines

end Coupling

end Spineless
