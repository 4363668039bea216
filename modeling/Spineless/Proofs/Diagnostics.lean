import Spineless.Proofs.CallSimulation

/-!
# Diagnostics do not influence evaluation

How many binders the diagnostic trace keeps is a matter of the messages alone. Take two fresh machines
that differ in that limit only and make the same calls on them. Each call gives the same reply, except
that the fault of the machine with the smaller limit carries the end of the other one's trace, and the
machines differ in their limits only (`Session.play_traceLimit`).

The two runs are coupled under the same names, and one trace is the end of the other throughout: in the
current scope and in every frame.
-/

namespace Spineless

variable {host : Host}

/-! ## Another limit -/

/-- The state with another limit on its trace. -/
def State.withTraceLimit (s : State) (limit : Nat) : State := { s with traceLimit := limit }

/-- The machine with another limit on its trace. -/
def Machine.withTraceLimit (m : Machine) (limit : Nat) : Machine :=
  { m with
    state := m.state.withTraceLimit limit
    config := { m.config with traceLimit := limit } }

theorem Machine.withRegistry_withTraceLimit (config : Config) (registry : Registry) (short long : Nat) :
    (withRegistry { config with traceLimit := long } registry).withTraceLimit short =
      withRegistry { config with traceLimit := short } registry :=
  rfl

/-- The reply with the end of a fault's trace. -/
def Reply.shorten (limit : Nat) : Reply → Reply
  | .ok atoms => .ok atoms
  | .error e => .error { e with trace := e.trace.rtake limit }

/-- The event with the end of a fault's trace. -/
def Event.shorten (limit : Nat) (event : Event) : Event :=
  { event with reply := event.reply.shorten limit }

/-- Two runs of which the first keeps the shorter traces. -/
def Coupling.shortened {short long : Nat} (h : short ≤ long) : Coupling where
  names := .refl
  below := []
  spare := 0
  limit := short
  limit' := long
  inScope xs ys := xs = ys.rtake short
  always xs ys := xs = ys.rtake short
  always_nil := (List.rtake_nil short).symm
  always_of_inScope htrace := htrace
  inScope_enter x := by
    rw [State.rtake_extendTrace h, ← State.extendTrace_rtake, List.rtake_nil]
    rfl
  inScope_extend x htrace := by
    rw [htrace, State.extendTrace_rtake, State.rtake_extendTrace h]
    rfl

theorem Coupling.Replied.shorten {short long : Nat} {h : short ≤ long} {reply reply' : Reply}
    (hreplies : (shortened h).Replied reply reply') : reply = reply'.shorten short := by
  cases hreplies with
  | values atoms => exact congrArg Except.ok (Renaming.map_atom_refl atoms).symm
  | @faults e f hfaults =>
      have hcause : f.cause = e.cause := by
        have heq := hfaults.cause
        rw [cause_eq _ rfl, shortened, Renaming.cause_refl] at heq
        exact heq
      have htrace : e.trace = f.trace.rtake short := hfaults.trace
      rw [Reply.shorten, hcause, ← htrace]

/-! ## Calls -/

/-- The top-level variables after a call, whether it succeeds or not. -/
def Command.globals (m : Machine) : Command → Env
  | .load p => m.state.globals.extend (references m.state.heap.size p.pairs)
  | .runEntry | .eval .. | .force _ => m.state.globals

/-- A machine between two calls of a session: no frames, no trace, the standard primitive operations. -/
structure Machine.Rests (m : Machine) : Prop where
  frames : m.state.stack.frames = []
  trace : m.state.trace = []
  registry : ∃ host, m.registry = .standard host

section Calls

variable {m m' n' : Machine} {command : Command} {reply reply' : Reply} {short : Nat}

/-- Only loads change the top-level variables, and they do so even if they fail. -/
theorem Called.globals_eq (hregistry : m.registry = .standard host) (h : Called m command reply m') :
    m'.state.globals = command.globals m := by
  cases command with
  | load p =>
      cases h with
      | loaded hloads =>
          obtain ⟨strings, objects, -, rfl⟩ := Exec.allocateGlobals_eq_ok hloads
          rfl
      | notLoaded hloads =>
          obtain ⟨strings, done, x, rhs, rest, objects, -, -, rfl, -⟩ :=
            Exec.allocateGlobals_eq_error hloads
          rfl
      | returned hstart | failed hstart | exhausted hstart => cases hstart
  | runEntry => exact (h.restores hregistry (by simp)).2.2.2
  | eval name env e => exact (h.restores hregistry (by simp)).2.2.2
  | force a => exact (h.restores hregistry (by simp)).2.2.2

/-- A call leaves a machine that rests at rest. -/
theorem Machine.Rests.called (h : m.Rests) (hcalled : Called m command reply m') : m'.Rests := by
  obtain ⟨host, hregistry⟩ := h.registry
  have hkeeps := hcalled.keeps hregistry
  exact ⟨by rw [hkeeps.stack, h.frames], hkeeps.trace.trans h.trace,
    ⟨host, hcalled.machine_eq.1.trans hregistry⟩⟩

/-- A machine with a smaller limit corresponds to the machine itself, between two calls. -/
theorem Machine.Rests.machines (h : m.Rests) (hshort : short ≤ m.state.traceLimit) :
    (Coupling.shortened hshort).Machines (m.withTraceLimit short) m := by
  have htrace : m.state.trace = m.state.trace.rtake short := by
    rw [h.trace, List.rtake_nil]
  have hframes : (Coupling.shortened hshort).Stacks m.state.stack.frames m.state.stack.frames := by
    rw [h.frames]
    exact .bottom
  exact {
    states := {
      store := .of_eq rfl rfl rfl rfl rfl
      limit := rfl
      limit' := rfl
      depth := rfl
      frames := hframes
      trace := htrace
      scope := fun _ => ⟨(Renaming.env_refl m.state.env).symm, htrace⟩ }
    entry := (congrFun Option.map_id m.entry).symm
    registry := h.registry
    registry' := rfl
    budget := rfl
    count := .inl rfl }

/-- States that hold the same and have the same scope differ in the limit of the trace only. -/
theorem State.Renamed.eq_of_keeps {u s t : State} (h : s.Renamed .refl t)
    (hs : (u.withTraceLimit short).Keeps s) (ht : u.Keeps t) (hglobals : s.globals = t.globals) :
    s = t.withTraceLimit short := by
  have hheap := h.heap_eq
  have hstrings := h.strings_eq
  have hspaces := h.spaces_eq
  have hthread := h.thread
  have hstack : s.stack = t.stack := hs.stack.trans ht.stack.symm
  have henv : s.env = t.env := hs.env.trans ht.env.symm
  have htrace : s.trace = t.trace := hs.trace.trans ht.trace.symm
  have hlimit : s.traceLimit = short := hs.traceLimit
  have hdepth : s.maxStackDepth = t.maxStackDepth := hs.maxStackDepth.trans ht.maxStackDepth.symm
  obtain ⟨heap, env, globals, trace, limit, stack, depth, strings, spaces, thread⟩ := s
  subst hheap hstrings hspaces hthread hstack henv htrace hlimit hdepth hglobals
  rfl

/-- The same call on machines that differ in their limits leaves such machines behind, if these hold the
same. -/
theorem Called.withTraceLimit (hregistry : m.registry = .standard host)
    (h : Called (m.withTraceLimit short) command reply m') (h' : Called m command reply' n')
    (hstore : m'.state.Renamed .refl n'.state) (hentry : n'.entry = m'.entry)
    (hsteps : n'.steps = m'.steps) : m' = n'.withTraceLimit short := by
  have hregistry' : (m.withTraceLimit short).registry = .standard host := hregistry
  have hglobals : m'.state.globals = n'.state.globals := by
    rw [h.globals_eq hregistry', h'.globals_eq hregistry]
    cases command <;> rfl
  have hstate : m'.state = n'.state.withTraceLimit short :=
    hstore.eq_of_keeps (h.keeps hregistry') (h'.keeps hregistry) hglobals
  obtain ⟨hregistry₁, hconfig₁⟩ := h.machine_eq
  obtain ⟨hregistry₂, hconfig₂⟩ := h'.machine_eq
  obtain ⟨state₁, registry₁, config₁, entry₁, steps₁⟩ := m'
  obtain ⟨state₂, registry₂, config₂, entry₂, steps₂⟩ := n'
  subst hstate hentry hsteps hregistry₁ hconfig₁ hregistry₂ hconfig₂
  rfl

/-- The same call on two machines at rest that differ in their limits. -/
theorem Command.perform_withTraceLimit (hrests : m.Rests) (hshort : short ≤ m.state.traceLimit)
    (fuel : Nat) (command : Command) :
    command.perform fuel (m.withTraceLimit short) =
      (command.perform fuel m).map fun (reply, m') =>
        (reply.shorten short, m'.withTraceLimit short) := by
  have hanswers := (hrests.machines hshort).answers rfl rfl rfl rfl fuel command
  generalize hfirst : command.perform fuel (m.withTraceLimit short) = first at hanswers
  generalize hsecond : command.perform fuel m = second at hanswers
  cases hanswers with
  | running => rfl
  | answered hreplies hstore hentry hsteps =>
      obtain ⟨host, hregistry⟩ := hrests.registry
      have hmachine := Called.withTraceLimit hregistry (Command.perform_eq_some hfirst)
        (Command.perform_eq_some hsecond) hstore (hentry.trans (congrFun Option.map_id _)) hsteps
      rw [Option.map_some, hreplies.shorten, hmachine]

end Calls

/-! ## Sessions -/

section Sessions

variable {config : Config} {events : List Event} {m : Machine}

/-- The machines of a session rest. -/
theorem Session.rests (h : Session config events m) : m.Rests := by
  induction h with
  | fresh host =>
      have hregistry : (Machine.new config host).registry = .standard host := by
        rw [Machine.new, Machine.withRegistry]
      exact ⟨rfl, rfl, ⟨host, hregistry⟩⟩
  | call fuel _ hperforms ih => exact ih.called (Command.perform_eq_some hperforms)

/-- The limit of the trace is that of the configuration. -/
theorem Session.traceLimit_eq (h : Session config events m) : m.state.traceLimit = config.traceLimit := by
  induction h with
  | fresh => rfl
  | call fuel hsession hperforms ih =>
      obtain ⟨host, hregistry⟩ := hsession.rests.registry
      have hkeeps := (Command.perform_eq_some hperforms).keeps hregistry
      exact hkeeps.traceLimit.trans ih

/-- Diagnostics never influence evaluation. Take two fresh machines that differ only in how many binders
their traces keep, and make any calls on them, such as to load a program and to run its entry. The calls
come back or not alike and after as many transitions, with the same values or faults of the same cause;
and the machines hold the same heap, environments, literals and spaces afterwards. The trace of a fault
with the smaller limit is the end of the one with the larger limit. -/
theorem Session.play_traceLimit (config : Config) {short long : Nat} (hshort : short ≤ long) (fuel : Nat)
    (commands : List Command) (host : Host) :
    Session.play { config with traceLimit := short } fuel commands host =
      (Session.play { config with traceLimit := long } fuel commands host).map fun (events, m) =>
        (events.map (Event.shorten short), m.withTraceLimit short) := by
  induction commands with
  | nil =>
      simp only [Session.play, Machine.new, Option.map_some, List.map_nil,
        Machine.withRegistry_withTraceLimit]
  | cons command earlier ih =>
      rw [Session.play, Session.play, ih]
      cases hplay : Session.play { config with traceLimit := long } fuel earlier host with
      | none => rfl
      | some result =>
          obtain ⟨events, m⟩ := result
          have hsession := Session.of_play hplay
          have hlimit : short ≤ m.state.traceLimit := by
            rw [hsession.traceLimit_eq]
            exact hshort
          have hperform := Command.perform_withTraceLimit hsession.rests hlimit fuel command
          simp only [Option.map_some, Option.bind_some, hperform, Option.map_map]
          rfl

end Sessions

/-- A program whose entry opens two cases and then needs a variable that is not bound. -/
def failsInTwoCases : Program :=
  let main : Ident := .ofName "main"
  { bindings := [.nonRec main (.closure [] ⟨[],
      .case (.case (.app (.ofName "x") []) (.ofName "inner") .poly []) (.ofName "outer") .poly []⟩)]
    entry := main }

/-- The trace of the fault in a reply. -/
def Reply.trace : Reply → List Ident
  | .ok _ => []
  | .error e => e.trace

/-- With room for three binders the fault names the entry and both cases, with room for one only the inner
case; nothing else differs. -/
theorem Session.play_traceLimit_failsInTwoCases :
    ∃ events m, 1 ≤ 3 ∧
      Session.play { traceLimit := 3 } 9 [.runEntry, .load failsInTwoCases] = some (events, m) ∧
      Session.play { traceLimit := 1 } 9 [.runEntry, .load failsInTwoCases] =
        some (events.map (Event.shorten 1), m.withTraceLimit 1) ∧
      events.map (fun event => event.reply.trace) =
        [[.ofName "main", .ofName "outer", .ofName "inner"], []] ∧
      (events.map (Event.shorten 1)).map (fun event => event.reply.trace) = [[.ofName "inner"], []] := by
  have hcomputes : (Session.play { traceLimit := 3 } 9 [.runEntry, .load failsInTwoCases]).any
      (fun (events, _) =>
        events.map (fun event => event.reply.trace) =
          [[.ofName "main", .ofName "outer", .ofName "inner"], []] ∧
        (events.map (Event.shorten 1)).map (fun event => event.reply.trace) = [[.ofName "inner"], []]) := by
    decide +kernel
  obtain ⟨⟨events, m⟩, hplay, htraces⟩ := (Option.any_eq_true _ _).1 hcomputes
  obtain ⟨hlong, hshort⟩ := of_decide_eq_true htraces
  have hle : 1 ≤ 3 := by decide
  have hlimits := Session.play_traceLimit {} hle 9 [.runEntry, .load failsInTwoCases] .usual
  rw [hplay] at hlimits
  exact ⟨events, m, hle, hplay, hlimits, hlong, hshort⟩

end Spineless
