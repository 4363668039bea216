import Spineless.Machine
import Spineless.Proofs.Run

/-!
# Sessions

A session is a fresh machine with the standard primitive operations, on any host, and the calls made on it,
one after the other, whether they succeed or fail. A call that never comes back is no event of a session;
what its run does is said by `Reaches`.

`Command.perform_eq_some` says what a call does: loading allocates, and every other call starts a run
from `Command.start?`, which ends in some snapshot. Between two calls the control stack is empty
(`Session.idle`), so every run of a session has base 0.
-/

namespace Spineless

open Snapshot

/-- A call of a machine. -/
inductive Command where
  /-- Load a program. -/
  | load (p : Program)
  /-- Run the entry of the program loaded last. -/
  | runEntry
  /-- Evaluate an expression in an environment. -/
  | eval (name : Ident) (env : Env) (e : Expr)
  /-- Evaluate an atom to weak head normal form. -/
  | force (a : Atom)

/-- What a call gives back to its caller. -/
abbrev Reply := Except Fault (List Atom)

/-- The reply and the machine after an outcome. -/
def Reply.ofOutcome {α : Type} (values : α → List Atom) : Outcome Machine α → Reply × Machine
  | .ok a m => (.ok (values a), m)
  | .error e m => (.error e, m)

namespace Command

/-- Performs a call, following its run for at most `fuel` transitions. -/
def perform (fuel : Nat) (m : Machine) : Command → Option (Reply × Machine)
  | .load p => some (Reply.ofOutcome (fun _ => []) (Machine.load p m))
  | .runEntry => (m.runEntry fuel).map (Reply.ofOutcome id)
  | .eval name env e => (m.eval fuel name env e).map (Reply.ofOutcome id)
  | .force a => (m.force fuel a).map (Reply.ofOutcome ([·]))

/-- The run that a call starts, if it starts one. -/
def start? (m : Machine) : Command → Option Snapshot
  | .load _ => none
  | .runEntry =>
    m.entry.bind fun entry =>
      (m.state.lookup? entry).map fun a => ⟨.enter a, m.state.enterScope entry .empty⟩
  | .eval name env e => some ⟨.eval e, m.state.enterScope name env⟩
  | .force a => some ⟨.enter a, m.state.enterScope Machine.forceScope m.state.env⟩

end Command

/-- A call takes a number of transitions: following its run for so long is enough, and no less is. -/
def Command.Takes (m : Machine) (command : Command) (n : Nat) : Prop :=
  (command.perform n m).isSome ∧ ∀ k < n, command.perform k m = none

/-- The machine after a run that left a state behind: the scope of the caller is restored. -/
def Machine.after (m : Machine) (steps : Nat) (s : State) : Machine :=
  { m with state := s.restoreScope m.state.env m.state.trace, steps }

/-- The number that a run counts from: only a run on an empty stack starts a new count. -/
def Machine.count (m : Machine) : Nat := if m.state.stack.depth = 0 then 0 else m.steps

/-- The outcome for the caller of a run that ended. -/
def Machine.finish (m : Machine) (steps : Nat) (ending : Outcome State (List Atom)) :
    Outcome Machine (List Atom) :=
  match unwind m.state.stack.depth ending with
  | .ok atoms s => .ok atoms (m.after steps s)
  | .error e s => .error e (m.after steps s)

/-- A run in a scope of its own is a run that is followed, and finished when it ends. -/
theorem Machine.runScoped_eq (m : Machine) (fuel : Nat) (name : Ident) (env : Env) (code : Code) :
    m.runScoped fuel name env code =
      (follow m.registry m.config.maxSteps m.state.stack.depth fuel code m.count
        (m.state.enterScope name env)).map fun ending => m.finish ending.1 ending.2 := by
  unfold runScoped
  cases hfollow : follow m.registry m.config.maxSteps m.state.stack.depth fuel code m.count
      (m.state.enterScope name env) with
  | none =>
      unfold count at hfollow
      simp only [hfollow, Option.map_none]
  | some ending =>
      unfold count at hfollow
      simp only [hfollow, Option.map_some, finish]
      cases unwind m.state.stack.depth ending.2 with
      | ok atoms s => rfl
      | error e s => rfl

/-- What a call may do to a machine. -/
inductive Called (m : Machine) : Command → Reply → Machine → Prop
  /-- A program is loaded. -/
  | loaded {p : Program} {s : State} (allocates : Exec.allocateGlobals p.pairs m.state = .ok () s) :
      Called m (.load p) (.ok []) { m with state := s, entry := some p.entry }
  /-- A program cannot be loaded. -/
  | notLoaded {p : Program} {e : Fault} {s : State}
      (fails : Exec.allocateGlobals p.pairs m.state = .error e s) :
      Called m (.load p) (.error e) { m with state := s }
  /-- There is no entry to run. -/
  | noEntry {e : Fault}
      (cause : e.cause = .noProgramLoaded ∨
        ∃ entry, m.entry = some entry ∧ m.state.lookup? entry = none ∧ e.cause = .unboundVariable entry) :
      Called m .runEntry (.error e) m
  /-- A run comes back with values. -/
  | returned {command : Command} {start d : Snapshot} {atoms : List Atom} {steps : Nat}
      (starts : command.start? m = some start)
      (reaches : Reaches m.registry m.state.stack.depth start d) (code : d.code = .ret atoms)
      (depth : d.state.stack.depth ≤ m.state.stack.depth) :
      Called m command (.ok atoms) (m.after steps d.state)
  /-- A run fails, and its frames are taken off the stack. -/
  | failed {command : Command} {start d : Snapshot} {e : Fault} {t : State} {steps : Nat}
      (starts : command.start? m = some start)
      (reaches : Reaches m.registry m.state.stack.depth start d)
      (fails : step m.registry m.state.stack.depth d.code d.state = .error e t) :
      Called m command (.error e) (m.after steps (t.truncateStack m.state.stack.depth))
  /-- A run uses up its budget, and its frames are taken off the stack. -/
  | exhausted {command : Command} {start d : Snapshot} {e : Fault} {limit steps : Nat}
      (starts : command.start? m = some start)
      (reaches : Reaches m.registry m.state.stack.depth start d)
      (cause : e.cause = .stepLimitExceeded limit) :
      Called m command (.error e) (m.after steps (d.state.truncateStack m.state.stack.depth))
  /-- A run that should force an atom comes back with several values or none. -/
  | notOneValue {a : Atom} {start d : Snapshot} {atoms : List Atom} {e : Fault} {steps : Nat}
      (starts : (Command.force a).start? m = some start)
      (reaches : Reaches m.registry m.state.stack.depth start d) (code : d.code = .ret atoms)
      (depth : d.state.stack.depth ≤ m.state.stack.depth)
      (cause : e.cause = .primOpShape "force" (.notOneValue atoms.length)) :
      Called m (.force a) (.error e) (m.after steps d.state)

section Called

variable {m m' : Machine} {fuel : Nat} {code : Code} {name : Ident} {env : Env}

/-- A run in a scope of its own ends in some snapshot. -/
theorem Machine.runScoped_eq_some {outcome : Outcome Machine (List Atom)}
    (h : m.runScoped fuel name env code = some outcome) :
    ∃ d steps, Reaches m.registry m.state.stack.depth ⟨code, m.state.enterScope name env⟩ d ∧
      ((∃ atoms, outcome = .ok atoms (m.after steps d.state) ∧ d.code = .ret atoms ∧
          d.state.stack.depth ≤ m.state.stack.depth) ∨
        (∃ e t, outcome = .error e (m.after steps (t.truncateStack m.state.stack.depth)) ∧
          step m.registry m.state.stack.depth d.code d.state = .error e t) ∨
        ∃ e limit, e.cause = .stepLimitExceeded limit ∧
          outcome = .error e (m.after steps (d.state.truncateStack m.state.stack.depth))) := by
  unfold runScoped at h
  cases hfollow : follow m.registry m.config.maxSteps m.state.stack.depth fuel code
      (if m.state.stack.depth = 0 then 0 else m.steps) (m.state.enterScope name env) with
  | none => simp only [hfollow] at h; cases h
  | some result =>
      obtain ⟨steps, ending⟩ := result
      simp only [hfollow] at h
      obtain ⟨d, hreach, hends⟩ := follow_eq_some hfollow
      refine ⟨d, steps, hreach, ?_⟩
      cases hends with
      | returned hcode hdepth =>
          cases h
          exact .inl ⟨_, rfl, hcode, hdepth⟩
      | failed hfails =>
          cases h
          exact .inr (.inl ⟨_, _, rfl, hfails⟩)
      | exhausted =>
          cases h
          exact .inr (.inr ⟨_, _, rfl, rfl⟩)

/-- The entry of a loaded program is entered. -/
theorem Machine.runEntry_of_lookup? {entry : Ident} {a : Atom} (hentry : m.entry = some entry)
    (hlookup : m.state.lookup? entry = some a) :
    m.runEntry fuel = m.runScoped fuel entry .empty (.enter a) := by
  have hresolve : onState (Exec.resolve entry) m = .ok a m := by
    have hok := Exec.resolve_eq_ok.2 ⟨hlookup, rfl⟩
    simp only [onState, hok]
  unfold runEntry
  simp only [hentry, hresolve]

/-- There is no entry to run, or what the entry denotes is entered. -/
theorem Machine.runEntry_eq_some {outcome : Outcome Machine (List Atom)}
    (h : m.runEntry fuel = some outcome) :
    (∃ e, outcome = .error e m ∧ (e.cause = .noProgramLoaded ∨
      ∃ entry, m.entry = some entry ∧ m.state.lookup? entry = none ∧ e.cause = .unboundVariable entry)) ∨
    ∃ entry a, m.entry = some entry ∧ m.state.lookup? entry = some a ∧
      m.runScoped fuel entry .empty (.enter a) = some outcome := by
  cases hentry : m.entry with
  | none =>
      unfold runEntry at h
      simp only [hentry] at h
      cases h
      exact .inl ⟨_, rfl, .inl rfl⟩
  | some entry =>
      cases hlookup : m.state.lookup? entry with
      | none =>
          have hresolve : onState (Exec.resolve entry) m =
              .error ⟨.unboundVariable entry, m.state.trace⟩ m := by
            have hfail := Exec.resolve_eq_error.2 ⟨hlookup, rfl, rfl⟩
            simp only [onState, hfail]
          unfold runEntry at h
          simp only [hentry, hresolve] at h
          cases h
          exact .inl ⟨_, rfl, .inr ⟨entry, rfl, hlookup, rfl⟩⟩
      | some a =>
          rw [runEntry_of_lookup? hentry hlookup] at h
          exact .inr ⟨entry, a, rfl, hlookup, h⟩

/-- A run in a scope of its own that succeeds. -/
theorem Machine.runScoped_eq_ok {atoms : List Atom} :
    m.runScoped fuel name env code = some (.ok atoms m') ↔
      ∃ steps s, follow m.registry m.config.maxSteps m.state.stack.depth fuel code
          (if m.state.stack.depth = 0 then 0 else m.steps) (m.state.enterScope name env) =
            some (steps, .ok atoms s) ∧ m' = m.after steps s := by
  constructor
  · intro h
    unfold runScoped at h
    cases hfollow : follow m.registry m.config.maxSteps m.state.stack.depth fuel code
        (if m.state.stack.depth = 0 then 0 else m.steps) (m.state.enterScope name env) with
    | none => simp only [hfollow] at h; cases h
    | some result =>
        obtain ⟨steps, ending⟩ := result
        simp only [hfollow] at h
        cases ending with
        | error e s => cases h
        | ok atoms' s =>
            cases h
            exact ⟨steps, s, rfl, rfl⟩
  · rintro ⟨steps, s, hfollow, rfl⟩
    unfold runScoped
    simp only [hfollow]
    rfl

/-- A run that a call starts ends as `Called` says. -/
theorem Called.of_runScoped (command : Command) {outcome : Outcome Machine (List Atom)}
    (hstart : command.start? m = some ⟨code, m.state.enterScope name env⟩)
    (h : m.runScoped fuel name env code = some outcome) :
    Called m command (Reply.ofOutcome id outcome).1 (Reply.ofOutcome id outcome).2 := by
  obtain ⟨d, steps, hreach, hends⟩ := Machine.runScoped_eq_some h
  rcases hends with ⟨atoms, rfl, hcode, hdepth⟩ | ⟨e, t, rfl, hfails⟩ | ⟨e, limit, hcause, rfl⟩
  · exact .returned hstart hreach hcode hdepth
  · exact .failed hstart hreach hfails
  · exact .exhausted hstart hreach hcause

/-- A program whose bindings can be allocated is loaded. -/
theorem Machine.load_of_ok {p : Program} {s : State}
    (h : Exec.allocateGlobals p.pairs m.state = .ok () s) :
    load p m = .ok () { m with state := s, entry := some p.entry } := by
  have hstate : onState (Exec.allocateGlobals p.pairs) m = .ok () { m with state := s } := by
    simp only [onState, h]
  change EStateM.bind _ _ m = _
  simp only [EStateM.bind, hstate]
  rfl

/-- A program whose bindings cannot be allocated is not loaded. -/
theorem Machine.load_of_error {p : Program} {s : State} {e : Fault}
    (h : Exec.allocateGlobals p.pairs m.state = .error e s) :
    load p m = .error e { m with state := s } := by
  have hstate : onState (Exec.allocateGlobals p.pairs) m = .error e { m with state := s } := by
    simp only [onState, h]
  change EStateM.bind _ _ m = _
  simp only [EStateM.bind, hstate]

theorem Command.perform_load {p : Program} {reply : Reply}
    (h : (Command.load p).perform fuel m = some (reply, m')) : Called m (.load p) reply m' := by
  rw [perform, Option.some.injEq] at h
  cases hstate : Exec.allocateGlobals p.pairs m.state with
  | ok u s =>
      rw [Machine.load_of_ok hstate] at h
      cases h
      exact .loaded hstate
  | error e s =>
      rw [Machine.load_of_error hstate] at h
      cases h
      exact .notLoaded hstate

theorem Command.perform_runEntry {reply : Reply}
    (h : Command.runEntry.perform fuel m = some (reply, m')) : Called m .runEntry reply m' := by
  obtain ⟨outcome, hrun, houtcome⟩ := Option.map_eq_some_iff.1 h
  rcases Machine.runEntry_eq_some hrun with ⟨e, rfl, hcause⟩ | ⟨entry, a, hentry, hlookup, hrun⟩
  · cases houtcome
    exact .noEntry hcause
  · have hstart : Command.runEntry.start? m = some ⟨.enter a, m.state.enterScope entry .empty⟩ := by
      simp only [start?, hentry, hlookup, Option.bind_some, Option.map_some]
    have hcalled := Called.of_runScoped .runEntry hstart hrun
    rw [houtcome] at hcalled
    exact hcalled

theorem Command.perform_force {a : Atom} {reply : Reply}
    (h : (Command.force a).perform fuel m = some (reply, m')) : Called m (.force a) reply m' := by
  obtain ⟨outcome, hforce, houtcome⟩ := Option.map_eq_some_iff.1 h
  unfold Machine.force at hforce
  cases hrun : m.runScoped fuel Machine.forceScope m.state.env (.enter a) with
  | none => simp only [hrun] at hforce; cases hforce
  | some ending =>
      obtain ⟨d, steps, hreach, hends⟩ := Machine.runScoped_eq_some hrun
      rcases hends with ⟨atoms, rfl, hcode, hdepth⟩ | ⟨e, t, rfl, hfails⟩ | ⟨e, limit, hcause, rfl⟩
      · simp only [hrun] at hforce
        -- A single value is handed on; anything else is a failure after the run is over.
        rcases atoms with _ | ⟨value, _ | ⟨other, more⟩⟩
        · cases hforce
          cases houtcome
          exact .notOneValue rfl hreach hcode hdepth rfl
        · cases hforce
          cases houtcome
          exact .returned rfl hreach hcode hdepth
        · cases hforce
          cases houtcome
          exact .notOneValue rfl hreach hcode hdepth rfl
      · simp only [hrun] at hforce
        cases hforce
        cases houtcome
        exact .failed rfl hreach hfails
      · simp only [hrun] at hforce
        cases hforce
        cases houtcome
        exact .exhausted rfl hreach hcause

/-- A call does to a machine what `Called` says. -/
theorem Command.perform_eq_some {command : Command} {reply : Reply}
    (h : command.perform fuel m = some (reply, m')) : Called m command reply m' := by
  cases command with
  | load p => exact perform_load h
  | runEntry => exact perform_runEntry h
  | eval name env e =>
      obtain ⟨outcome, hrun, houtcome⟩ := Option.map_eq_some_iff.1 h
      have hcalled := Called.of_runScoped (.eval name env e) rfl hrun
      rw [houtcome] at hcalled
      exact hcalled
  | force a => exact perform_force h

end Called

/-! ## Sessions -/

/-- A call with its reply. -/
structure Event where
  command : Command
  reply : Reply

/-- The machines that the calls of a session lead to. The events of a session stand in reverse order,
the latest one first. -/
inductive Session (config : Config) : List Event → Machine → Prop
  /-- A fresh machine. -/
  | fresh (host : Host) : Session config [] (.new config host)
  /-- One more call. -/
  | call {events : List Event} {m m' : Machine} {command : Command} {reply : Reply} (fuel : Nat)
      (session : Session config events m) (performs : command.perform fuel m = some (reply, m')) :
      Session config (⟨command, reply⟩ :: events) m'

/-- Makes some calls on a fresh machine, the first of the list last, each followed for at most `fuel`
transitions. -/
def Session.play (config : Config) (fuel : Nat) (commands : List Command) (host : Host := .usual) :
    Option (List Event × Machine) :=
  match commands with
  | [] => some ([], .new config host)
  | command :: earlier =>
    (play config fuel earlier host).bind fun (events, m) =>
      (command.perform fuel m).map fun (reply, m') => (⟨command, reply⟩ :: events, m')

section Session

variable {config : Config} {events : List Event} {m : Machine}

/-- Calls that all come back make a session. -/
theorem Session.of_play {fuel : Nat} {commands : List Command} {host : Host}
    (h : Session.play config fuel commands host = some (events, m)) : Session config events m := by
  induction commands generalizing events m with
  | nil =>
      cases h
      exact .fresh host
  | cons command earlier ih =>
      obtain ⟨⟨before, m₀⟩, hplay, h⟩ := Option.bind_eq_some_iff.1 h
      obtain ⟨⟨reply, m₁⟩, hperforms, heq⟩ := Option.map_eq_some_iff.1 h
      cases heq
      exact .call fuel (ih hplay) hperforms

/-- Dropping all frames leaves none. -/
theorem Stack.frames_truncate_zero (st : Stack) : (st.truncate 0).frames = [] := by
  have hlen : st.depth = st.frames.length := st.depth_eq
  exact List.drop_eq_nil_of_le (by omega)

theorem Stack.frames_eq_nil {st : Stack} (h : st.depth ≤ 0) : st.frames = [] := by
  have hlen : st.depth = st.frames.length := st.depth_eq
  exact List.eq_nil_of_length_eq_zero (by omega)

theorem Stack.depth_of_frames_eq_nil {st : Stack} (h : st.frames = []) : st.depth = 0 := by
  rw [st.depth_eq, h]
  rfl

/-- What never changes in a session: between two calls the stack is empty, nothing is in scope, and
the primitive operations and the limits are those of the fresh machine. -/
structure Idle (config : Config) (m : Machine) : Prop where
  frames : m.state.stack.frames = []
  env : m.state.env = .empty
  registry : ∃ host, m.registry = .standard host
  config : m.config = config

theorem Idle.depth (h : Idle config m) : m.state.stack.depth = 0 :=
  Stack.depth_of_frames_eq_nil h.frames

/-- A call leaves a machine idle. -/
theorem Idle.called {m' : Machine} {command : Command} {reply : Reply} (h : Idle config m)
    (hcalled : Called m command reply m') : Idle config m' := by
  have hdepth := h.depth
  cases hcalled with
  | loaded hok =>
      obtain ⟨strings, objects, -, rfl⟩ := Exec.allocateGlobals_eq_ok hok
      exact ⟨h.frames, h.env, h.registry, h.config⟩
  | notLoaded hfails =>
      obtain ⟨strings, done, x, rhs, rest, objects, -, -, rfl, -⟩ := Exec.allocateGlobals_eq_error hfails
      exact ⟨h.frames, h.env, h.registry, h.config⟩
  | noEntry => exact h
  | returned _ _ _ hle => exact ⟨Stack.frames_eq_nil (hdepth ▸ hle), h.env, h.registry, h.config⟩
  | failed =>
      -- The frames of a failed run are dropped down to the base, which is 0.
      refine ⟨?_, h.env, h.registry, h.config⟩
      rw [hdepth]
      exact Stack.frames_truncate_zero _
  | exhausted =>
      refine ⟨?_, h.env, h.registry, h.config⟩
      rw [hdepth]
      exact Stack.frames_truncate_zero _
  | notOneValue _ _ _ hle => exact ⟨Stack.frames_eq_nil (hdepth ▸ hle), h.env, h.registry, h.config⟩

/-- The machines of a session are idle. -/
theorem Session.idle (h : Session config events m) : Idle config m := by
  induction h with
  | fresh host =>
      have hregistry : (Machine.new config host).registry = .standard host := by
        rw [Machine.new, Machine.withRegistry]
      exact ⟨rfl, rfl, ⟨host, hregistry⟩, rfl⟩
  | call fuel _ hperforms ih => exact ih.called (Command.perform_eq_some hperforms)

/-- The run of an entry enters what the entry denotes. -/
theorem Command.start?_runEntry {start : Snapshot} (h : Command.runEntry.start? m = some start) :
    ∃ entry a, m.entry = some entry ∧ m.state.lookup? entry = some a ∧
      start = ⟨.enter a, m.state.enterScope entry .empty⟩ := by
  obtain ⟨entry, hentry, h⟩ := Option.bind_eq_some_iff.1 h
  obtain ⟨a, ha, rfl⟩ := Option.map_eq_some_iff.1 h
  exact ⟨entry, a, hentry, ha, rfl⟩

/-- The snapshots that a run of the entry passes through. -/
def Machine.Visits (m : Machine) (d : Snapshot) : Prop :=
  ∃ start, Command.runEntry.start? m = some start ∧ Reaches m.registry m.state.stack.depth start d

/-- A run of a session starts on an empty stack. -/
theorem Command.frames_of_start? {command : Command} {start : Snapshot} (h : Idle config m)
    (hstart : command.start? m = some start) : start.state.stack.frames = [] := by
  -- A run starts in a new scope, but on the stack of its caller.
  have hstack : start.state.stack = m.state.stack := by
    cases command with
    | load p => cases hstart
    | runEntry =>
        obtain ⟨entry, a, -, -, rfl⟩ := Command.start?_runEntry hstart
        rfl
    | eval name env e => cases hstart; rfl
    | force a => cases hstart; rfl
  rw [hstack, h.frames]

end Session

end Spineless
