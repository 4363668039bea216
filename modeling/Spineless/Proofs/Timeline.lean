import Spineless.Proofs.Session

/-!
# Sessions, transition by transition

`Session` lists the calls of a session and sees the machine between them only. Here a session is observed
after every transition. `Moment.Next` has one rule for each thing that can happen: a program is loaded or
not, a call starts its run, the run takes a transition, comes back, fails or uses up its budget, and the
frames of a run that failed are dropped. `Moment.Later` is its reflexive and transitive closure, so a
statement about a moment and all later ones ranges over the rest of a call and over the calls after it.

Every call that comes back is a path of this system (`Moment.later_of_perform`), and so is every session
(`Session.later`). A run that never ends has moments too, but none in which the machine is idle again.
-/

namespace Spineless

open Snapshot

/-- A session at one moment. A call that is under way knows the machine on which it was made and the
number of transitions counted so far. -/
inductive Moment where
  /-- No call is under way. -/
  | idle (m : Machine)
  /-- The run of a call stands between two transitions. -/
  | running (m : Machine) (steps : Nat) (d : Snapshot)
  /-- The run of a call failed, and its frames are still on the stack. -/
  | failed (m : Machine) (steps : Nat) (s : State)

namespace Moment

/-- The state of the machine at a moment. -/
def state : Moment → State
  | .idle m => m.state
  | .running _ _ d => d.state
  | .failed _ _ s => s

/-- The machine as the last call found it, or as it is if no call is under way. -/
def machine : Moment → Machine
  | .idle m | .running m _ _ | .failed m _ _ => m

/-- What may happen next. -/
inductive Next : Moment → Moment → Prop
  /-- A program is loaded. -/
  | loaded {m m' : Machine} {p : Program} (loads : Machine.load p m = .ok () m') :
      Next (.idle m) (.idle m')
  /-- A program cannot be loaded. -/
  | notLoaded {m m' : Machine} {p : Program} {e : Fault} (loads : Machine.load p m = .error e m') :
      Next (.idle m) (.idle m')
  /-- A call starts its run. -/
  | starts {m : Machine} {command : Command} {start : Snapshot} (start? : command.start? m = some start) :
      Next (.idle m) (.running m (if m.state.stack.depth = 0 then 0 else m.steps) start)
  /-- The run takes a transition. -/
  | steps {m : Machine} {n : Nat} {c d : Snapshot} (budget : exceeded? m.config.maxSteps (tick n) = none)
      (step : Steps m.registry m.state.stack.depth c d) : Next (.running m n c) (.running m (tick n) d)
  /-- The run comes back with values. -/
  | returns {m : Machine} {n : Nat} {d : Snapshot} {atoms : List Atom}
      (budget : exceeded? m.config.maxSteps (tick n) = none) (code : d.code = .ret atoms)
      (depth : d.state.stack.depth ≤ m.state.stack.depth) :
      Next (.running m n d) (.idle (m.after (tick n) d.state))
  /-- A transition of the run fails. -/
  | fails {m : Machine} {n : Nat} {d : Snapshot} {e : Fault} {t : State}
      (budget : exceeded? m.config.maxSteps (tick n) = none)
      (step : step m.registry m.state.stack.depth d.code d.state = .error e t) :
      Next (.running m n d) (.failed m (tick n) t)
  /-- The budget of the run is used up. -/
  | exhausted {m : Machine} {n limit : Nat} {d : Snapshot}
      (budget : exceeded? m.config.maxSteps (tick n) = some limit) :
      Next (.running m n d) (.failed m (tick n) d.state)
  /-- The frames of a run that failed are dropped. -/
  | unwinds {m : Machine} {n : Nat} {s : State} :
      Next (.failed m n s) (.idle (m.after n (s.truncateStack m.state.stack.depth)))

/-- One moment is the other or comes before it. -/
def Later : Moment → Moment → Prop := Relation.ReflTransGen Next

/-! ## Calls are paths -/

section Calls

variable {m m' : Machine} {fuel steps n : Nat} {code : Code} {s : State} {name : Ident} {env : Env}

/-- A run that was followed to its end is a path to the moment in which it returned or failed. -/
theorem later_of_follow {outcome : Outcome State (List Atom)}
    (h : follow m.registry m.config.maxSteps m.state.stack.depth fuel code steps s = some (n, outcome)) :
    match outcome with
    | .ok _ t => Later (.running m steps ⟨code, s⟩) (.idle (m.after n t))
    | .error _ t => Later (.running m steps ⟨code, s⟩) (.failed m n t) := by
  induction fuel generalizing code steps s with
  | zero => cases h
  | succ fuel ih =>
      rcases follow_succ h with ⟨limit, hbudget, rfl, rfl⟩ | ⟨hbudget, ⟨code', t, hstep, h⟩ | hdone | hfail⟩
      · exact .single (.exhausted hbudget)
      · -- The first transition leads to where the rest of the run starts.
        have hfirst : Next (.running m steps ⟨code, s⟩) (.running m (tick steps) ⟨code', t⟩) :=
          .steps hbudget hstep
        have hrest := ih h
        cases outcome with
        | ok atoms u => exact .head hfirst hrest
        | error e u => exact .head hfirst hrest
      · obtain ⟨atoms, t, hstep, rfl, rfl⟩ := hdone
        obtain ⟨rfl, rfl, hdepth⟩ := step_eq_done hstep
        exact .single (.returns hbudget rfl hdepth)
      · obtain ⟨e, t, hstep, rfl, rfl⟩ := hfail
        exact .single (.fails hbudget hstep)

/-- Without a budget every transition of a run is a moment. -/
theorem later_of_reaches {c d : Snapshot} (hbudget : m.config.maxSteps = none)
    (h : Reaches m.registry m.state.stack.depth c d) (n : Nat) :
    ∃ n', Later (.running m n c) (.running m n' d) := by
  induction h with
  | refl => exact ⟨n, .refl⟩
  | tail _ hstep ih =>
      obtain ⟨n', hlater⟩ := ih
      refine ⟨tick n', hlater.tail (.steps ?_ hstep)⟩
      rw [hbudget]
      rfl

/-- The run that a call starts is a path to the machine that it leaves. -/
theorem later_of_runScoped (command : Command) {outcome : Outcome Machine (List Atom)}
    (hstart : command.start? m = some ⟨code, m.state.enterScope name env⟩)
    (h : m.runScoped fuel name env code = some outcome) :
    Later (.idle m) (.idle (Reply.ofOutcome id outcome).2) := by
  unfold Machine.runScoped at h
  cases hfollow : follow m.registry m.config.maxSteps m.state.stack.depth fuel code
      (if m.state.stack.depth = 0 then 0 else m.steps) (m.state.enterScope name env) with
  | none => simp only [hfollow] at h; cases h
  | some result =>
      obtain ⟨steps, ending⟩ := result
      simp only [hfollow] at h
      have hrun := later_of_follow hfollow
      cases ending with
      | ok atoms t =>
          cases h
          exact .head (.starts hstart) hrun
      | error e t =>
          cases h
          exact .head (.starts hstart) (.tail hrun .unwinds)

/-- Forcing an atom leaves the machine that its run leaves, whatever values come back. -/
theorem force_eq_some {a : Atom} {outcome : Outcome Machine Atom} (h : m.force fuel a = some outcome) :
    ∃ ending, m.runScoped fuel Machine.forceScope m.state.env (.enter a) = some ending ∧
      (Reply.ofOutcome ([·]) outcome).2 = (Reply.ofOutcome id ending).2 := by
  unfold Machine.force at h
  cases hrun : m.runScoped fuel Machine.forceScope m.state.env (.enter a) with
  | none => simp only [hrun] at h; cases h
  | some ending =>
      refine ⟨ending, rfl, ?_⟩
      simp only [hrun] at h
      cases ending with
      | error e m₁ => cases h; rfl
      | ok atoms m₁ =>
          rcases atoms with _ | ⟨value, _ | ⟨other, more⟩⟩
          · cases h; rfl
          · cases h; rfl
          · cases h; rfl

/-- A call that comes back is a path to the machine that it leaves. -/
theorem later_of_perform {command : Command} {reply : Reply}
    (h : command.perform fuel m = some (reply, m')) : Later (.idle m) (.idle m') := by
  cases command with
  | load p =>
      rw [Command.perform, Option.some.injEq] at h
      cases hload : Machine.load p m with
      | ok u m₁ =>
          rw [hload] at h
          cases h
          exact .single (.loaded hload)
      | error e m₁ =>
          rw [hload] at h
          cases h
          exact .single (.notLoaded hload)
  | runEntry =>
      obtain ⟨outcome, hrun, houtcome⟩ := Option.map_eq_some_iff.1 h
      rcases Machine.runEntry_eq_some hrun with ⟨e, rfl, -⟩ | ⟨entry, a, hentry, hlookup, hrun⟩
      · cases houtcome
        exact .refl
      · have hstart : Command.runEntry.start? m = some ⟨.enter a, m.state.enterScope entry .empty⟩ := by
          simp only [Command.start?, hentry, hlookup, Option.bind_some, Option.map_some]
        have hlater := later_of_runScoped .runEntry hstart hrun
        rw [houtcome] at hlater
        exact hlater
  | eval name env e =>
      obtain ⟨outcome, hrun, houtcome⟩ := Option.map_eq_some_iff.1 h
      have hlater := later_of_runScoped (.eval name env e) rfl hrun
      rw [houtcome] at hlater
      exact hlater
  | force a =>
      obtain ⟨outcome, hforce, houtcome⟩ := Option.map_eq_some_iff.1 h
      obtain ⟨ending, hrun, hmachine⟩ := force_eq_some hforce
      have hlater := later_of_runScoped (.force a) rfl hrun
      rw [← hmachine, houtcome] at hlater
      exact hlater

end Calls

end Moment

open Moment

section Session

variable {config : Config} {events : List Event} {m : Machine} {μ ν : Moment}

/-- Every machine of a session comes after the fresh one. -/
theorem Session.later (h : Session config events m) :
    ∃ host, Later (.idle (.new config host)) (.idle m) := by
  induction h with
  | fresh host => exact ⟨host, .refl⟩
  | call fuel _ hperforms ih =>
      obtain ⟨host, hlater⟩ := ih
      exact ⟨host, hlater.trans (later_of_perform hperforms)⟩

/-- A run on an idle machine takes the transitions of the standard operations. -/
theorem Idle.transition {c d : Snapshot} (hidle : Idle config m)
    (h : Steps m.registry m.state.stack.depth c d) :
    ∃ host, Transition (.standard host) m.state.stack.depth c.code c.state d.code d.state := by
  obtain ⟨host, hregistry⟩ := hidle.registry
  rw [hregistry] at h
  exact ⟨host, h.transition⟩

theorem Idle.failure {d : Snapshot} {e : Fault} {t : State} (hidle : Idle config m)
    (h : step m.registry m.state.stack.depth d.code d.state = .error e t) :
    ∃ host, Failure (.standard host) m.state.stack.depth d.code d.state e t := by
  obtain ⟨host, hregistry⟩ := hidle.registry
  rw [hregistry] at h
  exact ⟨host, step_eq_error h⟩

/-- The machine that calls are made on stays idle. -/
theorem Moment.Next.idle (h : Next μ ν) (hμ : Idle config μ.machine) : Idle config ν.machine := by
  cases h with
  | @loaded m m' p hload =>
      have hperforms : (Command.load p).perform 0 m = some (.ok [], m') := by
        rw [Command.perform, hload]
        rfl
      exact hμ.called (Command.perform_load hperforms)
  | @notLoaded m m' p e hload =>
      have hperforms : (Command.load p).perform 0 m = some (.error e, m') := by
        rw [Command.perform, hload]
        rfl
      exact hμ.called (Command.perform_load hperforms)
  | starts | steps | fails | exhausted => exact hμ
  | returns _ _ hdepth =>
      have hframes := Stack.frames_eq_nil (hμ.depth ▸ hdepth)
      exact ⟨hframes, hμ.env, hμ.registry, hμ.config⟩
  | @unwinds m n s =>
      have hdepth : m.state.stack.depth = 0 := hμ.depth
      refine ⟨?_, hμ.env, hμ.registry, hμ.config⟩
      rw [hdepth]
      exact Stack.frames_truncate_zero _

end Session

end Spineless
