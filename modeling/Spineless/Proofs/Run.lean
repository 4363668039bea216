import Mathlib.Logic.Relation
import Spineless.Machine.Run
import Spineless.Proofs.Step

/-!
# Runs as sequences of snapshots

A snapshot is a run between two transitions. `Reaches` is the reflexive and transitive closure of one
step, and `follow_eq_some` says what a followed run is: it reached a snapshot and ended there, with the
values that returned at the base, with the fault of a failing step, or because its budget was used up.
Facts about runs are proved for one step and carried along `Reaches`.
-/

namespace Spineless

/-- A run between two transitions: the work in front of it, and its state. -/
structure Snapshot where
  code : Code
  state : State

namespace Snapshot

variable {r : Registry} {base : Nat} {c d : Snapshot}

/-- One transition leads from one snapshot to the next. -/
def Steps (r : Registry) (base : Nat) (c d : Snapshot) : Prop :=
  step r base c.code c.state = .ok (.code d.code) d.state

/-- Some number of transitions leads from one snapshot to another. -/
def Reaches (r : Registry) (base : Nat) : Snapshot → Snapshot → Prop :=
  Relation.ReflTransGen (Steps r base)

/-- The snapshot that one transition leads to, if the run goes on. -/
def next? (r : Registry) (base : Nat) (c : Snapshot) : Option Snapshot :=
  match step r base c.code c.state with
  | .ok (.code code) state => some ⟨code, state⟩
  | _ => none

theorem steps_of_next? (h : c.next? r base = some d) : Steps r base c d := by
  unfold next? at h
  split at h
  · next hstep =>
    cases h
    exact hstep
  · cases h

/-- The snapshot that a number of transitions leads to, if the run goes on for so long. -/
def after? (r : Registry) (base : Nat) : Nat → Snapshot → Option Snapshot
  | 0, c => some c
  | n + 1, c => (c.next? r base).bind (after? r base n)

theorem reaches_of_after? {n : Nat} (h : after? r base n c = some d) : Reaches r base c d := by
  induction n generalizing c with
  | zero =>
      cases h
      exact .refl
  | succ n ih =>
      obtain ⟨b, hb, hd⟩ := Option.bind_eq_some_iff.1 h
      exact .head (steps_of_next? hb) (ih hd)

theorem Steps.transition (h : Steps r base c d) : Transition r base c.code c.state d.code d.state :=
  step_eq_code h

/-- A property that every step preserves holds wherever a run gets to. -/
theorem Reaches.preserves {P : Snapshot → Prop} (hstep : ∀ c d, Steps r base c d → P c → P d)
    (h : Reaches r base c d) (hc : P c) : P d := by
  induction h with
  | refl => exact hc
  | tail _ hlast ih => exact hstep _ _ hlast ih

/-- How a run ends: the snapshot in which it ends decides the outcome. -/
inductive Ends (r : Registry) (base : Nat) (d : Snapshot) : Outcome State (List Atom) → Prop
  /-- Values return at the base. -/
  | returned {atoms : List Atom} (code : d.code = .ret atoms) (depth : d.state.stack.depth ≤ base) :
      Ends r base d (.ok atoms d.state)
  /-- A step fails. -/
  | failed {e : Fault} {t : State} (fails : step r base d.code d.state = .error e t) :
      Ends r base d (.error e t)
  /-- The budget is used up. -/
  | exhausted {limit : Nat} :
      Ends r base d (.error ⟨.stepLimitExceeded limit, d.state.trace⟩ d.state)

end Snapshot

open Snapshot

section Follow

variable {r : Registry} {budget : Option Nat} {base fuel steps n : Nat} {code : Code} {s : State}
  {outcome : Outcome State (List Atom)}

/-- A run that was followed to its end goes on by one step, or ends where it stands. -/
theorem follow_succ (h : follow r budget base (fuel + 1) code steps s = some (n, outcome)) :
    (∃ limit, exceeded? budget (tick steps) = some limit ∧ n = tick steps ∧
      outcome = .error ⟨.stepLimitExceeded limit, s.trace⟩ s) ∨
    (exceeded? budget (tick steps) = none ∧
      ((∃ code' t, step r base code s = .ok (.code code') t ∧
          follow r budget base fuel code' (tick steps) t = some (n, outcome)) ∨
        (∃ atoms t, step r base code s = .ok (.done atoms) t ∧ n = tick steps ∧ outcome = .ok atoms t) ∨
        ∃ e t, step r base code s = .error e t ∧ n = tick steps ∧ outcome = .error e t)) := by
  rw [follow] at h
  cases hex : exceeded? budget (tick steps) with
  | some limit =>
      simp only [hex, Option.some.injEq, Prod.mk.injEq] at h
      exact .inl ⟨limit, rfl, h.1.symm, h.2.symm⟩
  | none =>
      refine .inr ⟨rfl, ?_⟩
      simp only [hex] at h
      cases hstep : step r base code s with
      | error e t =>
          simp only [hstep, Option.some.injEq, Prod.mk.injEq] at h
          exact .inr (.inr ⟨e, t, rfl, h.1.symm, h.2.symm⟩)
      | ok next t =>
          cases next with
          | code code' =>
              simp only [hstep] at h
              exact .inl ⟨code', t, rfl, h⟩
          | done atoms =>
              simp only [hstep, Option.some.injEq, Prod.mk.injEq] at h
              exact .inr (.inl ⟨atoms, t, rfl, h.1.symm, h.2.symm⟩)

/-- A run that was followed to its end reached a snapshot and ended there. -/
theorem follow_eq_some (h : follow r budget base fuel code steps s = some (n, outcome)) :
    ∃ d, Reaches r base ⟨code, s⟩ d ∧ Ends r base d outcome := by
  -- By induction on the fuel: the first step leads to where the rest of the run starts.
  induction fuel generalizing code steps s with
  | zero => cases h
  | succ fuel ih =>
      rcases follow_succ h with ⟨limit, -, -, rfl⟩ | ⟨-, ⟨code', t, hstep, h⟩ | hdone | hfail⟩
      · exact ⟨⟨code, s⟩, .refl, .exhausted⟩
      · obtain ⟨d, hreach, hends⟩ := ih h
        have hfirst : Steps r base ⟨code, s⟩ ⟨code', t⟩ := hstep
        exact ⟨d, .head hfirst hreach, hends⟩
      · obtain ⟨atoms, t, hstep, -, rfl⟩ := hdone
        obtain ⟨rfl, rfl, hdepth⟩ := step_eq_done hstep
        exact ⟨⟨.ret atoms, t⟩, .refl, .returned rfl hdepth⟩
      · obtain ⟨e, t, hstep, -, rfl⟩ := hfail
        exact ⟨⟨code, s⟩, .refl, .failed hstep⟩

theorem follow_of_code {code' : Code} {t : State} (hbudget : exceeded? budget (tick steps) = none)
    (hstep : step r base code s = .ok (.code code') t) :
    follow r budget base (fuel + 1) code steps s = follow r budget base fuel code' (tick steps) t := by
  rw [follow]
  simp only [hbudget, hstep]

theorem follow_of_done {atoms : List Atom} {t : State} (hbudget : exceeded? budget (tick steps) = none)
    (hstep : step r base code s = .ok (.done atoms) t) :
    follow r budget base (fuel + 1) code steps s = some (tick steps, .ok atoms t) := by
  rw [follow]
  simp only [hbudget, hstep]

theorem follow_of_error {e : Fault} {t : State} (hbudget : exceeded? budget (tick steps) = none)
    (hstep : step r base code s = .error e t) :
    follow r budget base (fuel + 1) code steps s = some (tick steps, .error e t) := by
  rw [follow]
  simp only [hbudget, hstep]

/-- A run that is still going made its first step within its budget. -/
theorem follow_succ_eq_none (h : follow r budget base (fuel + 1) code steps s = none) :
    exceeded? budget (tick steps) = none ∧
      ∃ code' t, step r base code s = .ok (.code code') t ∧
        follow r budget base fuel code' (tick steps) t = none := by
  cases hex : exceeded? budget (tick steps) with
  | some limit =>
      rw [follow] at h
      simp only [hex] at h
      cases h
  | none =>
      refine ⟨rfl, ?_⟩
      cases hstep : step r base code s with
      | error e t =>
          rw [follow_of_error hex hstep] at h
          cases h
      | ok next t =>
          cases next with
          | done atoms =>
              rw [follow_of_done hex hstep] at h
              cases h
          | code code' =>
              rw [follow_of_code hex hstep] at h
              exact ⟨code', t, rfl, h⟩

/-- Entering an evaluated atom at the base takes two transitions. -/
theorem follow_evaluated {a : Atom} (hevaluated : s.Evaluated a) (hdepth : s.stack.depth ≤ base)
    (hfirst : exceeded? budget (tick steps) = none) (hsecond : exceeded? budget (tick (tick steps)) = none) :
    follow r budget base (fuel + 2) (.enter a) steps s = some (tick (tick steps), .ok [a] s) := by
  rw [follow_of_code hfirst (step_enter_of_evaluated hevaluated)]
  exact follow_of_done hsecond (step_ret_of_le hdepth)

/-- Entering an atom takes at least two transitions, so a run that does and succeeds has a budget for
two. -/
theorem budget_of_follow_enter {a : Atom} {atoms : List Atom} {t : State}
    (h : follow r budget base fuel (.enter a) steps s = some (n, .ok atoms t)) :
    exceeded? budget (tick steps) = none ∧ exceeded? budget (tick (tick steps)) = none := by
  cases fuel with
  | zero => cases h
  | succ fuel =>
      rcases follow_succ h with
        ⟨_, _, _, heq⟩ | ⟨hfirst, ⟨code', u, _, h⟩ | hdone | ⟨_, _, _, _, heq⟩⟩
      · cases heq
      · cases fuel with
        | zero => cases h
        | succ fuel =>
            rcases follow_succ h with ⟨_, _, _, heq⟩ | ⟨hsecond, -⟩
            · cases heq
            · exact ⟨hfirst, hsecond⟩
      · -- A run is over when values return, not when an atom is entered.
        obtain ⟨_, _, hstep, -⟩ := hdone
        cases (step_eq_done hstep).1
      · cases heq

end Follow

end Spineless
