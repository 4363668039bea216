import Mathlib.Order.Nat
import Spineless.Proofs.Coupling
import Spineless.Proofs.Session

/-!
# The step budget

A budget cuts a run at its threshold and changes nothing else: a run that ends within the budget ends as
it does without one, and any other run is stopped in front of the first transition that the budget has no
room for. `follow_budget` says so in one equation, with the budget that is left as a parameter; the counter
never reaches its bound before a budget below that bound is used up.
-/

namespace Spineless

open Snapshot

section Follow

variable {r : Registry} {base fuel steps limit : Nat} {c d : Snapshot}

theorem tick_of_lt (h : steps < Bound.word - 1) : tick steps = steps + 1 := by
  unfold tick
  omega

theorem exceeded?_of_le (h : steps ≤ limit) : exceeded? (some limit) steps = none := by
  rw [exceeded?, Option.filter_some, if_neg (by simpa using h)]

theorem exceeded?_of_lt (h : limit < steps) : exceeded? (some limit) steps = some limit := by
  rw [exceeded?, Option.filter_some, if_pos (by simpa using h)]

/-- The ending of a run that is stopped by its budget. -/
def stopped (limit : Nat) (d : Snapshot) : Nat × Outcome State (List Atom) :=
  (limit + 1, .error ⟨.stepLimitExceeded limit, d.state.trace⟩ d.state)

/-- A run with `left` transitions left of its budget ends as the run without a budget if that one ends
within them, and is stopped after them otherwise. -/
theorem follow_budget {left : Nat} (hleft : steps + left = limit) (hlimit : limit < Bound.word - 1) :
    follow r (some limit) base fuel c.code steps c.state =
      (follow r none base (min fuel left) c.code steps c.state).or
        (if fuel ≤ left then none else (after? r base left c).map (stopped limit)) := by
  -- By induction on what is left: one transition takes one from the budget and one from the fuel.
  induction left generalizing fuel steps c with
  | zero =>
      cases fuel with
      | zero => rfl
      | succ fuel =>
          have htick : tick steps = limit + 1 := by
            rw [tick_of_lt (by omega)]
            omega
          rw [follow, htick, exceeded?_of_lt (Nat.lt_succ_self limit)]
          rfl
  | succ left ih =>
      cases fuel with
      | zero => rfl
      | succ fuel =>
          have htick : tick steps = steps + 1 := tick_of_lt (by omega)
          have hroom : exceeded? (some limit) (steps + 1) = none := exceeded?_of_le (by omega)
          have hfuel : (fuel + 1 ≤ left + 1) = (fuel ≤ left) := by
            rw [Nat.add_le_add_iff_right]
          have hfree : exceeded? none (steps + 1) = none := rfl
          rw [follow, Nat.succ_min_succ, follow, htick, hroom, hfree, after?, next?]
          simp only [hfuel]
          cases hstep : step r base c.code c.state with
          | error e t => rfl
          | ok next t =>
              cases next with
              | done atoms => rfl
              | code code' =>
                  exact ih (c := ⟨code', t⟩) (by omega)

/-- A run without a budget that is still going got to some snapshot. -/
theorem exists_after?_of_follow (h : follow r none base fuel c.code steps c.state = none) :
    ∃ d, after? r base fuel c = some d := by
  induction fuel generalizing steps c with
  | zero => exact ⟨c, rfl⟩
  | succ fuel ih =>
      obtain ⟨-, code', t, hstep, h⟩ := follow_succ_eq_none h
      rw [after?, next?, hstep]
      exact ih (c := ⟨code', t⟩) h

/-- A run that comes back to a snapshot never ends. -/
theorem follow_of_cycle {n k : Nat} (hcycle : after? r base (n + 1) c = some c)
    (hd : after? r base k d = some c) : follow r none base fuel d.code steps d.state = none := by
  -- The snapshot in front of the run leads to the one that repeats, so it has a next one that does.
  induction fuel generalizing steps k d with
  | zero => rfl
  | succ fuel ih =>
      have hgoes : ∃ b, d.next? r base = some b ∧ ∃ j, after? r base j b = some c := by
        cases k with
        | zero =>
            cases hd
            obtain ⟨b, hnext, hb⟩ := Option.bind_eq_some_iff.1 hcycle
            exact ⟨b, hnext, n, hb⟩
        | succ k =>
            obtain ⟨b, hnext, hb⟩ := Option.bind_eq_some_iff.1 hd
            exact ⟨b, hnext, k, hb⟩
      obtain ⟨b, hnext, j, hb⟩ := hgoes
      rw [follow_of_code rfl (steps_of_next? hnext)]
      exact ih hb

variable {budget larger : Option Nat} {code : Code} {s : State} {n : Nat}
  {outcome : Outcome State (List Atom)}

/-- The counter of a run that ends with its last unit of fuel shows how many transitions it took. -/
theorem eq_of_follow (h : follow r budget base (fuel + 1) code steps s = some (n, outcome))
    (hrunning : follow r budget base fuel code steps s = none)
    (hword : steps + (fuel + 1) < Bound.word) : n = steps + (fuel + 1) := by
  have htick : tick steps = steps + 1 := tick_of_lt (by omega)
  induction fuel generalizing code steps s with
  | zero =>
      rcases follow_succ h with ⟨_, _, hn, _⟩ | ⟨_, ⟨_, _, _, h'⟩ | ⟨_, _, _, hn, _⟩ | ⟨_, _, _, hn, _⟩⟩
      · rw [hn, htick]
      · cases h'
      · rw [hn, htick]
      · rw [hn, htick]
  | succ fuel ih =>
      obtain ⟨hroom, code', t, hstep, hrunning⟩ := follow_succ_eq_none hrunning
      rw [follow_of_code hroom hstep, htick] at h
      rw [htick] at hrunning
      have hn := ih h hrunning (by omega) (tick_of_lt (by omega))
      omega

/-- A run that its budget does not stop ends in the same way with a larger one. -/
theorem follow_larger (hlarger : ∀ k, exceeded? budget k = none → exceeded? larger k = none)
    (h : follow r budget base fuel code steps s = some (n, outcome))
    (hends : ∀ e t limit, outcome = .error e t → budget = some limit → e.cause ≠ .stepLimitExceeded limit) :
    follow r larger base fuel code steps s = some (n, outcome) := by
  induction fuel generalizing code steps s with
  | zero => cases h
  | succ fuel ih =>
      rcases follow_succ h with
        ⟨limit, hexceeded, -, rfl⟩ | ⟨hroom, ⟨code', t, hstep, h⟩ | ⟨atoms, t, hstep, rfl, rfl⟩ | hfails⟩
      · -- The budget is used up only in the case that is excluded.
        have hbudget : budget = some limit := (Option.filter_eq_some_iff.1 hexceeded).1
        exact absurd rfl (hends _ _ limit rfl hbudget)
      · rw [follow_of_code (hlarger _ hroom) hstep]
        exact ih h
      · exact follow_of_done (hlarger _ hroom) hstep
      · obtain ⟨e, t, hstep, rfl, rfl⟩ := hfails
        exact follow_of_error (hlarger _ hroom) hstep

end Follow

/-! ## Calls under a budget -/

/-- What a call replies when its run returns values: forcing asks for a single one. -/
def Command.reply (command : Command) (atoms : List Atom) (trace : List Ident) : Reply :=
  match command, atoms with
  | .force _, [value] => .ok [value]
  | .force _, _ => .error ⟨.primOpShape "force" (.notOneValue atoms.length), trace⟩
  | _, _ => .ok atoms

/-- What a call makes of the outcome of its run. -/
def Command.answer (command : Command) : Outcome Machine (List Atom) → Reply × Machine
  | .ok atoms m => (command.reply atoms m.state.trace, m)
  | .error e m => (.error e, m)

/-- The machine with a budget for its runs, or with none. -/
def Machine.withBudget (m : Machine) (budget : Option Nat) : Machine :=
  { m with config := { m.config with maxSteps := budget } }

section Calls

variable {m : Machine} {command : Command} {start : Snapshot} {fuel limit n : Nat}

/-- Any call but forcing hands the outcome of its run on. -/
theorem Command.answer_eq_ofOutcome (command : Command) (h : ∀ a, command ≠ .force a) :
    command.answer = Reply.ofOutcome id := by
  funext outcome
  cases outcome with
  | error e m => rfl
  | ok atoms m =>
      cases command with
      | force a => exact absurd rfl (h a)
      | load p | runEntry | eval name env e => rfl

/-- A call that starts a run follows it and answers when it ends. -/
theorem Command.perform_of_start? (hstart : command.start? m = some start) (fuel : Nat) :
    command.perform fuel m =
      (follow m.registry m.config.maxSteps m.state.stack.depth fuel start.code m.count start.state).map
        fun ending => command.answer (m.finish ending.1 ending.2) := by
  cases command with
  | load p => cases hstart
  | runEntry =>
      obtain ⟨entry, a, hentry, hlookup, rfl⟩ := start?_runEntry hstart
      rw [perform, Machine.runEntry_of_lookup? hentry hlookup, Machine.runScoped_eq, Option.map_map,
        answer_eq_ofOutcome .runEntry (by rintro a ⟨⟩)]
      rfl
  | eval name env e =>
      cases hstart
      rw [perform, Machine.eval, Machine.runScoped_eq, Option.map_map,
        answer_eq_ofOutcome (.eval name env e) (by rintro a ⟨⟩)]
      rfl
  | force a =>
      cases hstart
      rw [perform, Machine.force, Machine.runScoped_eq]
      cases follow m.registry m.config.maxSteps m.state.stack.depth fuel (.enter a) m.count
          (m.state.enterScope Machine.forceScope m.state.env) with
      | none => rfl
      | some ending =>
          simp only [Option.map_some]
          cases m.finish ending.1 ending.2 with
          | error e m' => rfl
          | ok atoms m' =>
              rcases atoms with _ | ⟨value, _ | ⟨other, more⟩⟩
              · rfl
              · rfl
              · rfl

/-- The budget of a machine has no part in the answer. -/
theorem Command.answer_withBudget (budget : Option Nat) (steps : Nat)
    (ending : Outcome State (List Atom)) :
    command.answer ((m.withBudget budget).finish steps ending) =
      Prod.map id (·.withBudget budget) (command.answer (m.finish steps ending)) := by
  cases ending with
  | error e s => rfl
  | ok atoms s => rfl

theorem Command.steps_answer (steps : Nat) (ending : Outcome State (List Atom)) :
    (command.answer (m.finish steps ending)).2.steps = steps := by
  cases ending with
  | error e s => rfl
  | ok atoms s => rfl

theorem Command.start?_withBudget (budget : Option Nat) :
    command.start? (m.withBudget budget) = command.start? m := by
  cases command with
  | load p | runEntry | eval name env e | force a => rfl

/-- Without frames on the stack, a call follows its run from base 0 and counts from 0. -/
theorem Command.perform_withBudget (hstart : command.start? m = some start)
    (hidle : m.state.stack.frames = []) (budget : Option Nat) (fuel : Nat) :
    command.perform fuel (m.withBudget budget) =
      (follow m.registry budget 0 fuel start.code 0 start.state).map fun ending =>
        Prod.map id (·.withBudget budget) (command.answer (m.finish ending.1 ending.2)) := by
  have hdepth : m.state.stack.depth = 0 := Stack.depth_of_frames_eq_nil hidle
  have hcount : (m.withBudget budget).count = 0 := if_pos hdepth
  have hperform := perform_of_start? ((start?_withBudget budget).trans hstart) fuel
  simp only [answer_withBudget, hcount] at hperform
  rw [hperform, Machine.withBudget, hdepth]

/-- A call is stopped by its budget: its run is cut after `limit` transitions, in front of the next one,
and what it leaves behind is what is there after them. -/
structure Command.Stopped (m : Machine) (command : Command) (start : Snapshot) (limit : Nat) : Prop where
  takes : command.Takes (m.withBudget (some limit)) (limit + 1)
  cut : ∃ d e m', after? m.registry 0 limit start = some d ∧
    command.perform (limit + 1) (m.withBudget (some limit)) = some (.error e, m') ∧
    e.cause = .stepLimitExceeded limit ∧ m'.steps = limit + 1 ∧ m'.state.contents = d.state.contents

/-- As long as a call is followed within its budget, the budget makes no difference. -/
theorem Command.perform_of_le (hstart : command.start? m = some start)
    (hidle : m.state.stack.frames = []) (hlimit : limit < Bound.word - 1) (hfuel : fuel ≤ limit) :
    command.perform fuel (m.withBudget (some limit)) =
      (command.perform fuel (m.withBudget none)).map (Prod.map id (·.withBudget (some limit))) := by
  rw [perform_withBudget hstart hidle, perform_withBudget hstart hidle,
    follow_budget (Nat.zero_add limit) hlimit, min_eq_left hfuel, if_pos hfuel, Option.or_none,
    Option.map_map]
  rfl

/-- A call that is still going when its budget is used up is stopped. -/
theorem Command.stopped_of_perform (hstart : command.start? m = some start)
    (hidle : m.state.stack.frames = []) (hlimit : limit < Bound.word - 1)
    (hrunning : ∀ k ≤ limit, command.perform k (m.withBudget none) = none) :
    command.Stopped m start limit := by
  have hfollow : follow m.registry none 0 limit start.code 0 start.state = none := by
    have h := hrunning limit le_rfl
    rw [perform_withBudget hstart hidle] at h
    exact Option.map_eq_none_iff.1 h
  obtain ⟨d, hd⟩ := exists_after?_of_follow hfollow
  have hperform : command.perform (limit + 1) (m.withBudget (some limit)) =
      some (.error ⟨.stepLimitExceeded limit, d.state.trace⟩,
        (m.after (limit + 1) (d.state.truncateStack m.state.stack.depth)).withBudget (some limit)) := by
    rw [perform_withBudget hstart hidle, follow_budget (Nat.zero_add limit) hlimit,
      min_eq_right (Nat.le_succ limit), hfollow, if_neg (Nat.not_succ_le_self limit), hd]
    rfl
  refine ⟨⟨by rw [hperform]; rfl, fun k hk => ?_⟩, d, _, _, hd, hperform, rfl, rfl, rfl⟩
  rw [perform_of_le hstart hidle hlimit (Nat.le_of_lt_succ hk), hrunning k (Nat.le_of_lt_succ hk),
    Option.map_none]

/-- The counter shows how many transitions a call took. -/
theorem Command.Takes.steps (hstart : command.start? m = some start)
    (hidle : m.state.stack.frames = []) {budget : Option Nat}
    (htakes : command.Takes (m.withBudget budget) n) (hword : n < Bound.word)
    {reply : Reply} {m' : Machine}
    (hperform : command.perform n (m.withBudget budget) = some (reply, m')) : m'.steps = n := by
  rw [perform_withBudget hstart hidle] at hperform
  obtain ⟨⟨steps, ending⟩, hfollow, heq⟩ := Option.map_eq_some_iff.1 hperform
  cases n with
  | zero => cases hfollow
  | succ n =>
      have hrunning := htakes.2 n (Nat.lt_succ_self n)
      rw [perform_withBudget hstart hidle] at hrunning
      have hsteps := eq_of_follow hfollow (Option.map_eq_none_iff.1 hrunning) (by omega)
      rw [Nat.zero_add] at hsteps
      have hcounter : m'.steps = (command.answer (m.finish steps ending)).2.steps :=
        (congrArg (fun result => result.2.steps) heq).symm
      rw [hcounter, steps_answer, hsteps]

/-- A call takes the same number of transitions under a budget that is large enough. -/
theorem Command.Takes.withBudget (hstart : command.start? m = some start)
    (hidle : m.state.stack.frames = []) (hlimit : limit < Bound.word - 1) (hn : n ≤ limit)
    (htakes : command.Takes (m.withBudget none) n) : command.Takes (m.withBudget (some limit)) n := by
  refine ⟨?_, fun k hk => ?_⟩
  · rw [perform_of_le hstart hidle hlimit hn, Option.isSome_map]
    exact htakes.1
  · rw [perform_of_le hstart hidle hlimit (by omega), htakes.2 k hk, Option.map_none]

/-- A call that came back took some number of transitions. -/
theorem Command.exists_takes (h : (command.perform fuel m).isSome) : ∃ n ≤ fuel, command.Takes m n := by
  have hexists : ∃ k, (command.perform k m).isSome := ⟨fuel, h⟩
  refine ⟨Nat.find hexists, Nat.find_min' hexists h, Nat.find_spec hexists, fun k hk => ?_⟩
  exact Option.not_isSome_iff_eq_none.1 (Nat.find_min hexists hk)

/-- Any larger budget has room for what a budget has room for. -/
theorem exceeded?_larger {larger : Option Nat} (hlarger : ∀ l, larger = some l → limit ≤ l) (k : Nat)
    (hroom : exceeded? (some limit) k = none) : exceeded? larger k = none := by
  cases larger with
  | none => rfl
  | some l =>
      have hk : ¬ limit < k := fun hk => by
        rw [exceeded?_of_lt hk] at hroom
        cases hroom
      have hl : limit ≤ l := hlarger l rfl
      exact exceeded?_of_le (by omega)

/-- A call that its budget does not stop does the same under a larger budget. -/
theorem Command.perform_larger (hstart : command.start? m = some start)
    (hidle : m.state.stack.frames = []) {larger : Option Nat}
    (hlarger : ∀ l, larger = some l → limit ≤ l) {reply : Reply} {m' : Machine}
    (hperform : command.perform fuel (m.withBudget (some limit)) = some (reply, m'))
    (hreply : ∀ e, reply = .error e → e.cause ≠ .stepLimitExceeded limit) :
    command.perform fuel (m.withBudget larger) = some (reply, m'.withBudget larger) := by
  rw [perform_withBudget hstart hidle] at hperform
  obtain ⟨⟨steps, ending⟩, hfollow, heq⟩ := Option.map_eq_some_iff.1 hperform
  have hends : ∀ e t l, ending = .error e t → some limit = some l →
      e.cause ≠ .stepLimitExceeded l := by
    rintro e t l rfl hl
    cases hl
    exact hreply e (congrArg Prod.fst heq).symm
  rw [perform_withBudget hstart hidle, follow_larger (exceeded?_larger hlarger) hfollow hends,
    Option.map_some]
  exact congrArg (fun result => some (result.1, result.2.withBudget larger)) heq

/-- The step budget. On a machine without frames, a call whose run ends without a budget after `n`
transitions does the same under a budget of at least `n`, and counts `n`; under a smaller budget, or if its
run never ends, it is stopped. So every call under a budget comes back, and a larger budget changes nothing
but a stop. -/
theorem Machine.step_budget (hstart : command.start? m = some start) (hidle : m.state.stack.frames = [])
    (hlimit : limit < Bound.word - 1) :
    (∀ n, command.Takes (m.withBudget none) n →
      (n ≤ limit → command.Takes (m.withBudget (some limit)) n ∧
        ∃ reply m', command.perform n (m.withBudget none) = some (reply, m') ∧
          command.perform n (m.withBudget (some limit)) = some (reply, m'.withBudget (some limit)) ∧
          m'.steps = n) ∧
      (limit < n → command.Stopped m start limit)) ∧
    ((∀ fuel, command.perform fuel (m.withBudget none) = none) → command.Stopped m start limit) ∧
    (∃ n ≤ limit + 1, command.Takes (m.withBudget (some limit)) n) ∧
    ∀ larger, (∀ l, larger = some l → limit ≤ l) → ∀ fuel reply m',
      command.perform fuel (m.withBudget (some limit)) = some (reply, m') →
      (∀ e, reply = .error e → e.cause ≠ .stepLimitExceeded limit) →
      command.perform fuel (m.withBudget larger) = some (reply, m'.withBudget larger) := by
  refine ⟨fun n htakes => ⟨fun hn => ?_, fun hn => ?_⟩, fun hrunning => ?_, ?_, ?_⟩
  · obtain ⟨⟨reply, m'⟩, hperform⟩ := Option.isSome_iff_exists.1 htakes.1
    refine ⟨htakes.withBudget hstart hidle hlimit hn, reply, m', hperform, ?_, ?_⟩
    · rw [Command.perform_of_le hstart hidle hlimit hn, hperform]
      rfl
    · exact htakes.steps hstart hidle (by omega) hperform
  · exact Command.stopped_of_perform hstart hidle hlimit fun k hk => htakes.2 k (by omega)
  · exact Command.stopped_of_perform hstart hidle hlimit fun k _ => hrunning k
  · by_cases hends : ∃ k ≤ limit, (command.perform k (m.withBudget none)).isSome
    · obtain ⟨k, hk, hsome⟩ := hends
      obtain ⟨n, hn, htakes⟩ := Command.exists_takes hsome
      exact ⟨n, by omega, htakes.withBudget hstart hidle hlimit (by omega)⟩
    · have hrunning : ∀ k ≤ limit, command.perform k (m.withBudget none) = none := fun k hk =>
        Option.not_isSome_iff_eq_none.1 fun hsome => hends ⟨k, hk, hsome⟩
      exact ⟨limit + 1, le_rfl, (Command.stopped_of_perform hstart hidle hlimit hrunning).takes⟩
  · intro larger hlarger fuel reply m' hperform hreply
    exact Command.perform_larger hstart hidle hlarger hperform hreply

end Calls

/-- A call that takes five transitions. -/
def oneCase : Command :=
  .eval (.ofName "f") .empty
    (.case (.lit (.int 1)) (.ofName "x") .poly [⟨.default, [], .lit (.int 2)⟩])

/-- A machine with a function that calls itself on its argument. -/
def callsItself : Machine :=
  let f : Closure := .ofLambda (.ofName "f") ⟨[.ofName "x"], .app (.ofName "f") [.var (.ofName "x")]⟩
    (.ofList [(.ofName "f", .ptr 0)])
  { Machine.new {} with state := (State.ofConfig {}).grow [some (.closure f)] }

/-- A call of the function. -/
def callF : Command :=
  .eval (.ofName "f") (.ofList [(.ofName "f", .ptr 0), (.ofName "x", .int 1)])
    (.app (.ofName "f") [.var (.ofName "x")])

/-- Five transitions are enough for `oneCase` and four are not; `callF` uses up any budget. -/
theorem Machine.step_budget_oneCase :
    oneCase.Takes ((Machine.new {}).withBudget none) 5 ∧
      oneCase.Takes ((Machine.new {}).withBudget (some 5)) 5 ∧
      (∃ reply m', oneCase.perform 5 ((Machine.new {}).withBudget none) = some (reply, m') ∧
        oneCase.perform 5 ((Machine.new {}).withBudget (some 5)) = some (reply, m'.withBudget (some 5)) ∧
        m'.steps = 5) ∧
      (∃ start, oneCase.Stopped (Machine.new {}) start 4) ∧
      (∀ fuel, callF.perform fuel (callsItself.withBudget none) = none) ∧
      ∃ start, callF.Stopped callsItself start 7 := by
  have htakes : oneCase.Takes ((Machine.new {}).withBudget none) 5 := by
    unfold Command.Takes
    decide +kernel
  obtain ⟨start, hstart⟩ : ∃ start, oneCase.start? (Machine.new {}) = some start := ⟨_, rfl⟩
  have hidle : (Machine.new {}).state.stack.frames = [] := rfl
  obtain ⟨hfive, -⟩ := Machine.step_budget hstart hidle (show 5 < Bound.word - 1 by decide)
  obtain ⟨hfour, -⟩ := Machine.step_budget hstart hidle (show 4 < Bound.word - 1 by decide)
  obtain ⟨htakes', hperform⟩ := (hfive 5 htakes).1 le_rfl
  refine ⟨htakes, htakes', hperform, ⟨start, (hfour 5 htakes).2 (by decide)⟩, ?_⟩
  -- The second call of `f` starts from the same snapshot as the first one.
  obtain ⟨start, hstart, hcycle⟩ : ∃ start, callF.start? callsItself = some start ∧
      after? callsItself.registry 0 3 start = some start := ⟨_, rfl, rfl⟩
  have hidle : callsItself.state.stack.frames = [] := rfl
  have hendless : ∀ fuel, callF.perform fuel (callsItself.withBudget none) = none := by
    intro fuel
    rw [Command.perform_withBudget hstart hidle, follow_of_cycle hcycle hcycle, Option.map_none]
  obtain ⟨-, hseven, -⟩ := Machine.step_budget hstart hidle (show 7 < Bound.word - 1 by decide)
  exact ⟨hendless, start, hseven hendless⟩

end Spineless
