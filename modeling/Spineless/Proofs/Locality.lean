import Spineless.Proofs.Reentrancy
import Spineless.Proofs.Simulation

/-!
# Locality of the control stack

A run does not look below its base. On a machine with frames on its stack, a call does what it does on the
same machine without the frames and with as much room above: the same number of transitions, the same
values or the same cause, and the same state left behind. Only an overflow tells the difference, since it
names the limit, which is counted from the bottom of the stack.

More room changes nothing but an overflow.
-/

namespace Spineless

variable {host : Host}

/-! ## Overflows -/

theorem Cause.mapError_deeper_zero {α : Type} (result : Except Cause α) :
    result.mapError (Cause.deeper 0) = result := by
  cases result with
  | ok a => rfl
  | error c => rw [Except.mapError, Cause.deeper_zero]

section Overflow

variable {base limit : Nat} {code : Code} {s s' : State} {e : Fault}

theorem Rejected.limit_eq {atoms : List Atom} {k : Continuation}
    (h : Rejected s atoms k (.stackOverflow limit)) : limit = s.maxStackDepth := by
  cases h with
  | overflow => rfl

/-- An overflow names the limit of the state in which it happens. -/
theorem Failure.limit_eq (h : Failure (.standard host) base code s e s')
    (hcause : e.cause = .stackOverflow limit) : limit = s.maxStackDepth := by
  cases h with
  | unbound | unboundMember | dangling | blackholed => cases hcause
  | overflow | covered =>
      cases hcause
      rfl
  | operation _ heval =>
      -- Primitive operations push nothing.
      obtain ⟨-, -, hrefused | hunknown⟩ := Registry.standard_evaluate_eq_error heval
      · rw [hcause] at hrefused
        cases hrefused
      · rw [hcause] at hunknown
        cases hunknown
  | @rejected _ _ _ _ cause _ _ _ hwhy =>
      have hcause' : cause = .stackOverflow limit := hcause
      rw [hcause'] at hwhy
      exact hwhy.limit_eq

/-- An overflow of a call names the limit of its machine. -/
theorem Called.limit_eq {m m' : Machine} {command : Command} (hregistry : m.registry = .standard host)
    (hcommand : ∀ p, command ≠ .load p) (h : Called m command (.error e) m')
    (hcause : e.cause = .stackOverflow limit) : limit = m.state.maxStackDepth := by
  generalize hreply : (Except.error e : Reply) = reply at h
  cases h with
  | loaded | notLoaded => exact absurd rfl (hcommand _)
  | returned => cases hreply
  | noEntry hnone =>
      cases hreply
      rcases hnone with hnone | ⟨_, _, _, hnone⟩
      · rw [hnone] at hcause
        cases hcause
      · rw [hnone] at hcause
        cases hcause
  | failed hstart hreach hfails =>
      cases hreply
      have habove := (Command.Passes.reached hstart hreach).above hregistry
      rw [hregistry] at hfails
      exact ((step_eq_error hfails).limit_eq hcause).trans habove.limit
  | exhausted _ _ hexhausted =>
      cases hreply
      rw [hexhausted] at hcause
      cases hcause
  | notOneValue _ _ _ _ hvalues =>
      cases hreply
      rw [hvalues] at hcause
      cases hcause

end Overflow

/-! ## Calls with and without the frames of others -/

/-- What a call shows: the values or the cause of the failure, and what it leaves behind besides the
stack. -/
def Command.shows (command : Command) (fuel : Nat) (m : Machine) :
    Option (Except Cause (List Atom) × Contents × Env × Env) :=
  (command.perform fuel m).map fun result =>
    (result.1.mapError Fault.cause, result.2.state.contents, result.2.state.env, result.2.state.globals)

/-- The machine without its frames and with the same room above them. -/
def Machine.alone (m : Machine) : Machine :=
  { m with state := { m.state with
      stack := .empty
      maxStackDepth := m.state.maxStackDepth - m.state.stack.depth } }

/-- The machine with room for more frames. -/
def Machine.roomier (m : Machine) (extra : Nat) : Machine :=
  { m with state := { m.state with maxStackDepth := m.state.maxStackDepth + extra } }

/-- Two runs that differ in the frames below and in the room above. -/
def Coupling.stacked (below : List Frame) (spare limit : Nat) : Coupling :=
  .ofPerms (Equiv.refl Addr) (Equiv.refl Nat) below spare limit

section Stacked

variable {m n : Machine} {command : Command} {below : List Frame} {spare limit : Nat}

theorem Coupling.names_stacked : (stacked below spare limit).names = .refl := rfl

theorem Coupling.cause_stacked (c : Cause) : (stacked below spare limit).cause c = c.deeper below.length := by
  rw [cause, names_stacked, Renaming.cause_refl]
  rfl

/-- The same call on machines with the same scope shows the same, except that an overflow names another
limit or does not happen where there is more room. -/
theorem Coupling.shows_eq_or (h : (stacked below spare limit).Machines m n)
    (henv : n.state.env = m.state.env) (hglobals : n.state.globals = m.state.globals)
    (hcommand : ∀ p, command ≠ .load p) (fuel : Nat) :
    command.shows fuel n =
        (command.shows fuel m).map (Prod.map (Except.mapError (Cause.deeper below.length)) id) ∨
      0 < spare ∧ ∃ l rest, command.shows fuel m = some (.error (.stackOverflow l), rest) := by
  obtain ⟨host, hregistry⟩ := h.registry
  have hreplies := h.perform rfl hcommand fuel
  have hleaves : ∀ {reply reply' m' n'}, command.perform fuel m = some (reply, m') →
      command.perform fuel n = some (reply', n') →
      n'.state.env = m'.state.env ∧ n'.state.globals = m'.state.globals := by
    intro reply reply' m' n' hm hn
    obtain ⟨-, hmenv, -, hmglobals⟩ := (Command.perform_eq_some hm).restores hregistry hcommand
    obtain ⟨-, hnenv, -, hnglobals⟩ :=
      (Command.perform_eq_some hn).restores (h.registry'.trans hregistry) hcommand
    exact ⟨by rw [hnenv, henv, hmenv], by rw [hnglobals, hglobals, hmglobals]⟩
  unfold Command.shows
  generalize command.perform fuel m = x at hreplies hleaves ⊢
  generalize command.perform fuel n = y at hreplies hleaves ⊢
  cases hreplies with
  | running => exact .inl rfl
  | returned hstore =>
      obtain ⟨henv', hglobals'⟩ := hleaves rfl rfl
      refine .inl ?_
      rw [Option.map_some, Option.map_some, Option.map_some, henv', hglobals', hstore.contents_eq]
      rw [names_stacked, Renaming.map_atom_refl]
      rfl
  | failed hstore hfaults =>
      obtain ⟨henv', hglobals'⟩ := hleaves rfl rfl
      refine .inl ?_
      rw [Option.map_some, Option.map_some, Option.map_some, henv', hglobals', hstore.contents_eq,
        Except.mapError, hfaults.cause, cause_stacked]
      rfl
  | @overflow e m' l result hspare hcause =>
      refine .inr ⟨hspare, l, (m'.state.contents, m'.state.env, m'.state.globals), ?_⟩
      rw [Option.map_some, Except.mapError, hcause]

theorem Frame.stacked_refl (f : Frame) : (Coupling.stacked below spare limit).Frames f f where
  cont := (Renaming.cont_refl f.cont).symm
  trace := rfl
  scope _ _ _ _ := ⟨(Renaming.env_refl f.env).symm, rfl⟩

theorem Coupling.stacked_stacks (frames : List Frame) : (stacked [] spare limit).Stacks frames frames := by
  induction frames with
  | nil => exact .bottom
  | cons f frames ih => exact .push f.stacked_refl ih

/-- A machine without its frames corresponds to the machine with them. -/
theorem Machine.alone_machines (hregistry : m.registry = .standard host) (hbudget : m.config.maxSteps = none)
    (hroom : m.state.stack.depth ≤ m.state.maxStackDepth) :
    (Coupling.stacked m.state.stack.frames 0 m.state.traceLimit).Machines m.alone m where
  states := {
    store := .of_eq rfl rfl rfl rfl rfl
    limit := rfl
    limit' := rfl
    depth := by
      have hdepth := m.state.stack.depth_eq
      change m.state.maxStackDepth =
        m.state.maxStackDepth - m.state.stack.depth + m.state.stack.frames.length + 0
      omega
    frames := .bottom
    trace := rfl
    scope := fun _ => ⟨(Renaming.env_refl m.state.env).symm, rfl⟩ }
  entry := (congrFun Option.map_id m.entry).symm
  registry := ⟨host, hregistry⟩
  registry' := rfl
  budget := rfl
  count := .inr hbudget

/-- A machine corresponds to the machine with more room. -/
theorem Machine.roomier_machines (hregistry : m.registry = .standard host) (extra : Nat) :
    (Coupling.stacked [] extra m.state.traceLimit).Machines m (m.roomier extra) where
  states := {
    store := .of_eq rfl rfl rfl rfl rfl
    limit := rfl
    limit' := rfl
    depth := rfl
    frames := Coupling.stacked_stacks m.state.stack.frames
    trace := rfl
    scope := fun _ => ⟨(Renaming.env_refl m.state.env).symm, rfl⟩ }
  entry := (congrFun Option.map_id m.entry).symm
  registry := ⟨host, hregistry⟩
  registry' := rfl
  budget := rfl
  count := .inl rfl

/-- Calls that show as much at every time take as many transitions. -/
theorem Command.takes_of_shows {f : Except Cause (List Atom) × Contents × Env × Env →
      Except Cause (List Atom) × Contents × Env × Env}
    (h : ∀ fuel, command.shows fuel n = (command.shows fuel m).map f) (k : Nat) :
    command.Takes n k ↔ command.Takes m k := by
  have hsome : ∀ fuel, (command.perform fuel n).isSome = (command.perform fuel m).isSome := by
    intro fuel
    have hshows := congrArg Option.isSome (h fuel)
    rw [Option.isSome_map, shows, Option.isSome_map, shows, Option.isSome_map] at hshows
    exact hshows
  simp only [Takes, ← Option.not_isSome_iff_eq_none, hsome]

/-- A call that shows an overflow failed with it. -/
theorem Command.exists_of_shows {fuel : Nat} {c : Cause} {rest : Contents × Env × Env}
    (h : command.shows fuel m = some (.error c, rest)) :
    ∃ e m', command.perform fuel m = some (.error e, m') ∧ e.cause = c := by
  obtain ⟨⟨reply, m'⟩, hperforms, heq⟩ := Option.map_eq_some_iff.1 h
  cases reply with
  | ok atoms => cases heq
  | error e =>
      cases heq
      exact ⟨e, m', hperforms, rfl⟩

/-- Locality of the control stack. Without a budget, a call on a machine whose frames leave room takes as
many transitions as on the machine without the frames, and shows the same, except that an overflow names
the limit of its machine. Whatever the frames and the budget, room for more frames changes nothing but an
overflow. -/
theorem Machine.stack_locality (hregistry : m.registry = .standard host) (hcommand : ∀ p, command ≠ .load p) :
    (m.config.maxSteps = none → m.state.stack.depth ≤ m.state.maxStackDepth →
      (∀ fuel, command.shows fuel m = (command.shows fuel m.alone).map
        (Prod.map (Except.mapError (Cause.deeper m.state.stack.depth)) id)) ∧
      ∀ k, command.Takes m k ↔ command.Takes m.alone k) ∧
    (∀ fuel l rest, command.shows fuel m = some (.error (.stackOverflow l), rest) →
      l = m.state.maxStackDepth) ∧
    ∀ extra fuel, (∀ l rest, command.shows fuel m ≠ some (.error (.stackOverflow l), rest)) →
      command.shows fuel (m.roomier extra) = command.shows fuel m := by
  refine ⟨fun hbudget hroom => ?_, fun fuel l rest hshows => ?_, fun extra fuel hfits => ?_⟩
  · have hshows : ∀ fuel, command.shows fuel m = (command.shows fuel m.alone).map
        (Prod.map (Except.mapError (Cause.deeper m.state.stack.depth)) id) := by
      intro fuel
      have hcoupled := Coupling.shows_eq_or (alone_machines hregistry hbudget hroom) rfl rfl hcommand fuel
      rw [← m.state.stack.depth_eq] at hcoupled
      exact hcoupled.resolve_right fun hspare => absurd hspare.1 (Nat.lt_irrefl 0)
    exact ⟨hshows, Command.takes_of_shows hshows⟩
  · obtain ⟨e, m', hperforms, hcause⟩ := Command.exists_of_shows hshows
    exact (Command.perform_eq_some hperforms).limit_eq hregistry hcommand hcause
  · have hcoupled := Coupling.shows_eq_or (roomier_machines hregistry extra) rfl rfl hcommand fuel
    rcases hcoupled with hshows | ⟨-, l, rest, hoverflow⟩
    · have hsame : Prod.map (Except.mapError (Cause.deeper 0)) id =
          (id : Except Cause (List Atom) × Contents × Env × Env → _) :=
        funext fun shown => Prod.ext (Cause.mapError_deeper_zero shown.1) rfl
      rw [hshows, List.length_nil, hsame, Option.map_id_apply]
    · exact absurd hoverflow (hfits l rest)

end Stacked

/-- Two cases, one in the scrutinee of the other. -/
def nestedCases : Command :=
  .eval (.ofName "f") .empty
    (.case (.case (.lit (.int 1)) (.ofName "x") .poly [⟨.default, [], .lit (.int 2)⟩]) (.ofName "y") .poly
      [⟨.default, [], .lit (.int 3)⟩])

/-- Whether what a call shows is an overflow at a limit. -/
def overflowsAt (limit : Nat) : Except Cause (List Atom) → Bool
  | .error (.stackOverflow l) => l == limit
  | _ => false

/-- On `oneFrameLeft`, the outer case takes the last frame that there is room for and the inner one
overflows the stack; without the frame that waits there and with room for one, it does so too. Room for one
more frame lets the call return, and still more changes nothing. -/
theorem Machine.stack_locality_nestedCases :
    oneFrameLeft.config.maxSteps = none ∧ oneFrameLeft.state.stack.depth = 1 ∧
      oneFrameLeft.state.maxStackDepth = 2 ∧
      (∃ rest, nestedCases.shows 9 oneFrameLeft.alone = some (.error (.stackOverflow 1), rest) ∧
        nestedCases.shows 9 oneFrameLeft = some (.error (.stackOverflow 2), rest)) ∧
      ∃ atoms rest, nestedCases.shows 9 (oneFrameLeft.roomier 1) = some (.ok atoms, rest) ∧
        nestedCases.shows 9 ((oneFrameLeft.roomier 1).roomier 3) = some (.ok atoms, rest) := by
  have hoverflows : (nestedCases.shows 9 oneFrameLeft.alone).any (fun shown => overflowsAt 1 shown.1) := by
    decide +kernel
  have hreturns : (nestedCases.shows 9 (oneFrameLeft.roomier 1)).any (fun shown => shown.1.isOk) := by
    decide +kernel
  have hregistry : oneFrameLeft.registry = .standard := by
    rw [oneFrameLeft, Machine.new, Machine.withRegistry]
  have hcommand : ∀ p, nestedCases ≠ .load p := by
    intro p h
    cases h
  obtain ⟨hlocal, -, -⟩ := Machine.stack_locality hregistry hcommand
  have hroomier : (oneFrameLeft.roomier 1).registry = .standard := by
    rw [Machine.roomier, hregistry]
  obtain ⟨-, -, hmore⟩ := Machine.stack_locality hroomier hcommand
  have hbudget : oneFrameLeft.config.maxSteps = none := by decide +kernel
  have hdepth : oneFrameLeft.state.stack.depth = 1 := by decide +kernel
  have hlimit : oneFrameLeft.state.maxStackDepth = 2 := by decide +kernel
  refine ⟨hbudget, hdepth, hlimit, ?_, ?_⟩
  · obtain ⟨⟨result, rest⟩, hshows, hresult⟩ := (Option.any_eq_true _ _).1 hoverflows
    obtain rfl : result = .error (.stackOverflow 1) := by
      unfold overflowsAt at hresult
      split at hresult
      · next heq =>
        rw [beq_iff_eq.1 hresult] at heq
        exact heq
      · cases hresult
    refine ⟨rest, hshows, ?_⟩
    rw [(hlocal hbudget (by omega)).1 9, hshows, hdepth]
    rfl
  · obtain ⟨⟨result, rest⟩, hshows, hresult⟩ := (Option.any_eq_true _ _).1 hreturns
    cases result with
    | error c => cases hresult
    | ok atoms =>
        refine ⟨atoms, rest, hshows, ?_⟩
        have hfits : ∀ l rest', nestedCases.shows 9 (oneFrameLeft.roomier 1) ≠
            some (.error (.stackOverflow l), rest') := by
          intro l rest' h
          rw [hshows] at h
          cases h
        rw [hmore 3 9 hfits, hshows]

end Spineless
