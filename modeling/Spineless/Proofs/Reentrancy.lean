import Spineless.Proofs.Provenance
import Spineless.Proofs.Session

/-!
# Re-entrancy

A call may be made while the frames of others are on the stack; its run starts above them. A transition
keeps the stack, pushes one frame if there is room, or takes the topmost frame off, which it does only
above the base of the run (`StackMove`). So the frames of the caller lie untouched at the bottom during
the whole run, and unwinding to the base brings back the caller's stack, whichever transition failed.

Nothing is assumed of the machine here but its primitive operations: the stack, the heap and the
environments may be any.
-/

namespace Spineless

open Snapshot

variable {host : Host}

/-! ## What a transition does to the stack -/

/-- What a transition does to the stack. -/
inductive StackMove (base : Nat) (code : Code) (s s' : State) : Prop
  /-- Nothing. -/
  | kept (stack : s'.stack = s.stack)
  /-- One more frame, for which there is room. -/
  | pushed {f : Frame} (room : s.HasRoom) (stack : s'.stack = s.stack.push f)
  /-- Values go to the topmost frame. -/
  | popped {atoms : List Atom} {frame : Frame} (code : code = .ret atoms)
      (pop : s.stack.pop? = some (frame, s'.stack)) (above : base < s.stack.depth)
  /-- Values go to the topmost frame, and another frame takes its place. -/
  | replaced {atoms : List Atom} {frame f : Frame} {rest : Stack} (code : code = .ret atoms)
      (pop : s.stack.pop? = some (frame, rest)) (above : base < s.stack.depth)
      (stack : s'.stack = rest.push f)

section Move

variable {base : Nat} {code code' : Code} {s s' : State} {e : Fault}

/-- Every transition moves the stack in one of these ways. -/
theorem Transition.stackMove (h : Transition (.standard host) base code s code' s') :
    StackMove base code s s' := by
  cases h with
  | @app _ _ _ _ atoms _ _ _ hroom =>
      cases atoms with
      | nil => exact .kept rfl
      | cons a atoms => exact .pushed (hroom.resolve_left (List.cons_ne_nil _ _)) rfl
  | lit | conApp | multiVal | letOne | letGroup | enterScalar | enterValue => exact .kept rfl
  | opApp _ heval => exact .kept (Registry.standard_evaluate_eq_ok heval).frame.2.1
  | case hroom => exact .pushed hroom rfl
  | enterThunk _ _ hroom => exact .pushed hroom rfl
  | update hpop habove => exact .popped rfl hpop habove
  | applyPartial hpop habove => exact .popped rfl hpop habove
  | @applyFull _ frame rest args p c hpop habove =>
      -- The arguments left over, if any, wait where the frame was.
      generalize args.drop c.missing = extra
      cases extra with
      | nil => exact .popped rfl hpop habove
      | cons a extra => exact .replaced rfl hpop habove rfl
  | @select _ frame rest binder _ _ atoms _ _ _ hpop habove =>
      obtain ⟨env, henv⟩ := State.bindValue_eq (s.resumed frame rest) binder atoms
      rw [henv]
      exact .popped rfl hpop habove

/-- A transition that fails keeps the stack or takes the topmost frame off. -/
theorem Failure.stackMove (h : Failure (.standard host) base code s e s') : StackMove base code s s' := by
  cases h with
  | unbound | unboundMember | overflow | dangling | blackholed | covered => exact .kept rfl
  | operation _ heval =>
      obtain ⟨rfl, -⟩ := Registry.standard_evaluate_eq_error heval
      exact .kept rfl
  | rejected hpop habove => exact .popped rfl hpop habove

theorem State.maxStackDepth_pushArgs {args : List Atom} :
    (s.pushArgs args).maxStackDepth = s.maxStackDepth := by
  unfold State.pushArgs
  split <;> rfl

/-- A transition leaves the limit on the depth alone. -/
theorem Transition.maxStackDepth_eq (h : Transition (.standard host) base code s code' s') :
    s'.maxStackDepth = s.maxStackDepth := by
  cases h with
  | app => exact State.maxStackDepth_pushArgs
  | lit | conApp | multiVal | case | letOne | letGroup | enterScalar | enterValue | enterThunk => rfl
  | opApp _ heval =>
      cases Registry.standard_evaluate_eq_ok heval with
      | reply | counted | allocated | appended | overwritten => rfl
  | update | applyPartial => rfl
  | applyFull => exact State.maxStackDepth_pushArgs
  | @select _ frame rest binder _ _ atoms =>
      obtain ⟨env, henv⟩ := State.bindValue_eq (s.resumed frame rest) binder atoms
      rw [henv]
      rfl

/-- So does a transition that fails, which leaves the top-level variables alone as well. -/
theorem Failure.globals_eq (h : Failure (.standard host) base code s e s') :
    s'.globals = s.globals ∧ s'.maxStackDepth = s.maxStackDepth := by
  cases h with
  | unbound | unboundMember | overflow | dangling | blackholed | covered | rejected => exact ⟨rfl, rfl⟩
  | operation _ heval =>
      obtain ⟨rfl, -⟩ := Registry.standard_evaluate_eq_error heval
      exact ⟨rfl, rfl⟩

end Move

/-! ## Runs above the frames of a caller -/

/-- A state of a run above the frames of its caller `s`. -/
structure State.Above (s t : State) : Prop where
  frames : s.stack.frames <:+ t.stack.frames
  globals : t.globals = s.globals
  limit : t.maxStackDepth = s.maxStackDepth
  depth : s.stack.depth ≤ s.maxStackDepth → t.stack.depth ≤ s.maxStackDepth

section Above

variable {s t u : State} {code : Code}

/-- The depth of a stack whose topmost frame came off. -/
theorem Stack.depth_of_pop? {st rest : Stack} {frame : Frame} (h : st.pop? = some (frame, rest)) :
    st.depth = rest.depth + 1 := by
  rw [st.depth_eq, rest.depth_eq, Stack.frames_of_pop? h, List.length_cons]

/-- A frame that comes off above the base is none of the caller's. -/
theorem Stack.suffix_of_pop? {below st rest : Stack} {frame : Frame} (h : below.frames <:+ st.frames)
    (hpop : st.pop? = some (frame, rest)) (habove : below.depth < st.depth) :
    below.frames <:+ rest.frames := by
  have hframes := Stack.frames_of_pop? hpop
  rw [hframes, List.suffix_cons_iff] at h
  rcases h with heq | hrest
  · rw [below.depth_eq, st.depth_eq, heq, hframes] at habove
    exact absurd habove (Nat.lt_irrefl _)
  · exact hrest

/-- A run that moves its stack stays above the frames of its caller. -/
theorem State.Above.move (h : s.Above t) (hmove : StackMove s.stack.depth code t u)
    (hglobals : u.globals = t.globals) (hlimit : u.maxStackDepth = t.maxStackDepth) : s.Above u := by
  have hlimit' : u.maxStackDepth = s.maxStackDepth := hlimit.trans h.limit
  have hglobals' : u.globals = s.globals := hglobals.trans h.globals
  cases hmove with
  | kept hstack =>
      refine ⟨?_, hglobals', hlimit', ?_⟩
      · rw [hstack]
        exact h.frames
      · rw [hstack]
        exact h.depth
  | pushed hroom hstack =>
      refine ⟨?_, hglobals', hlimit', fun _ => ?_⟩
      · rw [hstack]
        exact h.frames.trans (List.suffix_cons _ _)
      · have hroom' : t.stack.depth < t.maxStackDepth := hroom
        rw [h.limit] at hroom'
        rw [hstack]
        exact hroom'
  | popped _ hpop habove =>
      have hdepth := Stack.depth_of_pop? hpop
      refine ⟨Stack.suffix_of_pop? h.frames hpop habove, hglobals', hlimit', fun hle => ?_⟩
      have hle' := h.depth hle
      omega
  | @replaced _ _ f rest _ hpop habove hstack =>
      -- The frame that takes the place brings the stack back to the depth that it had.
      have hdepth := Stack.depth_of_pop? hpop
      refine ⟨?_, hglobals', hlimit', fun hle => ?_⟩
      · rw [hstack]
        exact (Stack.suffix_of_pop? h.frames hpop habove).trans (List.suffix_cons _ _)
      · have hle' := h.depth hle
        have hdepth' : u.stack.depth = rest.depth + 1 := by
          rw [hstack]
          rfl
        omega

/-- A run stays above the frames of its caller. -/
theorem Snapshot.Reaches.above {c d : Snapshot} (h : Reaches (.standard host) s.stack.depth c d)
    (hc : s.Above c.state) : s.Above d.state :=
  h.preserves (P := fun d => s.Above d.state)
    (fun _ _ hstep hd => hd.move hstep.transition.stackMove hstep.transition.globals_eq
      hstep.transition.maxStackDepth_eq) hc

/-- Dropping the frames of a run leaves the stack of its caller. -/
theorem State.Above.truncate (h : s.Above t) : t.stack.truncate s.stack.depth = s.stack := by
  refine Stack.ext_frames ?_
  change t.stack.frames.drop (t.stack.depth - s.stack.depth) = s.stack.frames
  rw [t.stack.depth_eq, s.stack.depth_eq]
  exact (List.suffix_iff_eq_drop.1 h.frames).symm

/-- A run that is back at its base left the stack of its caller. -/
theorem State.Above.stack_eq (h : s.Above t) (hdepth : t.stack.depth ≤ s.stack.depth) :
    t.stack = s.stack := by
  rw [t.stack.depth_eq, s.stack.depth_eq] at hdepth
  exact Stack.ext_frames (h.frames.eq_of_length (Nat.le_antisymm h.frames.length_le hdepth)).symm

end Above

/-! ## Calls -/

/-- The states of the run that a call starts: between two transitions, and where one failed. -/
inductive Command.Passes (m : Machine) (command : Command) : State → Prop
  /-- The run gets there. -/
  | reached {start d : Snapshot} (starts : command.start? m = some start)
      (reaches : Reaches m.registry m.state.stack.depth start d) : Passes m command d.state
  /-- A transition fails there. -/
  | failed {start d : Snapshot} {e : Fault} {t : State} (starts : command.start? m = some start)
      (reaches : Reaches m.registry m.state.stack.depth start d)
      (fails : step m.registry m.state.stack.depth d.code d.state = .error e t) : Passes m command t

section Calls

variable {m m' : Machine} {command : Command} {start d : Snapshot} {reply : Reply} {t : State}

/-- A run starts in a new scope, but in the state of its caller otherwise. -/
theorem Command.exists_scope_of_start? (hstart : command.start? m = some start) :
    ∃ name env, start.state = m.state.enterScope name env := by
  cases command with
  | load p => cases hstart
  | runEntry =>
      obtain ⟨entry, a, -, -, rfl⟩ := Command.start?_runEntry hstart
      exact ⟨_, _, rfl⟩
  | eval name env e =>
      cases hstart
      exact ⟨_, _, rfl⟩
  | force a =>
      cases hstart
      exact ⟨_, _, rfl⟩

/-- Every state of the run of a call lies above the frames of the caller. -/
theorem Command.Passes.above (hregistry : m.registry = .standard host) (h : command.Passes m t) :
    m.state.Above t := by
  have hreached : ∀ {start d}, command.start? m = some start →
      Reaches m.registry m.state.stack.depth start d → m.state.Above d.state := by
    intro start d hstart hreach
    rw [hregistry] at hreach
    obtain ⟨name, env, hstate⟩ := Command.exists_scope_of_start? hstart
    refine hreach.above ?_
    rw [hstate]
    exact ⟨List.suffix_rfl, rfl, rfl, id⟩
  cases h with
  | reached hstart hreach => exact hreached hstart hreach
  | failed hstart hreach hfails =>
      rw [hregistry] at hfails
      have hfailure := step_eq_error hfails
      exact (hreached hstart hreach).move hfailure.stackMove hfailure.globals_eq.1 hfailure.globals_eq.2

/-- A call that starts a run leaves the stack, the scope and the top-level variables as they were. -/
theorem Called.restores (hregistry : m.registry = .standard host) (hcommand : ∀ p, command ≠ .load p)
    (h : Called m command reply m') :
    m'.state.stack = m.state.stack ∧ m'.state.env = m.state.env ∧ m'.state.trace = m.state.trace ∧
      m'.state.globals = m.state.globals := by
  cases h with
  | loaded | notLoaded => exact absurd rfl (hcommand _)
  | noEntry => exact ⟨rfl, rfl, rfl, rfl⟩
  | returned hstart hreach _ hdepth | notOneValue hstart hreach _ hdepth =>
      have habove := (Command.Passes.reached hstart hreach).above hregistry
      exact ⟨habove.stack_eq hdepth, rfl, rfl, habove.globals⟩
  | failed hstart hreach hfails =>
      have habove := (Command.Passes.failed hstart hreach hfails).above hregistry
      exact ⟨habove.truncate, rfl, rfl, habove.globals⟩
  | exhausted hstart hreach =>
      have habove := (Command.Passes.reached hstart hreach).above hregistry
      exact ⟨habove.truncate, rfl, rfl, habove.globals⟩

/-- Calls are re-entrant. A call on a machine in any state that comes back, with values or a fault, leaves
the stack, the scope and the top-level variables as they were; and during its run the frames of the caller
stay where they are, and the depth stays within the limit if the caller's does. -/
theorem Machine.reentrant (hregistry : m.registry = .standard host) (hcommand : ∀ p, command ≠ .load p) :
    (∀ fuel reply m', command.perform fuel m = some (reply, m') →
      m'.state.stack = m.state.stack ∧ m'.state.env = m.state.env ∧ m'.state.trace = m.state.trace ∧
        m'.state.globals = m.state.globals) ∧
    ∀ t, command.Passes m t →
      m.state.stack.frames <:+ t.stack.frames ∧
        (m.state.stack.depth ≤ m.state.maxStackDepth → t.stack.depth ≤ m.state.maxStackDepth) := by
  constructor
  · intro fuel reply m' hperforms
    exact (Command.perform_eq_some hperforms).restores hregistry hcommand
  · intro t hpasses
    have habove := hpasses.above hregistry
    exact ⟨habove.frames, habove.depth⟩

end Calls

/-- A machine with room for two frames, on whose stack an update already waits. -/
def oneFrameLeft : Machine :=
  let m := Machine.new { maxStackDepth := 2 }
  { m with state := (m.state.bind (.ofName "x") (.int 1)).pushed (.update 0) }

/-- A case with a scrutinee that is not bound. -/
def unboundScrutinee : Command :=
  .eval (.ofName "f") .empty (.case (.app (.ofName "x") []) (.ofName "y") .poly [])

/-- The case takes the last frame that there is room for, fails above it, and leaves the update and the
environment of `oneFrameLeft` behind. -/
theorem Machine.reentrant_oneFrameLeft :
    ∃ e m' t, oneFrameLeft.state.stack.depth = 1 ∧
      unboundScrutinee.perform 5 oneFrameLeft = some (.error e, m') ∧
      (m'.state.stack = oneFrameLeft.state.stack ∧ m'.state.env = oneFrameLeft.state.env ∧
        m'.state.trace = oneFrameLeft.state.trace ∧ m'.state.globals = oneFrameLeft.state.globals) ∧
      unboundScrutinee.Passes oneFrameLeft t ∧ t.stack.depth = 2 ∧
      oneFrameLeft.state.stack.frames <:+ t.stack.frames ∧
      t.stack.depth ≤ oneFrameLeft.state.maxStackDepth := by
  have hfails : (unboundScrutinee.perform 5 oneFrameLeft).any (fun result => !result.1.isOk) := by
    decide +kernel
  have hpushes : (unboundScrutinee.start? oneFrameLeft).any (fun start =>
      (start.next? oneFrameLeft.registry oneFrameLeft.state.stack.depth).any fun d =>
        d.state.stack.depth == 2) := by
    decide +kernel
  have hregistry : oneFrameLeft.registry = .standard := by
    rw [oneFrameLeft, Machine.new, Machine.withRegistry]
  obtain ⟨⟨reply, m'⟩, hperforms, hreply⟩ := (Option.any_eq_true _ _).1 hfails
  obtain ⟨start, hstart, h⟩ := (Option.any_eq_true _ _).1 hpushes
  obtain ⟨d, hd, hdepth⟩ := (Option.any_eq_true _ _).1 h
  cases reply with
  | ok atoms => cases hreply
  | error e =>
      have hcommand : ∀ p, unboundScrutinee ≠ .load p := by
        intro p h
        cases h
      obtain ⟨hrestores, hruns⟩ := Machine.reentrant hregistry hcommand
      have hpasses : unboundScrutinee.Passes oneFrameLeft d.state :=
        .reached hstart (.single (steps_of_next? hd))
      obtain ⟨hframes, hlimit⟩ := hruns d.state hpasses
      exact ⟨e, m', d.state, rfl, hperforms, hrestores 5 _ m' hperforms, hpasses,
        by simpa using hdepth, hframes, hlimit (by decide)⟩

end Spineless
