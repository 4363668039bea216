import Spineless.Proofs.WeakHead

/-!
# One value for an atom

The code of a thunk may return several values or none, but only to frames that it pushed itself. A run that
enters an atom gives back one atom. If the atom does not refer to a thunk, it comes back as it is. If it
does, the update of the thunk is the first frame that the run pushes, and it stays the lowest one
(`Snapshot.Yields`); the run is over when that update is performed, and an update takes one reference and
hands it on.

Nothing is assumed of the state in which the atom is entered: the heap, the scope and the frames below may
be any.
-/

namespace Spineless

open Snapshot

variable {host : Host}

/-- The update that waits for a thunk which is entered in a state. -/
def State.updateOf (s : State) (t : Addr) : Frame := ⟨.update t, s.env, s.trace⟩

/-- A run that entered a thunk gets to where a reference to an object is returned to its lowest frame. -/
structure Snapshot.Settles (host : Host) (s : State) (a : Atom) (t p : Addr) (o : Object) (c : Snapshot) :
    Prop where
  reaches : Reaches (.standard host) s.stack.depth ⟨.enter a, s⟩ c
  code : c.code = .ret [.ptr p]
  frames : c.state.stack.frames = s.updateOf t :: s.stack.frames
  found : c.state.object? p = some o

/-- How far a run that enters an atom in a state is. -/
inductive Snapshot.Yields (host : Host) (s : State) (a : Atom) : Snapshot → Prop
  /-- The atom is about to be entered. -/
  | entering : Yields host s a ⟨.enter a, s⟩
  /-- The atom does not refer to a thunk and comes back. -/
  | unchanged (value : ∀ t, ¬ Starts ⟨.enter a, s⟩ t) : Yields host s a ⟨.ret [a], s⟩
  /-- The atom refers to a thunk, and the update of the thunk lies below all that the run pushed since. -/
  | running {t : Addr} {d : Snapshot} (thunk : Starts ⟨.enter a, s⟩ t)
      (lowest : s.updateOf t :: s.stack.frames <:+ d.state.stack.frames) : Yields host s a d
  /-- The update of the thunk was the last transition. -/
  | updated {t p : Addr} {o : Object} {c d : Snapshot} (thunk : Starts ⟨.enter a, s⟩ t)
      (settles : c.Settles host s a t p o) (step : Steps (.standard host) s.stack.depth c d)
      (code : d.code = .ret [.ptr p]) (frames : d.state.stack.frames = s.stack.frames)
      (stored : d.state.object? t = some o) : Yields host s a d

section Run

variable {s : State} {a : Atom} {c d : Snapshot}

/-- The frame above the caller's stays, unless it is the one that comes off. -/
theorem Stack.lowest_of_pop? {st rest : Stack} {f frame : Frame} {below : List Frame}
    (hlowest : f :: below <:+ st.frames) (hpop : st.pop? = some (frame, rest)) :
    (frame = f ∧ rest.frames = below) ∨ f :: below <:+ rest.frames := by
  rw [Stack.frames_of_pop? hpop, List.suffix_cons_iff] at hlowest
  rcases hlowest with heq | hrest
  · obtain ⟨rfl, hbelow⟩ := List.cons.inj heq
    exact .inl ⟨rfl, hbelow.symm⟩
  · exact .inr hrest

/-- What is in weak head normal form is no thunk. -/
theorem State.Evaluated.not_starts (h : s.Evaluated a) (t : Addr) : ¬ Starts ⟨.enter a, s⟩ t := by
  rintro ⟨hcode, c, hfound, hthunk⟩
  obtain rfl : a = .ptr t := Code.enter.inj hcode
  obtain ⟨o, ho, hvalue⟩ := h t rfl
  exact (State.Started.of_isValue ho hvalue).not_starts (d := ⟨.enter (.ptr t), s⟩) ⟨rfl, c, hfound, hthunk⟩

/-- Entering an atom gives it back, or starts the thunk that it refers to. -/
theorem Snapshot.Yields.of_enter (hstep : Steps (.standard host) s.stack.depth ⟨.enter a, s⟩ d) :
    Yields host s a d := by
  have htrans := hstep.transition
  obtain ⟨code', s'⟩ := d
  cases htrans with
  | enterScalar hscalar =>
      refine .unchanged (State.Evaluated.not_starts (.of_ne_ptr fun p hp => ?_))
      rw [hp] at hscalar
      cases hscalar
  | enterValue hfound hvalue => exact .unchanged (State.Evaluated.not_starts (.of_object? hfound hvalue))
  | @enterThunk _ t closure hfound hthunk => exact .running ⟨rfl, closure, hfound, hthunk⟩ List.suffix_rfl

/-- While the update of the thunk is the lowest frame, a transition leaves it there or performs it. -/
theorem Snapshot.Yields.of_running {t : Addr} (hthunk : Starts ⟨.enter a, s⟩ t)
    (hlowest : s.updateOf t :: s.stack.frames <:+ c.state.stack.frames)
    (hreach : Reaches (.standard host) s.stack.depth ⟨.enter a, s⟩ c)
    (hstep : Steps (.standard host) s.stack.depth c d) : Yields host s a d := by
  have htrans := hstep.transition
  -- The frame that comes off is the update, or lies above it.
  have hpopped : ∀ {atoms frame rest}, c.code = .ret atoms → c.state.stack.pop? = some (frame, rest) →
      (s.updateOf t :: s.stack.frames <:+ rest.frames →
        s.updateOf t :: s.stack.frames <:+ d.state.stack.frames) → Yields host s a d := by
    intro atoms frame rest hcode hpop hrest
    rcases Stack.lowest_of_pop? hlowest hpop with ⟨rfl, hbelow⟩ | habove
    · obtain ⟨p, _, hatoms, hcode', hstack, -, -⟩ := htrans.hands_on hcode hpop rfl
      obtain ⟨q, o, hatoms', hfound, -, hheap⟩ := htrans.of_update hcode hpop rfl
      cases hatoms.symm.trans hatoms'
      have hframes : c.state.stack.frames = s.updateOf t :: s.stack.frames := by
        rw [Stack.frames_of_pop? hpop, hbelow]
      have hsettles : c.Settles host s a t p o :=
        ⟨hreach, hcode.trans (congrArg Code.ret hatoms), hframes, hfound⟩
      refine .updated hthunk hsettles hstep hcode' ?_ ?_
      · rw [hstack, hbelow]
      · rw [hheap, if_pos rfl]
    · exact .running hthunk (hrest habove)
  cases htrans.stackMove with
  | kept hstack => exact .running hthunk (by rw [hstack]; exact hlowest)
  | pushed _ hstack =>
      refine .running hthunk ?_
      rw [hstack]
      exact hlowest.trans (List.suffix_cons _ _)
  | popped hcode hpop => exact hpopped hcode hpop id
  | replaced hcode hpop _ hstack =>
      refine hpopped hcode hpop fun habove => ?_
      rw [hstack]
      exact habove.trans (List.suffix_cons _ _)

/-- A run that enters an atom gets no further than giving back one. -/
theorem Snapshot.Reaches.yields (h : Reaches (.standard host) s.stack.depth ⟨.enter a, s⟩ d) :
    Yields host s a d := by
  induction h with
  | refl => exact .entering
  | @tail c d hbefore hlast ih =>
      cases ih with
      | entering => exact .of_enter hlast
      | running hthunk hlowest => exact .of_running hthunk hlowest hbefore hlast
      | unchanged => exact absurd (hlast.depth_of_ret rfl) (Nat.lt_irrefl _)
      | updated _ _ _ hcode hframes =>
          have hdepth := hlast.depth_of_ret hcode
          rw [c.state.stack.depth_eq, hframes, ← s.stack.depth_eq] at hdepth
          exact absurd hdepth (Nat.lt_irrefl _)

end Run

/-- The value of a run that entered an atom in a state, and the state that it left: the atom and the state as
they were, unless the atom refers to a thunk; for a thunk, the reference that was returned to its update, and
in the thunk's place the object that was behind the reference by then. -/
inductive Entered (host : Host) (s : State) (a : Atom) : Atom → State → Prop
  /-- The atom does not refer to a thunk. -/
  | unchanged (value : ∀ t, ¬ Starts ⟨.enter a, s⟩ t) : Entered host s a a s
  /-- The atom refers to a thunk. -/
  | updated {t p : Addr} {o : Object} {c d : Snapshot} (thunk : Starts ⟨.enter a, s⟩ t)
      (settles : c.Settles host s a t p o) (step : Steps (.standard host) s.stack.depth c d)
      (stored : d.state.object? t = some o) : Entered host s a (.ptr p) d.state

/-- A run that entered an atom is over with one value. -/
theorem Snapshot.Yields.of_ret {s : State} {a : Atom} {d : Snapshot} {atoms : List Atom}
    (h : Yields host s a d) (hcode : d.code = .ret atoms) (hdepth : d.state.stack.depth ≤ s.stack.depth) :
    ∃ x, atoms = [x] ∧ Entered host s a x d.state := by
  cases h with
  | entering => cases hcode
  | unchanged hvalue =>
      cases hcode
      exact ⟨a, rfl, .unchanged hvalue⟩
  | running _ hlowest =>
      have hlength := hlowest.length_le
      rw [List.length_cons, ← s.stack.depth_eq, ← d.state.stack.depth_eq] at hlength
      omega
  | updated hthunk hsettles hstep hcode' _ hstored =>
      cases hcode'.symm.trans hcode
      exact ⟨_, rfl, .updated hthunk hsettles hstep hstored⟩

/-! ## Machines -/

section Machine

variable {m m' : Machine} {fuel : Nat} {a : Atom}

/-- A run that enters an atom in a scope of its own. -/
theorem Machine.runScoped_enter (hregistry : m.registry = .standard host) {name : Ident} {env : Env}
    {atoms : List Atom} (h : m.runScoped fuel name env (.enter a) = some (.ok atoms m')) :
    ∃ x s steps, atoms = [x] ∧ m' = m.after steps s ∧
        Entered host (m.state.enterScope name env) a x s := by
  obtain ⟨steps, s, hfollow, rfl⟩ := Machine.runScoped_eq_ok.1 h
  obtain ⟨d, hreach, hends⟩ := follow_eq_some hfollow
  cases hends with
  | returned hcode hdepth =>
      rw [hregistry] at hreach
      -- The scope is a new one, but the run stands on the stack of its caller.
      have hyields : Yields host (m.state.enterScope name env) a d := Reaches.yields hreach
      obtain ⟨x, rfl, hentered⟩ := hyields.of_ret hcode hdepth
      exact ⟨x, d.state, steps, rfl, rfl, hentered⟩

/-- Whatever a machine holds, a run that enters an atom and succeeds gives one value, which is the atom
itself unless that refers to a thunk. So forcing an atom fails only if the run does, and an entry has one
value. -/
theorem Machine.enter_one_value (hregistry : m.registry = .standard host) :
    (∀ fuel name env a atoms m', m.runScoped fuel name env (.enter a) = some (.ok atoms m') →
      ∃ x s steps, atoms = [x] ∧ m' = m.after steps s ∧
        Entered host (m.state.enterScope name env) a x s) ∧
    (∀ fuel a e m', m.force fuel a = some (.error e m') ↔
      m.runScoped fuel forceScope m.state.env (.enter a) = some (.error e m')) ∧
    ∀ fuel atoms m', m.runEntry fuel = some (.ok atoms m') → ∃ x, atoms = [x] := by
  refine ⟨fun fuel name env a atoms m' => runScoped_enter hregistry, fun fuel a e m' => ?_, ?_⟩
  · unfold force
    cases hrun : m.runScoped fuel forceScope m.state.env (.enter a) with
    | none => simp only [reduceCtorEq]
    | some outcome =>
        cases outcome with
        | error e' m'' => simp only [Option.some.injEq, EStateM.Result.error.injEq]
        | ok atoms m'' =>
            obtain ⟨x, s, steps, rfl, -, -⟩ := runScoped_enter hregistry hrun
            simp only [Option.some.injEq, reduceCtorEq]
  · intro fuel atoms m' hrun
    rcases runEntry_eq_some hrun with ⟨e, heq, -⟩ | ⟨entry, a, -, -, hrun⟩
    · cases heq
    · obtain ⟨x, s, steps, hatoms, -, -⟩ := runScoped_enter hregistry hrun
      exact ⟨x, hatoms⟩

end Machine

/-- A machine on whose stack a frame waits already, with a thunk in its heap whose code returns two values to
a frame of its own. -/
def tupleThunk : Machine :=
  let one : Arg := .lit (.int 1)
  let pair : Expr := .conApp ⟨"(,)", 1, 2⟩ [.var (.ofName "x"), .var (.ofName "y")]
  let alt : Alt := ⟨.default, [.ofName "x", .ofName "y"], pair⟩
  let body : Expr := .case (.multiVal [one, one]) (.ofName "b") (.multiVal 2) [alt]
  let thunk : Closure := .ofLambda (.ofName "t") ⟨[], body⟩ .empty
  { Machine.new {} with state := ((State.ofConfig {}).grow [some (.closure thunk)]).pushed (.apply []) }

/-- The thunk of `tupleThunk` has one value. -/
theorem Machine.enter_one_value_tupleThunk :
    tupleThunk.registry = .standard ∧ tupleThunk.state.stack.depth = 1 ∧
      ∃ x m' s steps, tupleThunk.runScoped 10 forceScope .empty (.enter (.ptr 0)) = some (.ok [x] m') ∧
        m' = tupleThunk.after steps s ∧
        Entered .usual (tupleThunk.state.enterScope forceScope .empty) (.ptr 0) x s := by
  have hregistry : tupleThunk.registry = .standard := by
    rw [tupleThunk, Machine.new, Machine.withRegistry]
  have hsucceeds : (tupleThunk.runScoped 10 forceScope .empty (.enter (.ptr 0))).any Outcome.isOk := by
    decide +kernel
  obtain ⟨outcome, hrun, houtcome⟩ := (Option.any_eq_true _ _).1 hsucceeds
  cases outcome with
  | error e m' => cases houtcome
  | ok atoms m' =>
      obtain ⟨x, s, steps, rfl, hafter, hentered⟩ :=
        (Machine.enter_one_value hregistry).1 10 forceScope .empty (.ptr 0) atoms m' hrun
      exact ⟨hregistry, rfl, x, m', s, steps, hrun, hafter, hentered⟩

end Spineless
