import Spineless.Proofs.Reentrancy
import Spineless.Proofs.Sharing

/-!
# Weak head normal form

To run an entry or to force an atom is to evaluate it to weak head normal form. The machine falls short of
this in one way. A direct return gives back a reference as it is, and update frames hand on whatever
reference they store; so if nothing but update frames waits for a direct return, an unevaluated reference
comes back to the caller. Every other atom that is returned is evaluated when it is, and an update leaves
the object behind it alone. Transitions are deterministic, hence `Session.evaluated_iff`: the result is in
weak head normal form exactly if the run has no such return.
-/

namespace Spineless

open Snapshot

variable {host : Host}

/-! ## Determinism -/

section Determinism

variable {r : Registry} {base : Nat} {c d e : Snapshot} {atoms : List Atom}

theorem Snapshot.Steps.unique (hd : Steps r base c d) (he : Steps r base c e) : d = e := by
  have heq := Eq.trans (Eq.symm hd) he
  obtain ⟨code, state⟩ := d
  obtain ⟨code', state'⟩ := e
  cases heq
  rfl

/-- A run is over when values return at its base. -/
theorem Snapshot.Steps.depth_of_ret (h : Steps r base c d) (hcode : c.code = .ret atoms) :
    base < c.state.stack.depth := by
  by_contra hle
  have hdone : step r base c.code c.state = .ok (.done atoms) c.state := by
    rw [hcode]
    exact step_ret_of_le (Nat.le_of_not_lt hle)
  cases Eq.trans (Eq.symm h) hdone

/-- Wherever a run gets to, it goes on from there to its end. -/
theorem Snapshot.Reaches.to_end (hd : Reaches r base c d) (he : Reaches r base c e)
    (hcode : e.code = .ret atoms) (hdepth : e.state.stack.depth ≤ base) : Reaches r base d e := by
  have hunique : Relator.RightUnique (Steps r base) := fun _ _ _ h h' => h.unique h'
  rcases Relation.ReflTransGen.total_of_right_unique hunique hd he with hafter | hbefore
  · exact hafter
  · rcases Relation.ReflTransGen.cases_head hbefore with rfl | ⟨e', hstep, -⟩
    · exact .refl
    · exact absurd (hstep.depth_of_ret hcode) (Nat.not_lt.2 hdepth)

end Determinism

/-! ## Where a returned atom comes from -/

section Returned

variable {base : Nat} {code code' : Code} {s s' : State} {atoms : List Atom} {x : Atom}

/-- Returned values go to the topmost frame. -/
theorem Transition.exists_pop (h : Transition (.standard host) base code s code' s')
    (hcode : code = .ret atoms) : ∃ frame rest, s.stack.pop? = some (frame, rest) := by
  cases h with
  | app | lit | conApp | multiVal | opApp | case | letOne | letGroup => cases hcode
  | enterScalar | enterValue | enterThunk => cases hcode
  | update hpop | applyPartial hpop | applyFull hpop | select hpop => exact ⟨_, _, hpop⟩

/-- An update hands on the reference that it stores, and leaves the object behind it alone. -/
theorem Transition.hands_on {frame : Frame} {rest : Stack} {a : Addr}
    (h : Transition (.standard host) base code s code' s') (hcode : code = .ret atoms)
    (hpop : s.stack.pop? = some (frame, rest)) (hcont : frame.cont = .update a) :
    ∃ p o, atoms = [.ptr p] ∧ code' = .ret [.ptr p] ∧ s'.stack = rest ∧ s.object? p = some o ∧
      s'.object? p = some o := by
  cases h with
  | app | lit | conApp | multiVal | opApp | case | letOne | letGroup => cases hcode
  | enterScalar | enterValue | enterThunk => cases hcode
  | applyPartial hpop' _ hcont' | applyFull hpop' _ hcont' | select hpop' _ hcont' =>
      rw [hpop] at hpop'
      cases hpop'
      rw [hcont] at hcont'
      cases hcont'
  | @update _ _ _ target result o hpop' _ hcont' hfound hknown =>
      rw [hpop] at hpop'
      cases hpop'
      cases hcode
      obtain ⟨-, hheap⟩ := State.overwrite_resumed hpop hcont' hknown o
      refine ⟨result, o, rfl, rfl, rfl, hfound, ?_⟩
      rw [hheap]
      split
      · rfl
      · exact hfound

theorem State.evaluated_congr {p : Addr} (h : s'.object? p = s.object? p) :
    s'.Evaluated (.ptr p) ↔ s.Evaluated (.ptr p) := by
  constructor
  · intro hevaluated
    obtain ⟨o, ho, hvalue⟩ := hevaluated p rfl
    exact .of_object? (h ▸ ho) hvalue
  · intro hevaluated
    obtain ⟨o, ho, hvalue⟩ := hevaluated p rfl
    exact .of_object? (h.trans ho) hvalue

/-- One atom is returned evaluated, by a direct return, or by an update that hands it on. -/
theorem Transition.returned_cases (h : Transition (.standard host) base code s code' s')
    (hcode' : code' = .ret [x]) :
    s'.Evaluated x ∨ (∃ e, code = .eval e ∧ e.isDirectReturn = true) ∨
      ∃ frame a, code = .ret [x] ∧ s.stack.pop? = some (frame, s'.stack) ∧ frame.cont = .update a ∧
        (s'.Evaluated x ↔ s.Evaluated x) := by
  cases h with
  | app | case | letOne | letGroup | enterThunk | applyFull | select => cases hcode'
  | lit hliteral =>
      cases hcode'
      refine .inl (.of_ne_ptr fun p hp => ?_)
      subst hp
      rcases hliteral with hatom | ⟨_, hstr⟩
      · have hscalar := Lit.ref?_of_atom? hatom
        cases hscalar
      · cases hstr
  | @conApp _ k _ atoms strings =>
      cases hcode'
      exact .inl (.of_object? (State.object?_grow_size (s := s.withStrings strings) _) rfl)
  | @multiVal _ args atoms _ hdenotes =>
      cases hcode'
      have hlength : args.length = 1 := hdenotes.length_eq
      refine .inr (.inl ⟨_, rfl, ?_⟩)
      rw [Expr.isDirectReturn, hlength]
      rfl
  | @opApp _ t op args resultType resultTyCon atoms results strings _ heval =>
      cases hcode'
      by_cases hfetches : op ∈ Call.fetches
      · exact .inr (.inl ⟨_, rfl, List.contains_iff_mem.2 hfetches⟩)
      · refine .inl ?_
        rintro p rfl
        obtain ⟨con, hcon⟩ := (Registry.standard_evaluate_eq_ok heval).fetches_or_fresh.resolve_left hfetches
        exact ⟨_, hcon, rfl⟩
  | enterScalar hscalar =>
      cases hcode'
      exact .inl (.of_ne_ptr fun p hp => by rw [hp] at hscalar; cases hscalar)
  | enterValue hfound hvalue =>
      cases hcode'
      exact .inl (.of_object? hfound hvalue)
  | @update _ frame rest target result o hpop hdepth hcont hfound hknown =>
      cases hcode'
      obtain ⟨p, o', hatoms, -, -, hp, hp'⟩ :=
        (Transition.update (r := .standard host) hpop hdepth hcont hfound hknown).hands_on rfl hpop hcont
      cases hatoms
      exact .inr (.inr ⟨frame, target, rfl, hpop, hcont, State.evaluated_congr (hp'.trans hp.symm)⟩)
  | @applyPartial _ frame rest args p c hpop _ _ _ hfew =>
      cases hcode'
      refine .inl (.of_object? (State.object?_grow_size (s := s.resumed frame rest) _) ?_)
      have hmissing : c.missing - args.length ≠ 0 := by omega
      simp [Object.isValue, Closure.isThunk, Closure.supply, hmissing]

end Returned

/-! ## Unevaluated results -/

/-- Nothing but updates waits for a value. -/
def State.OnlyUpdates (s : State) : Prop := ∀ f ∈ s.stack.frames, ∃ a, f.cont = .update a

/-- A run gets to a direct return, which gives back an atom that is not evaluated. -/
def Snapshot.ReturnsUnevaluated (r : Registry) (base : Nat) (start : Snapshot) (x : Atom) (d : Snapshot) :
    Prop :=
  ∃ c e, Reaches r base start c ∧ c.code = .eval e ∧ e.isDirectReturn = true ∧ Steps r base c d ∧
    d.code = .ret [x] ∧ ¬ d.state.Evaluated x

section Unevaluated

variable {base : Nat} {start c d : Snapshot} {x : Atom}

/-- An atom that is returned without being evaluated comes from a direct return, through updates only. -/
theorem Snapshot.Reaches.origin_of_unevaluated (h : Reaches (.standard host) base start d)
    (hstart : ∀ atoms, start.code ≠ .ret atoms) (hcode : d.code = .ret [x]) (hx : ¬ d.state.Evaluated x) :
    ∃ b updates, start.ReturnsUnevaluated (.standard host) base x b ∧
      b.state.stack.frames = updates ++ d.state.stack.frames ∧ ∀ f ∈ updates, ∃ a, f.cont = .update a := by
  -- By induction from the end of the run: what an update hands on was returned before.
  induction h with
  | refl => exact absurd hcode (hstart _)
  | @tail c d hbefore hlast ih =>
      rcases hlast.transition.returned_cases hcode with hevaluated | ⟨e, he, hdirect⟩ | hupdate
      · exact absurd hevaluated hx
      · exact ⟨d, [], ⟨c, e, hbefore, he, hdirect, hlast, hcode, hx⟩, rfl, fun _ hf => (nomatch hf)⟩
      · obtain ⟨frame, a, hc, hpop, hcont, hiff⟩ := hupdate
        obtain ⟨b, updates, hreturns, hframes, hupdates⟩ := ih hc (fun h => hx (hiff.2 h))
        refine ⟨b, updates ++ [frame], hreturns, ?_, fun f hf => ?_⟩
        · rw [hframes, Stack.frames_of_pop? hpop, List.append_assoc]
          rfl
        · rcases List.mem_append.1 hf with hf | hf
          · exact hupdates f hf
          · rw [List.mem_singleton.1 hf]
            exact ⟨a, hcont⟩

/-- If only updates wait, the atom that is returned is handed on to the end, as evaluated as it is. -/
theorem Snapshot.Reaches.handed_on (h : Reaches (.standard host) base c d) (hcode : c.code = .ret [x])
    (hupdates : c.state.OnlyUpdates) :
    d.code = .ret [x] ∧ d.state.OnlyUpdates ∧ (d.state.Evaluated x ↔ c.state.Evaluated x) := by
  induction h with
  | refl => exact ⟨hcode, hupdates, Iff.rfl⟩
  | @tail b d _ hlast ih =>
      obtain ⟨hb, hwait, hiff⟩ := ih
      obtain ⟨frame, rest, hpop⟩ := hlast.transition.exists_pop hb
      have hframes := Stack.frames_of_pop? hpop
      obtain ⟨a, hcont⟩ := hwait frame (by rw [hframes]; exact List.mem_cons_self)
      obtain ⟨p, o, hatoms, hd, hstack, hp, hp'⟩ := hlast.transition.hands_on hb hpop hcont
      cases hatoms
      refine ⟨hd, fun f hf => hwait f ?_, (State.evaluated_congr (hp'.trans hp.symm)).trans hiff⟩
      rw [hframes]
      rw [hstack] at hf
      exact List.mem_cons_of_mem _ hf

end Unevaluated

/-! ## One value comes back -/

/-- How far a run that enters an atom is. -/
inductive Snapshot.Forcing : Snapshot → Prop
  /-- The atom is about to be entered. -/
  | entering {a : Atom} {s : State} (frames : s.stack.frames = []) : Forcing ⟨.enter a, s⟩
  /-- The atom refers to a thunk, and the update of the thunk waits at the bottom of the stack. -/
  | running {d : Snapshot} {f : Frame} {a : Addr} (bottom : [f] <:+ d.state.stack.frames)
      (cont : f.cont = .update a) : Forcing d
  /-- One atom comes back; if it is a reference, there is an object behind it. -/
  | returned {s : State} {x : Atom} (frames : s.stack.frames = [])
      (found : ∀ p, x = .ptr p → ∃ o, s.object? p = some o) : Forcing ⟨.ret [x], s⟩

section Forcing

variable {base : Nat} {code code' : Code} {s s' : State} {c d : Snapshot}

/-- While the update waits at the bottom, a transition leaves it there or performs it. -/
theorem Snapshot.Forcing.of_running {f : Frame} {a : Addr} (hbottom : [f] <:+ s.stack.frames)
    (hcont : f.cont = .update a) (htrans : Transition (.standard host) base code s code' s') :
    Forcing ⟨code', s'⟩ := by
  -- The frame that comes off is the one at the bottom, or it leaves that one where it is.
  have hpopped : ∀ {atoms frame rest}, code = .ret atoms → s.stack.pop? = some (frame, rest) →
      ([f] <:+ rest.frames → [f] <:+ s'.stack.frames) → Forcing ⟨code', s'⟩ := by
    intro atoms frame rest hcode hpop hrest
    rcases Stack.bottom_of_pop? hbottom hpop with ⟨rfl, hempty⟩ | hbelow
    · obtain ⟨p, o, -, rfl, rfl, -, hp'⟩ := htrans.hands_on hcode hpop hcont
      refine .returned hempty ?_
      rintro _ ⟨⟩
      exact ⟨o, hp'⟩
    · exact .running (hrest hbelow) hcont
  cases htrans.stackMove with
  | kept hstack => exact .running (by rw [hstack]; exact hbottom) hcont
  | pushed _ hstack =>
      refine .running ?_ hcont
      rw [hstack]
      exact hbottom.trans (List.suffix_cons _ _)
  | popped hcode hpop => exact hpopped hcode hpop id
  | replaced hcode hpop _ hstack =>
      refine hpopped hcode hpop fun hbelow => ?_
      rw [hstack]
      exact hbelow.trans (List.suffix_cons _ _)

theorem Snapshot.Forcing.transition (h : Forcing ⟨code, s⟩)
    (htrans : Transition (.standard host) base code s code' s') : Forcing ⟨code', s'⟩ := by
  cases h with
  | entering hframes =>
      cases htrans with
      | enterScalar hscalar =>
          exact .returned hframes fun p hp => by rw [hp] at hscalar; cases hscalar
      | enterValue hfound =>
          refine .returned hframes ?_
          rintro _ ⟨⟩
          exact ⟨_, hfound⟩
      | @enterThunk _ p c =>
          have hbottom : [⟨.update p, s.env, s.trace⟩] <:+ ⟨.update p, s.env, s.trace⟩ :: s.stack.frames :=
            ⟨[], congrArg (List.cons _) hframes.symm⟩
          exact .running hbottom rfl
  | running hbottom hcont => exact .of_running hbottom hcont htrans
  | returned hframes =>
      -- Nothing is on the stack that could go on with the value.
      obtain ⟨frame, rest, hpop⟩ := htrans.exists_pop rfl
      have hnonempty := Stack.frames_of_pop? hpop
      rw [hframes] at hnonempty
      cases hnonempty

theorem Snapshot.Reaches.forcing (h : Reaches (.standard host) base c d) (hc : c.Forcing) : d.Forcing :=
  h.preserves (P := Forcing) (fun _ _ hstep hd => hd.transition hstep.transition) hc

/-- A run that enters an atom comes back with one. -/
theorem Snapshot.Forcing.of_ret {atoms : List Atom} (h : d.Forcing) (hcode : d.code = .ret atoms)
    (hframes : d.state.stack.frames = []) :
    ∃ x, atoms = [x] ∧ ∀ p, x = .ptr p → ∃ o, d.state.object? p = some o := by
  cases h with
  | entering => cases hcode
  | running hbottom =>
      rw [hframes] at hbottom
      exact absurd (List.suffix_nil.1 hbottom) (List.cons_ne_nil _ _)
  | returned _ hfound =>
      cases hcode
      exact ⟨_, rfl, hfound⟩

end Forcing

/-! ## Sessions -/

/-- A call that evaluates an atom. -/
def Command.Forces (command : Command) : Prop := command = .runEntry ∨ ∃ a, command = .force a

/-- The run of a call directly returns an atom that is not evaluated, and only updates wait for it. -/
def Command.HandsBack (m : Machine) (command : Command) (x : Atom) : Prop :=
  ∃ start d, command.start? m = some start ∧
    start.ReturnsUnevaluated m.registry m.state.stack.depth x d ∧ d.state.OnlyUpdates

section Session

variable {config : Config} {events : List Event} {m m' : Machine} {command : Command} {start : Snapshot}
  {fuel : Nat} {atoms : List Atom}

/-- A call that evaluates an atom enters it. -/
theorem Command.Forces.start_code (h : command.Forces) (hstart : command.start? m = some start) :
    ∃ a, start.code = .enter a := by
  rcases h with rfl | ⟨a, rfl⟩
  · obtain ⟨entry, a, -, -, rfl⟩ := Command.start?_runEntry hstart
    exact ⟨a, rfl⟩
  · cases hstart
    exact ⟨a, rfl⟩

/-- Running an entry or forcing an atom gives one atom, with an object behind it if it is a reference, and
the atom is in weak head normal form exactly unless the run handed it back unevaluated. -/
theorem Session.evaluated_iff (hsession : Session config events m) (hcommand : command.Forces)
    (hperforms : command.perform fuel m = some (.ok atoms, m')) :
    ∃ x, atoms = [x] ∧ (∀ p, x = .ptr p → ∃ o, m'.state.object? p = some o) ∧
      (m'.state.Evaluated x ↔ ¬ command.HandsBack m x) := by
  have hidle := hsession.idle
  obtain ⟨host, hregistry⟩ := hidle.registry
  cases Command.perform_eq_some hperforms with
  | loaded => rcases hcommand with h | ⟨_, h⟩ <;> cases h
  | @returned _ start d _ steps hstart hreach hcode hdepth =>
      obtain ⟨a, ha⟩ := hcommand.start_code hstart
      have hempty : start.state.stack.frames = [] := Command.frames_of_start? hidle hstart
      have hframes : d.state.stack.frames = [] := Stack.frames_eq_nil (hidle.depth ▸ hdepth)
      have hforcing : start.Forcing := by
        obtain ⟨code, s⟩ := start
        cases ha
        exact .entering hempty
      rw [hregistry] at hreach
      obtain ⟨x, rfl, hfound⟩ := (hreach.forcing hforcing).of_ret hcode hframes
      refine ⟨x, rfl, hfound, ?_, fun hnot => ?_⟩
      · rintro hevaluated ⟨start', b, hstart', ⟨c, e, hc, -, -, hstep, hb, hx⟩, hupdates⟩
        cases hstart.symm.trans hstart'
        rw [hregistry] at hc hstep
        -- The run goes on from the direct return to its end, and only hands the atom on.
        have hrest := Snapshot.Reaches.to_end (hc.tail hstep) hreach hcode hdepth
        obtain ⟨-, -, hiff⟩ := Snapshot.Reaches.handed_on hrest hb hupdates
        exact hx (hiff.1 hevaluated)
      · by_contra hx
        have hcode' : ∀ values, start.code ≠ .ret values := by
          intro values hvalues
          rw [ha] at hvalues
          cases hvalues
        obtain ⟨b, updates, hreturns, hb, hupdates⟩ := hreach.origin_of_unevaluated hcode' hcode hx
        refine hnot ⟨start, b, hstart, by rw [hregistry]; exact hreturns, fun f hf => hupdates f ?_⟩
        rw [hb, hframes, List.append_nil] at hf
        exact hf

end Session

/-- A program whose entry returns a thunk as it is. -/
def returnsThunk : Program :=
  let unit : Expr := .conApp ⟨"()", 1, 0⟩ []
  entryThunk (.letIn (.nonRec (.ofName "x") (.closure [] ⟨[], unit⟩)) (.multiVal [.var (.ofName "x")]))

/-- Whether a call returns one reference, to an object with a property. -/
def refersTo (f : Object → Bool) : Reply × Machine → Bool
  | (.ok [.ptr p], m) => (m.state.object? p).any f
  | _ => false

/-- The first run of the entry stores the thunk that it hands back, so the second one evaluates it. -/
theorem Session.evaluated_iff_secondRun :
    ∃ events m x m', Session {} events m ∧ events.length = 2 ∧ Command.runEntry.Forces ∧
      Command.runEntry.perform 10 m = some (.ok [x], m') ∧
      (∀ p, x = .ptr p → ∃ o, m'.state.object? p = some o) ∧ m'.state.Evaluated x ∧
      ¬ Command.runEntry.HandsBack m x := by
  have hplayed : (Session.play {} 10 [.runEntry, .load returnsThunk]).any (fun result =>
      result.1.length == 2 && (Command.runEntry.perform 10 result.2).any (refersTo Object.isValue)) := by
    decide +kernel
  obtain ⟨⟨events, m⟩, hplay, h⟩ := (Option.any_eq_true _ _).1 hplayed
  obtain ⟨hlength, h⟩ := Bool.and_eq_true_iff.1 h
  obtain ⟨⟨reply, m'⟩, hperforms, h⟩ := (Option.any_eq_true _ _).1 h
  unfold refersTo at h
  split at h
  · next p m'' heq =>
    cases heq
    obtain ⟨o, ho, hvalue⟩ := (Option.any_eq_true _ _).1 h
    have hsession := Session.of_play hplay
    have hforces : Command.runEntry.Forces := .inl rfl
    have hevaluated : m'.state.Evaluated (.ptr p) := .of_object? ho hvalue
    obtain ⟨x, hatoms, hfound, hiff⟩ := Session.evaluated_iff hsession hforces hperforms
    cases hatoms
    exact ⟨events, m, .ptr p, m', hsession, beq_iff_eq.1 hlength, hforces, hperforms, hfound, hevaluated,
      hiff.1 hevaluated⟩
  · cases h

/-- The result of running an entry need not be in weak head normal form. -/
theorem Session.result_not_evaluated :
    ¬ ∀ config events m command fuel atoms m' p, Session config events m → Command.Forces command →
      command.perform fuel m = some (.ok atoms, m') → .ptr p ∈ atoms →
      ∃ o, m'.state.object? p = some o ∧ o.isValue = true := by
  intro hclaim
  have hplayed : (Session.play {} 10 [.load returnsThunk]).any (fun result =>
      (Command.runEntry.perform 10 result.2).any (refersTo fun o => !o.isValue)) := by
    decide +kernel
  obtain ⟨⟨events, m⟩, hplay, h⟩ := (Option.any_eq_true _ _).1 hplayed
  obtain ⟨⟨reply, m'⟩, hperforms, h⟩ := (Option.any_eq_true _ _).1 h
  unfold refersTo at h
  split at h
  · next p m'' heq =>
    cases heq
    obtain ⟨o, ho, hvalue⟩ := (Option.any_eq_true _ _).1 h
    obtain ⟨o', ho', hvalue'⟩ := hclaim _ events m .runEntry 10 [.ptr p] m' p (Session.of_play hplay)
      (.inl rfl) hperforms List.mem_cons_self
    cases ho.symm.trans ho'
    rw [hvalue'] at hvalue
    cases hvalue
  · cases h

end Spineless
