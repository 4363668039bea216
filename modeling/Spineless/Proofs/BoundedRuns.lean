import Spineless.Proofs.PrimOp.Offsets
import Spineless.Proofs.Session

/-!
# Offsets of string pointers along runs

Every transition keeps a bounded state bounded, whether it succeeds or fails (`step_bounds`), and so does
every run (`Snapshot.Bounded.reaches`). A session whose callers hand in bounded atoms only is bounded between
two calls (`Session.bounded`) and during each of them (`Command.bounded_of_start?`).
-/

namespace Spineless

open Snapshot

variable {host : Host}

/-- The atoms in the outcome of a transition. -/
def Next.atoms : Next → List Atom
  | .code c => c.atoms
  | .done atoms => atoms

/-- A closure on the heap captured bounded atoms and was supplied with bounded ones. -/
theorem Closure.bounded {c : Closure} (h : ∀ a ∈ (Object.closure c).atoms, a.Bounded) :
    c.env.All Atom.Bounded ∧ ∀ a ∈ c.args, a.Bounded := by
  refine ⟨fun entry hentry => ?_, fun a ha => h a (List.mem_append_right _ ha)⟩
  exact h entry.2 (List.mem_append_left _ (List.mem_map_of_mem hentry))

/-! ## One transition -/

namespace Exec

/-- Arguments that wait are pushed before the next action. -/
theorem pushArgs_bounds {α : Type} {P : α → Prop} {args : List Atom} (hargs : ∀ a ∈ args, a.Bounded)
    {k : Unit → Exec α} (hk : (k ()).Bounds P) :
    (if !args.isEmpty then pushFrame (.apply args) >>= k else k ()).Bounds P :=
  .ite (fun _ => .bind (.pushFrame hargs) fun _ _ => hk) fun _ => hk

theorem eval_bounds (e : Expr) : (eval (.standard host) e).Bounds fun c => ∀ a ∈ c.atoms, a.Bounded := by
  cases e with
  | app callee args =>
      exact .bind (.resolve callee) fun f hf => .bind (arguments_bounds args) fun atoms hatoms =>
        pushArgs_bounds hatoms (.pure (List.forall_mem_singleton.2 hf))
  | lit l => exact .bind (literal_bounds l) fun a ha => .pure (List.forall_mem_singleton.2 ha)
  | conApp k args =>
      exact .bind (arguments_bounds args) fun atoms hatoms => .bind (.allocate hatoms) fun addr _ =>
        .pure (List.forall_mem_singleton.2 (.scalar rfl))
  | multiVal args => exact .bind (arguments_bounds args) fun atoms hatoms => .pure hatoms
  | opApp op args resultType resultTyCon =>
      refine .bind (arguments_bounds args) fun atoms hatoms => ?_
      exact .bind (Registry.standard_bounds hatoms) fun values hvalues => .pure hvalues
  | case scrutinee binder altType alts =>
      exact .bind (.pushFrame fun _ ha => absurd ha List.not_mem_nil) fun _ _ =>
        .bind (.modify fun _ hs => { hs with }) fun _ _ => .pure fun _ ha => absurd ha List.not_mem_nil
  | letIn binding body =>
      exact .bind (allocateBinding_bounds binding) fun _ _ => .pure fun _ ha => absurd ha List.not_mem_nil

theorem enter_bounds {a : Atom} (ha : a.Bounded) :
    (enter a).Bounds fun c => ∀ b ∈ c.atoms, b.Bounded := by
  have hvalue : (pure (.ret [a]) : Exec Code).Bounds fun c => ∀ b ∈ c.atoms, b.Bounded :=
    .pure (List.forall_mem_singleton.2 ha)
  cases a with
  | ptr p =>
      refine .bind (.read p) fun o ho => ?_
      cases o with
      | con k args => exact hvalue
      | blackhole covered => exact .fail _
      | closure c =>
          refine .ite (fun _ => ?_) fun _ => hvalue
          exact .bind (.store p ho) fun _ _ =>
            .bind (.pushFrame (List.forall_mem_singleton.2 ha)) fun _ _ =>
              .bind (.modify fun _ hs => hs.enterScope c.name (Closure.bounded ho).1) fun _ _ =>
                .pure fun _ hb => absurd hb List.not_mem_nil
  | _ => exact hvalue

theorem update_bounds (target : Addr) {atoms : List Atom} (hatoms : ∀ a ∈ atoms, a.Bounded) :
    (update target atoms).Bounds fun c => ∀ a ∈ c.atoms, a.Bounded := by
  fun_cases update target atoms with
  | case1 result =>
      exact .bind (.read result) fun o ho => .bind (.store target ho) fun _ _ => .pure hatoms
  | case2 => exact .fail _

theorem apply_bounds (p : Addr) {args : List Atom} (hargs : ∀ a ∈ args, a.Bounded) :
    (apply p args).Bounds fun c => ∀ a ∈ c.atoms, a.Bounded := by
  refine .bind (.read p) fun o ho => ?_
  cases o with
  | con k fields => exact .fail _
  | blackhole covered => exact .fail _
  | closure c =>
      obtain ⟨henv, hsupplied⟩ := Closure.bounded ho
      refine .ite (fun _ => .fail _) fun _ => .ite (fun _ => ?few) fun _ => ?enough
      case few =>
        refine .bind (.allocate fun a ha => ?_) fun addr _ =>
          .pure (List.forall_mem_singleton.2 (.scalar rfl))
        rcases List.mem_append.1 ha with ha | ha
        · exact ho a (List.mem_append_left _ ha)
        · rcases List.mem_append.1 ha with ha | ha
          · exact hsupplied a ha
          · exact hargs a ha
      case enough =>
        have hvalues : ∀ a ∈ c.args ++ args.take c.missing, a.Bounded := by
          intro a ha
          rcases List.mem_append.1 ha with ha | ha
          · exact hsupplied a ha
          · exact hargs a (List.mem_of_mem_take ha)
        refine pushArgs_bounds (fun a ha => hargs a (List.mem_of_mem_drop ha)) ?_
        refine .bind (.modify fun _ hs => hs.enterScope c.name (henv.extend fun pair hpair => ?_)) fun _ _ =>
          .pure fun _ ha => absurd ha List.not_mem_nil
        exact hvalues pair.2 (List.of_mem_zip hpair).2

theorem scrutinee?_bounds (alts : List Alt) (atoms : List Atom) :
    (scrutinee? alts atoms).Bounds fun found =>
      ∀ k fields, found = some (k, fields) → ∀ a ∈ fields, a.Bounded := by
  fun_cases scrutinee? alts atoms with
  | case1 p =>
      refine .bind (.readCon p) fun found hfound => .pure ?_
      rintro k fields ⟨⟩
      exact hfound
  | case2 | case3 => exact .pure (by rintro _ _ ⟨⟩)

theorem select_bounds (binder : Ident) (altType : AltType) (alts : List Alt) {atoms : List Atom}
    (hatoms : ∀ a ∈ atoms, a.Bounded) :
    (select binder altType alts atoms).Bounds fun c => ∀ a ∈ c.atoms, a.Bounded := by
  have hbind : (bindValue binder atoms).Bounds fun _ => True := by
    fun_cases bindValue binder atoms with
    | case1 value => exact .modify fun _ hs => hs.bind binder (hatoms value (List.mem_singleton.2 rfl))
    | case2 => exact .pure trivial
  refine .bind hbind fun _ _ => .bind (scrutinee?_bounds alts atoms) fun found hfound => ?_
  cases hfirst : Alt.first? alts altType atoms found with
  | none => exact .fail _
  | some taken =>
      obtain ⟨alt, fields⟩ := taken
      have hfields : ∀ a ∈ fields, a.Bounded := by
        rcases (Alt.first?_cases hfirst).2 with rfl | rfl | ⟨k, rfl⟩
        · exact fun _ ha => absurd ha List.not_mem_nil
        · exact hatoms
        · exact hfound k fields rfl
      refine .bind (.modify fun _ hs => hs.bindAll fun pair hpair => ?_) fun _ _ =>
        .pure fun _ ha => absurd ha List.not_mem_nil
      exact hfields pair.2 (List.of_mem_zip hpair).2

theorem resume_bounds {frame : Frame} {atoms : List Atom} (hframe : frame.Bounded)
    (hatoms : ∀ a ∈ atoms, a.Bounded) :
    (resume frame atoms).Bounds fun c => ∀ a ∈ c.atoms, a.Bounded := by
  obtain ⟨cont, env, trace⟩ := frame
  refine .bind (.modify fun _ hs => hs.restoreScope hframe.env trace) fun _ _ => ?_
  cases cont with
  | update target => exact update_bounds target hatoms
  | caseOf binder altType alts => exact select_bounds binder altType alts hatoms
  | apply args =>
      dsimp only
      split
      · exact apply_bounds _ hframe.cont
      · exact .fail _

end Exec

/-- A transition keeps a bounded state bounded, and goes on with bounded atoms. -/
theorem step_bounds (base : Nat) {code : Code} (hcode : ∀ a ∈ code.atoms, a.Bounded) :
    (step (.standard host) base code).Bounds fun next => ∀ a ∈ next.atoms, a.Bounded := by
  cases code with
  | eval e => exact .bind (Exec.eval_bounds e) fun _ hc => .pure hc
  | enter a =>
      exact .bind (Exec.enter_bounds (hcode a (List.mem_singleton.2 rfl))) fun _ hc => .pure hc
  | ret atoms =>
      refine .bind .get fun s _ => .ite (fun _ => .pure hcode) fun _ => .bind .popFrame? fun top htop => ?_
      cases top with
      | none => exact .pure hcode
      | some frame => exact .bind (Exec.resume_bounds (htop frame rfl) hcode) fun _ hc => .pure hc

/-! ## Runs -/

theorem Snapshot.Bounded.reaches {base : Nat} {c d : Snapshot} (h : c.Bounded)
    (hreach : Reaches (.standard host) base c d) : d.Bounded :=
  hreach.preserves (P := Snapshot.Bounded) (fun _ _ hstep hc =>
    have hnext := (step_bounds base hc.code).ok hc.state hstep
    ⟨hnext.2, hnext.1⟩) h

/-- Where a transition fails, it leaves a bounded state behind. -/
theorem Snapshot.Bounded.failure {base : Nat} {c : Snapshot} {e : Fault} {t : State} (h : c.Bounded)
    (hfails : step (.standard host) base c.code c.state = .error e t) : t.Bounded :=
  (step_bounds base h.code).error h.state hfails

/-! ## Sessions -/

section Sessions

variable {config : Config} {events : List Event} {m m' : Machine} {command : Command} {reply : Reply}
  {start : Snapshot} {s : State}

theorem State.Bounded.truncateStack (h : s.Bounded) (depth : Nat) : (s.truncateStack depth).Bounded :=
  { h with frames := fun f hf => h.frames f (List.mem_of_mem_drop hf) }

/-- The run that a call starts is bounded if the atoms are that were passed in. -/
theorem Command.bounded_of_start? (h : m.state.Bounded) (hpassed : ∀ a ∈ command.passed, a.Bounded)
    (hstart : command.start? m = some start) : start.Bounded := by
  cases command with
  | load p => cases hstart
  | runEntry =>
      obtain ⟨entry, a, -, ha, rfl⟩ := Command.start?_runEntry hstart
      exact ⟨h.enterScope entry .empty, List.forall_mem_singleton.2 (h.lookup? ha)⟩
  | eval name env e =>
      cases hstart
      refine ⟨h.enterScope name fun entry hentry => ?_, fun _ ha => absurd ha List.not_mem_nil⟩
      exact hpassed entry.2 (List.mem_map_of_mem hentry)
  | force a =>
      cases hstart
      exact ⟨h.enterScope _ h.env, hpassed⟩

/-- A call with bounded atoms returns bounded ones and leaves a bounded state behind. -/
theorem Called.bounded (hregistry : m.registry = .standard host) (h : m.state.Bounded)
    (hpassed : ∀ a ∈ command.passed, a.Bounded) (hcalled : Called m command reply m') :
    (∀ a ∈ Event.returned ⟨command, reply⟩, a.Bounded) ∧ m'.state.Bounded := by
  have hrun : ∀ {start d : Snapshot}, command.start? m = some start →
      Reaches m.registry m.state.stack.depth start d → d.Bounded := by
    intro start d hstart hreach
    rw [hregistry] at hreach
    exact (Command.bounded_of_start? h hpassed hstart).reaches hreach
  have hnone : ∀ {e : Fault}, ∀ a ∈ Event.returned ⟨command, .error e⟩, a.Bounded :=
    fun _ ha => absurd ha List.not_mem_nil
  cases hcalled with
  | loaded hok =>
      exact ⟨fun _ ha => absurd ha List.not_mem_nil, ((Exec.allocateGlobals_bounds _).ok h hok).2⟩
  | notLoaded hfails => exact ⟨hnone, (Exec.allocateGlobals_bounds _).error h hfails⟩
  | noEntry => exact ⟨hnone, h⟩
  | returned hstart hreach hcode =>
      have hreached := hrun hstart hreach
      have hatoms := hreached.code
      rw [hcode] at hatoms
      exact ⟨hatoms, hreached.state.restoreScope h.env _⟩
  | notOneValue hstart hreach => exact ⟨hnone, (hrun hstart hreach).state.restoreScope h.env _⟩
  | failed hstart hreach hfails =>
      rw [hregistry] at hfails
      exact ⟨hnone, (((hrun hstart hreach).failure hfails).truncateStack _).restoreScope h.env _⟩
  | exhausted hstart hreach =>
      exact ⟨hnone, ((hrun hstart hreach).state.truncateStack _).restoreScope h.env _⟩

theorem Machine.bounded_new (config : Config) (host : Host) : (Machine.new config host).state.Bounded where
  heap a o ho := by
    simp [State.object?, Machine.new, Machine.withRegistry, State.ofConfig] at ho
  cells space i cell hcell := by
    cases space <;> simp [Spaces.cell?, Machine.new, Machine.withRegistry, State.ofConfig] at hcell
  env := .empty
  globals := .empty
  frames f hf := absurd hf List.not_mem_nil

/-- Between two calls of a session, and in what the calls returned, all atoms are bounded if those are that
were passed in. -/
theorem Session.bounded (h : Session config events m)
    (hpassed : ∀ event ∈ events, ∀ a ∈ event.command.passed, a.Bounded) :
    m.state.Bounded ∧ ∀ event ∈ events, ∀ a ∈ event.returned, a.Bounded := by
  induction h with
  | fresh host => exact ⟨Machine.bounded_new config host, fun _ hevent => absurd hevent List.not_mem_nil⟩
  | @call events m m' command reply fuel hsession hperforms ih =>
      obtain ⟨hnow, hearlier⟩ := List.forall_mem_cons.1 hpassed
      obtain ⟨hstate, hreturned⟩ := ih hearlier
      obtain ⟨host, hregistry⟩ := hsession.idle.registry
      obtain ⟨hnew, hstate'⟩ := (Command.perform_eq_some hperforms).bounded hregistry hstate hnow
      exact ⟨hstate', List.forall_mem_cons.2 ⟨hnew, hreturned⟩⟩

end Sessions

end Spineless
