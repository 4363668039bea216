import Spineless.Proofs.Transition

/-!
# Every step follows a rule

`step_eq_code`, `step_eq_done` and `step_eq_error` invert one transition: a run goes on by a rule of
`Transition`, is over when values return at its base, or fails by a rule of `Failure`. The sections
follow the three kinds of work.
-/

namespace Spineless

namespace Stack

variable {st rest : Stack} {frame : Frame}

/-- The frame that comes off was the topmost one. -/
theorem frames_of_pop? (h : st.pop? = some (frame, rest)) : st.frames = frame :: rest.frames := by
  unfold pop? at h
  split at h
  · cases h
  · next hframes =>
    cases h
    exact hframes

theorem forall_frames_of_pop? {P : Frame → Prop} (h : ∀ f ∈ st.frames, P f)
    (hpop : st.pop? = some (frame, rest)) : P frame ∧ ∀ f ∈ rest.frames, P f := by
  rw [frames_of_pop? hpop] at h
  exact ⟨h frame List.mem_cons_self, fun f hf => h f (List.mem_cons_of_mem _ hf)⟩

/-- Only an empty stack has no frame to take. -/
theorem depth_of_pop?_eq_none (h : st.pop? = none) : st.depth = 0 := by
  unfold pop? at h
  split at h
  · next hframes => rw [st.depth_eq, hframes]; rfl
  · cases h

end Stack

namespace Exec

variable {r : Registry} {base : Nat} {s t : State} {e : Fault} {code : Code}

/-- Arguments are left waiting while there is room for their frame. -/
theorem pushArgs_eq_ok {α : Type} {args : List Atom} {k : Unit → Exec α} {a : α}
    (h : (if !args.isEmpty then pushFrame (.apply args) >>= k else k ()) s = .ok a t) :
    (args = [] ∨ s.HasRoom) ∧ k () (s.pushArgs args) = .ok a t := by
  cases args with
  | nil => exact ⟨.inl rfl, h⟩
  | cons first args =>
      obtain ⟨_, u, hpush, h⟩ := bind_eq_ok.1 h
      obtain ⟨hroom, rfl⟩ := pushFrame_eq_ok.1 hpush
      exact ⟨.inr hroom, h⟩

/-- Arguments cannot be left waiting only if there is no room. -/
theorem pushArgs_eq_error {α : Type} {args : List Atom} {k : Unit → Exec α}
    (h : (if !args.isEmpty then pushFrame (.apply args) >>= k else k ()) s = .error e t) :
    (¬ s.HasRoom ∧ e = ⟨.stackOverflow s.maxStackDepth, s.trace⟩ ∧ t = s) ∨
      k () (s.pushArgs args) = .error e t := by
  cases args with
  | nil => exact .inr h
  | cons first args =>
      rcases bind_eq_error.1 h with h | ⟨_, u, hpush, h⟩
      · exact .inl (pushFrame_eq_error.1 h)
      · obtain ⟨-, rfl⟩ := pushFrame_eq_ok.1 hpush
        exact .inr h

/-! ## Evaluating -/

/-- Evaluating an expression follows a rule. -/
theorem eval_eq_ok {expr : Expr} (h : eval r expr s = .ok code t) :
    Transition r base (.eval expr) s code t := by
  cases expr with
  | app callee args =>
      obtain ⟨f, u, hresolve, h⟩ := bind_eq_ok.1 h
      obtain ⟨hf, rfl⟩ := resolve_eq_ok.1 hresolve
      obtain ⟨atoms, u, hargs, h⟩ := bind_eq_ok.1 h
      obtain ⟨⟨strings, rfl⟩, hden⟩ := arguments_eq_ok hargs
      obtain ⟨hroom, h⟩ := pushArgs_eq_ok h
      obtain ⟨rfl, rfl⟩ := pure_eq_ok.1 h
      exact .app hf hden hroom
  | lit l =>
      obtain ⟨a, u, ha, h⟩ := bind_eq_ok.1 h
      obtain ⟨⟨strings, rfl⟩, hden⟩ := literal_eq_ok ha
      obtain ⟨rfl, rfl⟩ := pure_eq_ok.1 h
      exact .lit hden
  | conApp con args =>
      obtain ⟨atoms, u, hargs, h⟩ := bind_eq_ok.1 h
      obtain ⟨⟨strings, rfl⟩, hden⟩ := arguments_eq_ok hargs
      rw [bind_of_ok (allocate_apply _)] at h
      obtain ⟨rfl, rfl⟩ := pure_eq_ok.1 h
      exact .conApp hden
  | multiVal args =>
      obtain ⟨atoms, u, hargs, h⟩ := bind_eq_ok.1 h
      obtain ⟨⟨strings, rfl⟩, hden⟩ := arguments_eq_ok hargs
      obtain ⟨rfl, rfl⟩ := pure_eq_ok.1 h
      exact .multiVal hden
  | opApp op args resultType resultTyCon =>
      obtain ⟨atoms, u, hargs, h⟩ := bind_eq_ok.1 h
      obtain ⟨⟨strings, rfl⟩, hden⟩ := arguments_eq_ok hargs
      obtain ⟨results, u, hresults, h⟩ := bind_eq_ok.1 h
      obtain ⟨rfl, rfl⟩ := pure_eq_ok.1 h
      exact .opApp hden hresults
  | case scrutinee binder altType alts =>
      obtain ⟨_, u, hpush, h⟩ := bind_eq_ok.1 h
      obtain ⟨hroom, rfl⟩ := pushFrame_eq_ok.1 hpush
      cases h
      exact .case hroom
  | letIn binding body =>
      obtain ⟨_, u, hbinding, h⟩ := bind_eq_ok.1 h
      obtain ⟨rfl, rfl⟩ := pure_eq_ok.1 h
      cases binding with
      | nonRec x rhs =>
          obtain ⟨strings, o, hbuilds, rfl⟩ := allocateBinding_nonRec_eq_ok hbinding
          exact .letOne hbuilds
      | group pairs =>
          obtain ⟨strings, objects, hbuilds, rfl⟩ := allocateBinding_group_eq_ok hbinding
          exact .letGroup hbuilds

/-- Arguments that cannot be evaluated leave a variable of the expression unbound. -/
private theorem unbound_of_arguments {expr : Expr} {args : List Arg}
    (hsub : ∀ x ∈ args.filterMap Arg.var?, x ∈ expr.lookups) (h : arguments args s = .error e t) :
    Failure r base (.eval expr) s e t := by
  obtain ⟨⟨strings, rfl⟩, x, hx, hmissing, rfl⟩ := arguments_eq_error h
  exact .unbound (hsub x hx) hmissing

/-- An expression that cannot be evaluated fails by a rule. -/
theorem eval_eq_error {expr : Expr} (h : eval r expr s = .error e t) :
    Failure r base (.eval expr) s e t := by
  cases expr with
  | app callee args =>
      rcases bind_eq_error.1 h with h | ⟨f, u, hresolve, h⟩
      · obtain ⟨hmissing, rfl, rfl⟩ := resolve_eq_error.1 h
        -- No literal was interned yet: the table that is left is the one that was found.
        show Failure r base _ t _ (t.withStrings t.strings)
        exact .unbound List.mem_cons_self hmissing
      · obtain ⟨-, rfl⟩ := resolve_eq_ok.1 hresolve
        rcases bind_eq_error.1 h with h | ⟨atoms, u, hargs, h⟩
        · exact unbound_of_arguments (fun x hx => List.mem_cons_of_mem _ hx) h
        · obtain ⟨⟨strings, rfl⟩, -⟩ := arguments_eq_ok hargs
          rcases pushArgs_eq_error h with ⟨hfull, rfl, rfl⟩ | h
          · exact .overflow hfull
          · exact (pure_ne_error.1 h).elim
  | lit l =>
      rcases bind_eq_error.1 h with h | ⟨_, _, -, h⟩
      · exact absurd h literal_ne_error
      · exact (pure_ne_error.1 h).elim
  | conApp con args =>
      rcases bind_eq_error.1 h with h | ⟨atoms, u, -, h⟩
      · exact unbound_of_arguments (fun _ hx => hx) h
      · rw [bind_of_ok (allocate_apply _)] at h
        exact (pure_ne_error.1 h).elim
  | multiVal args =>
      rcases bind_eq_error.1 h with h | ⟨atoms, u, -, h⟩
      · exact unbound_of_arguments (fun _ hx => hx) h
      · exact (pure_ne_error.1 h).elim
  | opApp op args resultType resultTyCon =>
      rcases bind_eq_error.1 h with h | ⟨atoms, u, hargs, h⟩
      · exact unbound_of_arguments (fun _ hx => hx) h
      · obtain ⟨⟨strings, rfl⟩, hden⟩ := arguments_eq_ok hargs
        rcases bind_eq_error.1 h with h | ⟨_, _, -, h⟩
        · exact .operation hden h
        · exact (pure_ne_error.1 h).elim
  | case scrutinee binder altType alts =>
      rcases bind_eq_error.1 h with h | ⟨_, u, -, h⟩
      · obtain ⟨hfull, rfl, rfl⟩ := pushFrame_eq_error.1 h
        show Failure r base _ t _ (t.withStrings t.strings)
        exact .overflow hfull
      · cases h
  | letIn binding body =>
      rcases bind_eq_error.1 h with h | ⟨_, _, -, h⟩
      · cases binding with
        | nonRec x rhs =>
            obtain ⟨⟨strings, rfl⟩, y, hy, hmissing, rfl⟩ := allocateBinding_nonRec_eq_error h
            exact .unbound hy hmissing
        | group pairs =>
            obtain ⟨strings, done, x, rhs, rest, objects, rfl, hbuilds, rfl, y, hy, hmissing, rfl⟩ :=
              allocateBinding_group_eq_error h
            exact .unboundMember rfl hbuilds hy hmissing
      · exact (pure_ne_error.1 h).elim

/-! ## Entering -/

/-- An address that holds an object can be overwritten. -/
private theorem store_of_object? {p : Addr} {old : Object} (h : s.object? p = some old) (o : Object) :
    store p o s = .ok () (s.overwrite p o) := by
  rw [store_apply, if_pos (State.lt_of_object? h)]

/-- Entering an atom follows a rule. -/
theorem enter_eq_ok {a : Atom} (h : enter a s = .ok code t) :
    Transition r base (.enter a) s code t := by
  cases a with
  | ptr p =>
      obtain ⟨o, u, hread, h⟩ := bind_eq_ok.1 h
      obtain ⟨ho, rfl⟩ := read_eq_ok.1 hread
      cases o with
      | con k args =>
          obtain ⟨rfl, rfl⟩ := pure_eq_ok.1 h
          exact .enterValue ho rfl
      | blackhole o => exact (fail_ne_ok.1 h).elim
      | closure c =>
          by_cases hthunk : c.isThunk
          · simp only [hthunk, if_true] at h
            rw [bind_of_ok (store_of_object? ho _)] at h
            obtain ⟨_, u, hpush, h⟩ := bind_eq_ok.1 h
            obtain ⟨hroom, rfl⟩ := pushFrame_eq_ok.1 hpush
            cases h
            exact .enterThunk ho (by simpa [Closure.isThunk] using hthunk) hroom
          · simp only [hthunk] at h
            obtain ⟨rfl, rfl⟩ := pure_eq_ok.1 h
            exact .enterValue ho (by simp [Object.isValue, hthunk])
  | _ =>
      obtain ⟨rfl, rfl⟩ := pure_eq_ok.1 h
      exact .enterScalar rfl

/-- An atom that cannot be entered fails by a rule. -/
theorem enter_eq_error {a : Atom} (h : enter a s = .error e t) : Failure r base (.enter a) s e t := by
  cases a with
  | ptr p =>
      rcases bind_eq_error.1 h with h | ⟨o, u, hread, h⟩
      · obtain ⟨ho, rfl, rfl⟩ := read_eq_error.1 h
        exact .dangling ho
      · obtain ⟨ho, rfl⟩ := read_eq_ok.1 hread
        cases o with
        | con k args => exact (pure_ne_error.1 h).elim
        | blackhole o =>
            obtain ⟨rfl, rfl⟩ := fail_eq_error.1 h
            exact .blackholed ho
        | closure c =>
            by_cases hthunk : c.isThunk
            · simp only [hthunk, if_true] at h
              -- The blackhole is stored before the frame is pushed, so it stays if there is no room.
              rw [bind_of_ok (store_of_object? ho _)] at h
              rcases bind_eq_error.1 h with h | ⟨_, u, -, h⟩
              · obtain ⟨hfull, rfl, rfl⟩ := pushFrame_eq_error.1 h
                exact .covered ho (by simpa [Closure.isThunk] using hthunk) hfull
              · cases h
            · simp only [hthunk] at h
              exact (pure_ne_error.1 h).elim
  | _ => exact (pure_ne_error.1 h).elim

/-! ## Returning -/

/-- Binding the value of a scrutinee always succeeds. -/
theorem bindValue_apply (binder : Ident) (atoms : List Atom) (s : State) :
    bindValue binder atoms s = .ok () (s.bindValue binder atoms) := by
  rcases atoms with _ | ⟨value, _ | ⟨other, more⟩⟩
  · rfl
  · rfl
  · rfl

/-- The constructor behind a reference is read as it is. -/
private theorem readCon_eq_ok {p : Addr} {k : DataCon × List Atom} (h : readCon p s = .ok k t) :
    s.object? p = some (.con k.1 k.2) ∧ t = s := by
  obtain ⟨o, u, hread, h⟩ := bind_eq_ok.1 h
  obtain ⟨ho, rfl⟩ := read_eq_ok.1 hread
  cases o with
  | con k args =>
      obtain ⟨rfl, rfl⟩ := pure_eq_ok.1 h
      exact ⟨ho, rfl⟩
  | closure c => exact (fail_ne_ok.1 h).elim
  | blackhole o => exact (fail_ne_ok.1 h).elim

/-- A constructor cannot be read where there is no object or another one. -/
private theorem readCon_eq_error {p : Addr} (h : readCon p s = .error e t) :
    t = s ∧ ((s.object? p = none ∧ e = ⟨.unknownAddress p, s.trace⟩) ∨
      ∃ o, s.object? p = some o ∧ e = ⟨.notAConstructor p o.shape, s.trace⟩) := by
  rcases bind_eq_error.1 h with h | ⟨o, u, hread, h⟩
  · obtain ⟨ho, rfl, rfl⟩ := read_eq_error.1 h
    exact ⟨rfl, .inl ⟨ho, rfl⟩⟩
  · obtain ⟨ho, rfl⟩ := read_eq_ok.1 hread
    cases o with
    | con k args => exact (pure_ne_error.1 h).elim
    | closure c =>
        obtain ⟨rfl, rfl⟩ := fail_eq_error.1 h
        exact ⟨rfl, .inr ⟨_, ho, rfl⟩⟩
    | blackhole o =>
        obtain ⟨rfl, rfl⟩ := fail_eq_error.1 h
        exact ⟨rfl, .inr ⟨_, ho, rfl⟩⟩

/-- The constructor that alternatives are matched against. -/
private theorem scrutinee?_eq_ok {alts : List Alt} {atoms : List Atom}
    {found : Option (DataCon × List Atom)} (h : scrutinee? alts atoms s = .ok found t) :
    Scrutinises s alts atoms found ∧ t = s := by
  revert h
  fun_cases scrutinee? alts atoms with
  | case1 p hasked =>
      intro h
      obtain ⟨k, u, hread, hpure⟩ := bind_eq_ok.1 h
      obtain ⟨ho, rfl⟩ := readCon_eq_ok hread
      obtain ⟨rfl, rfl⟩ := pure_eq_ok.1 hpure
      exact ⟨.some hasked ho, rfl⟩
  | case2 p hasked =>
      intro h
      obtain ⟨rfl, rfl⟩ := pure_eq_ok.1 h
      exact ⟨.none fun h => absurd h hasked, rfl⟩
  | case3 _ hatoms =>
      intro h
      obtain ⟨rfl, rfl⟩ := pure_eq_ok.1 h
      exact ⟨.none fun _ p hp => hatoms p hp, rfl⟩

/-- The constructor cannot be read only if the values are one reference to something else. -/
private theorem scrutinee?_eq_error {alts : List Alt} {atoms : List Atom}
    (h : scrutinee? alts atoms s = .error e t) :
    t = s ∧ ∃ p, atoms = [.ptr p] ∧ ((s.object? p = none ∧ e = ⟨.unknownAddress p, s.trace⟩) ∨
      ∃ o, s.object? p = some o ∧ e = ⟨.notAConstructor p o.shape, s.trace⟩) := by
  revert h
  fun_cases scrutinee? alts atoms with
  | case1 p hasked =>
      intro h
      rcases bind_eq_error.1 h with h | ⟨_, _, -, h⟩
      · obtain ⟨rfl, hwhy⟩ := readCon_eq_error h
        exact ⟨rfl, p, rfl, hwhy⟩
      · exact (pure_ne_error.1 h).elim
  | case2 p hasked => exact fun h => (pure_ne_error.1 h).elim
  | case3 _ hatoms => exact fun h => (pure_ne_error.1 h).elim

/-- A frame is taken off the stack. -/
private theorem popFrame?_of_some {frame : Frame} {rest : Stack}
    (h : s.stack.pop? = some (frame, rest)) :
    popFrame? s = .ok (some frame) { s with stack := rest } := by
  rw [popFrame?, modifyGet_apply]
  simp only [h]

/-- Values that are not one heap reference cannot overwrite a thunk. -/
private theorem update_of_ne {target : Addr} {atoms : List Atom} (h : ∀ p, atoms ≠ [.ptr p]) :
    update target atoms = fail (.invalidUpdate target atoms) := by
  unfold update
  split
  · exact absurd rfl (h _)
  · rfl

/-- Values that are not one heap reference cannot be applied. -/
private theorem resume_apply_of_ne {args atoms : List Atom} {env : Env} {trace : List Ident}
    (h : ∀ p, atoms ≠ [.ptr p]) (s : State) :
    resume ⟨.apply args, env, trace⟩ atoms s =
      .error ⟨.notAFunction (.values atoms), trace⟩ (s.restoreScope env trace) := by
  unfold resume
  split
  · next heq => cases heq
  · next heq =>
    split
    · exact absurd rfl (h _)
    · rfl
  · next heq => cases heq

section Resume

variable {frame : Frame} {rest : Stack} {atoms : List Atom}
  (hpop : s.stack.pop? = some (frame, rest)) (hdepth : base < s.stack.depth)
include hpop hdepth

/-- Applying a closure follows a rule. -/
theorem apply_eq_ok {p : Addr} {args : List Atom} (hcont : frame.cont = .apply args)
    (h : apply p args (s.resumed frame rest) = .ok code t) :
    Transition r base (.ret [.ptr p]) s code t := by
  obtain ⟨o, u, hread, h⟩ := bind_eq_ok.1 h
  obtain ⟨ho, rfl⟩ := read_eq_ok.1 hread
  cases o with
  | con k fields => exact (fail_ne_ok.1 h).elim
  | blackhole o => exact (fail_ne_ok.1 h).elim
  | closure c =>
      by_cases hmissing : c.missing = 0
      · simp only [hmissing, if_true] at h
        exact (fail_ne_ok.1 h).elim
      · by_cases hfew : args.length < c.missing
        · simp only [hmissing, hfew, if_true, if_false] at h
          rw [bind_of_ok (allocate_apply _)] at h
          obtain ⟨rfl, rfl⟩ := pure_eq_ok.1 h
          exact .applyPartial hpop hdepth hcont ho hfew
        · simp only [hmissing, hfew, if_false] at h
          obtain ⟨hroom, h⟩ := pushArgs_eq_ok h
          cases h
          exact .applyFull hpop hdepth hcont ho (by omega) (by omega) hroom

/-- Choosing an alternative follows a rule. -/
theorem select_eq_ok {binder : Ident} {altType : AltType} {alts : List Alt}
    (hcont : frame.cont = .caseOf binder altType alts)
    (h : select binder altType alts atoms (s.resumed frame rest) = .ok code t) :
    Transition r base (.ret atoms) s code t := by
  rw [select, bind_of_ok (bindValue_apply binder atoms _)] at h
  obtain ⟨scrutinee, u, hscrutinee, h⟩ := bind_eq_ok.1 h
  obtain ⟨hreads, rfl⟩ := scrutinee?_eq_ok hscrutinee
  -- The constructor is read after the frame is gone and the value is bound, from the same heap.
  have hreads' : Scrutinises s alts atoms scrutinee := by
    obtain ⟨env, henv⟩ := State.bindValue_eq (s.resumed frame rest) binder atoms
    rw [henv] at hreads
    cases hreads with
    | none hunasked => exact .none hunasked
    | some hasked hfound => exact .some hasked hfound
  cases hfirst : Alt.first? alts altType atoms scrutinee with
  | none =>
      simp only [hfirst] at h
      exact (fail_ne_ok.1 h).elim
  | some taken =>
      simp only [hfirst] at h
      cases h
      exact .select hpop hdepth hcont hreads' hfirst

/-- Overwriting a thunk follows a rule. -/
theorem update_eq_ok {target result : Addr} (hcont : frame.cont = .update target)
    (h : update target [.ptr result] (s.resumed frame rest) = .ok code t) :
    Transition r base (.ret [.ptr result]) s code t := by
  obtain ⟨o, u, hread, h⟩ := bind_eq_ok.1 h
  obtain ⟨ho, rfl⟩ := read_eq_ok.1 hread
  obtain ⟨_, u, hstore, h⟩ := bind_eq_ok.1 h
  rw [store_apply] at hstore
  split at hstore
  · next hknown =>
    cases hstore
    obtain ⟨rfl, rfl⟩ := pure_eq_ok.1 h
    exact .update hpop hdepth hcont ho hknown
  · cases hstore

/-- Resuming a frame follows a rule. -/
theorem resume_eq_ok (h : resume frame atoms { s with stack := rest } = .ok code t) :
    Transition r base (.ret atoms) s code t := by
  obtain ⟨cont, env, trace⟩ := frame
  cases cont with
  | update target =>
      change update target atoms (s.resumed ⟨.update target, env, trace⟩ rest) = _ at h
      by_cases hptr : ∃ p, atoms = [.ptr p]
      · obtain ⟨p, rfl⟩ := hptr
        exact update_eq_ok hpop hdepth rfl h
      · rw [update_of_ne (not_exists.1 hptr)] at h
        exact (fail_ne_ok.1 h).elim
  | apply args =>
      by_cases hptr : ∃ p, atoms = [.ptr p]
      · obtain ⟨p, rfl⟩ := hptr
        exact apply_eq_ok hpop hdepth rfl h
      · rw [resume_apply_of_ne (not_exists.1 hptr)] at h
        cases h
  | caseOf binder altType alts => exact select_eq_ok hpop hdepth rfl h

/-- A closure that cannot be applied is rejected. -/
theorem apply_eq_error {p : Addr} {args : List Atom} (hcont : frame.cont = .apply args)
    (h : apply p args (s.resumed frame rest) = .error e t) : Failure r base (.ret [.ptr p]) s e t := by
  have hreject : ∀ {cause : Cause}, Rejected (s.resumed frame rest) [.ptr p] (.apply args) cause →
      Failure r base (.ret [.ptr p]) s ⟨cause, frame.trace⟩ (s.resumed frame rest) := by
    intro cause hwhy
    show Failure r base _ s _ ((s.resumed frame rest).restoreScope frame.env frame.trace)
    exact .rejected hpop hdepth (by rw [hcont]; exact hwhy)
  rcases bind_eq_error.1 h with h | ⟨o, u, hread, h⟩
  · obtain ⟨ho, rfl, rfl⟩ := read_eq_error.1 h
    exact hreject (.dangling rfl ho)
  · obtain ⟨ho, rfl⟩ := read_eq_ok.1 hread
    cases o with
    | con k fields =>
        obtain ⟨rfl, rfl⟩ := fail_eq_error.1 h
        exact hreject (.notAFunction _)
    | blackhole o =>
        obtain ⟨rfl, rfl⟩ := fail_eq_error.1 h
        exact hreject (.notAFunction _)
    | closure c =>
        by_cases hmissing : c.missing = 0
        · simp only [hmissing, if_true] at h
          obtain ⟨rfl, rfl⟩ := fail_eq_error.1 h
          exact hreject (.notAFunction _)
        · by_cases hfew : args.length < c.missing
          · simp only [hmissing, hfew, if_true, if_false] at h
            rw [bind_of_ok (allocate_apply _)] at h
            exact (pure_ne_error.1 h).elim
          · simp only [hmissing, hfew, if_false] at h
            rcases pushArgs_eq_error h with ⟨hfull, rfl, rfl⟩ | h
            · exact hreject (.overflow hfull)
            · cases h

/-- Values for which no alternative can be chosen are rejected. -/
theorem select_eq_error {binder : Ident} {altType : AltType} {alts : List Alt}
    (hcont : frame.cont = .caseOf binder altType alts)
    (h : select binder altType alts atoms (s.resumed frame rest) = .error e t) :
    Failure r base (.ret atoms) s e t := by
  obtain ⟨env, henv⟩ := State.bindValue_eq (s.resumed frame rest) binder atoms
  have hreject : ∀ {cause : Cause},
      Rejected (s.resumed frame rest) atoms (.caseOf binder altType alts) cause →
        Failure r base (.ret atoms) s ⟨cause, frame.trace⟩
          ((s.resumed frame rest).restoreScope env frame.trace) := by
    intro cause hwhy
    exact .rejected hpop hdepth (by rw [hcont]; exact hwhy)
  rw [select, bind_of_ok (bindValue_apply binder atoms _), henv] at h
  rcases bind_eq_error.1 h with h | ⟨scrutinee, u, hscrutinee, h⟩
  · obtain ⟨rfl, p, hatoms, ⟨ho, rfl⟩ | ⟨o, ho, rfl⟩⟩ := scrutinee?_eq_error h
    · exact hreject (.dangling hatoms ho)
    · exact hreject (.notAConstructor hatoms ho)
  · obtain ⟨-, rfl⟩ := scrutinee?_eq_ok hscrutinee
    cases hfirst : Alt.first? alts altType atoms scrutinee with
    | none =>
        simp only [hfirst] at h
        obtain ⟨rfl, rfl⟩ := fail_eq_error.1 h
        exact hreject (.noMatch _)
    | some taken =>
        simp only [hfirst] at h
        cases h

/-- A thunk that cannot be overwritten rejects its result. -/
theorem update_eq_error {target result : Addr} (hcont : frame.cont = .update target)
    (h : update target [.ptr result] (s.resumed frame rest) = .error e t) :
    Failure r base (.ret [.ptr result]) s e t := by
  -- A rejected update binds nothing: the scope that is left is the frame's own.
  have hreject : ∀ {cause : Cause}, Rejected (s.resumed frame rest) [.ptr result] (.update target) cause →
      Failure r base (.ret [.ptr result]) s ⟨cause, frame.trace⟩ (s.resumed frame rest) := by
    intro cause hwhy
    show Failure r base _ s _ ((s.resumed frame rest).restoreScope frame.env frame.trace)
    exact .rejected hpop hdepth (by rw [hcont]; exact hwhy)
  rcases bind_eq_error.1 h with h | ⟨o, u, hread, h⟩
  · obtain ⟨ho, rfl, rfl⟩ := read_eq_error.1 h
    exact hreject (.dangling rfl ho)
  · obtain ⟨ho, rfl⟩ := read_eq_ok.1 hread
    rcases bind_eq_error.1 h with h | ⟨_, _, -, h⟩
    · rw [store_apply] at h
      split at h
      · cases h
      · next hunknown =>
        cases h
        exact hreject (.unknownTarget hunknown)
    · exact (pure_ne_error.1 h).elim

/-- A frame that cannot be resumed rejects the values. -/
theorem resume_eq_error (h : resume frame atoms { s with stack := rest } = .error e t) :
    Failure r base (.ret atoms) s e t := by
  obtain ⟨cont, env, trace⟩ := frame
  cases cont with
  | update target =>
      change update target atoms (s.resumed ⟨.update target, env, trace⟩ rest) = _ at h
      by_cases hptr : ∃ p, atoms = [.ptr p]
      · obtain ⟨p, rfl⟩ := hptr
        exact update_eq_error hpop hdepth rfl h
      · rw [update_of_ne (not_exists.1 hptr)] at h
        obtain ⟨rfl, rfl⟩ := fail_eq_error.1 h
        show Failure r base _ s _ ((s.resumed ⟨.update target, env, trace⟩ rest).restoreScope env trace)
        exact .rejected hpop hdepth (.notAReference (not_exists.1 hptr))
  | apply args =>
      by_cases hptr : ∃ p, atoms = [.ptr p]
      · obtain ⟨p, rfl⟩ := hptr
        exact apply_eq_error hpop hdepth rfl h
      · rw [resume_apply_of_ne (not_exists.1 hptr)] at h
        cases h
        show Failure r base _ s _ ((s.resumed ⟨.apply args, env, trace⟩ rest).restoreScope env trace)
        exact .rejected hpop hdepth (.notAFunction _)
  | caseOf binder altType alts => exact select_eq_error hpop hdepth rfl h

end Resume

end Exec

/-! ## Steps -/

section Step

variable {r : Registry} {base : Nat} {s t : State} {e : Fault} {code code' : Code} {atoms : List Atom}

/-- Values that return above the base go to the topmost frame. -/
theorem step_ret_of_lt (r : Registry) (atoms : List Atom) (hdepth : base < s.stack.depth) :
    ∃ frame rest, s.stack.pop? = some (frame, rest) ∧
      step r base (.ret atoms) s =
        (do return .code (← Exec.resume frame atoms) : Exec Next) { s with stack := rest } := by
  cases hpop : s.stack.pop? with
  | none =>
      have := s.stack.depth_of_pop?_eq_none hpop
      omega
  | some top =>
      obtain ⟨frame, rest⟩ := top
      refine ⟨frame, rest, rfl, ?_⟩
      rw [step, Exec.get_bind, if_neg (by omega), Exec.bind_of_ok (Exec.popFrame?_of_some hpop)]

/-- Values that return at the base are the result. -/
theorem step_ret_of_le (hdepth : s.stack.depth ≤ base) :
    step r base (.ret atoms) s = .ok (.done atoms) s := by
  rw [step, Exec.get_bind, if_pos hdepth]
  rfl

/-- Entering what is evaluated gives it back. -/
theorem step_enter_of_evaluated {a : Atom} (h : s.Evaluated a) :
    step r base (.enter a) s = .ok (.code (.ret [a])) s := by
  have henter : Exec.enter a s = .ok (.ret [a]) s := by
    cases a with
    | ptr p =>
        obtain ⟨o, ho, hvalue⟩ := h p rfl
        rw [Exec.enter, Exec.bind_of_ok (Exec.read_eq_ok.2 ⟨ho, rfl⟩)]
        cases o with
        | con k args => rfl
        | blackhole o => cases hvalue
        | closure c =>
            have hthunk : c.isThunk = false := by simpa [Object.isValue] using hvalue
            simp only [hthunk]
            rfl
    | _ => rfl
  rw [step, Exec.bind_of_ok henter]
  rfl

/-- A run that goes on follows a rule. -/
theorem step_eq_code (h : step r base code s = .ok (.code code') t) :
    Transition r base code s code' t := by
  cases code with
  | eval expr =>
      obtain ⟨c, u, heval, h⟩ := Exec.bind_eq_ok.1 h
      cases h
      exact Exec.eval_eq_ok heval
  | enter a =>
      obtain ⟨c, u, henter, h⟩ := Exec.bind_eq_ok.1 h
      cases h
      exact Exec.enter_eq_ok henter
  | ret atoms =>
      by_cases hdepth : base < s.stack.depth
      · obtain ⟨frame, rest, hpop, hstep⟩ := step_ret_of_lt r atoms hdepth
        rw [hstep] at h
        obtain ⟨c, u, hresume, h⟩ := Exec.bind_eq_ok.1 h
        cases h
        exact Exec.resume_eq_ok hpop hdepth hresume
      · rw [step, Exec.get_bind, if_pos (by omega)] at h
        cases h

/-- A run that is over returned values at its base. -/
theorem step_eq_done (h : step r base code s = .ok (.done atoms) t) :
    code = .ret atoms ∧ t = s ∧ s.stack.depth ≤ base := by
  cases code with
  | eval expr =>
      obtain ⟨c, u, -, h⟩ := Exec.bind_eq_ok.1 h
      cases h
  | enter a =>
      obtain ⟨c, u, -, h⟩ := Exec.bind_eq_ok.1 h
      cases h
  | ret atoms =>
      by_cases hdepth : base < s.stack.depth
      · obtain ⟨frame, rest, hpop, hstep⟩ := step_ret_of_lt r atoms hdepth
        rw [hstep] at h
        obtain ⟨c, u, -, h⟩ := Exec.bind_eq_ok.1 h
        cases h
      · rw [step, Exec.get_bind, if_pos (by omega)] at h
        cases h
        exact ⟨rfl, rfl, by omega⟩

/-- A run that fails fails by a rule. -/
theorem step_eq_error (h : step r base code s = .error e t) : Failure r base code s e t := by
  cases code with
  | eval expr =>
      rcases Exec.bind_eq_error.1 h with h | ⟨_, _, -, h⟩
      · exact Exec.eval_eq_error h
      · cases h
  | enter a =>
      rcases Exec.bind_eq_error.1 h with h | ⟨_, _, -, h⟩
      · exact Exec.enter_eq_error h
      · cases h
  | ret atoms =>
      by_cases hdepth : base < s.stack.depth
      · obtain ⟨frame, rest, hpop, hstep⟩ := step_ret_of_lt r atoms hdepth
        rw [hstep] at h
        rcases Exec.bind_eq_error.1 h with h | ⟨_, _, -, h⟩
        · exact Exec.resume_eq_error hpop hdepth h
        · cases h
      · rw [step, Exec.get_bind, if_pos (by omega)] at h
        cases h

end Step

end Spineless
