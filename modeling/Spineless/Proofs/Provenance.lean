import Spineless.Proofs.PrimOp.Standard
import Spineless.Proofs.Run

/-!
# Where the parts of a state come from

A transition makes objects, frames and work out of those that are there and out of the expression in
front of it. The theorems here say what out of what, over all transitions at once, for the invariants
that say something of every object, of every frame or of every expression that may run.
-/

namespace Spineless

variable {host : Host}

/-- Where an object of the heap after a transition comes from. -/
inductive Object.Source (code : Code) (s : State) (o : Object) : Prop
  /-- It was in the heap before, there or at another address. -/
  | kept {a : Addr} (found : s.object? a = some o)
  /-- It is a constructor. -/
  | con {k : DataCon} {atoms : List Atom} (shape : o = .con k atoms)
  /-- It is a blackhole over an object of the heap. -/
  | blackhole {a : Addr} {covered : Object} (shape : o = .blackhole covered)
      (found : s.object? a = some covered)
  /-- It is a partial application of a function of the heap. -/
  | partialApp {a : Addr} {c : Closure} {args : List Atom} (found : s.object? a = some (.closure c))
      (few : args.length < c.missing) (shape : o = .closure (c.supply args))
  /-- It is what a right-hand side of the expression in front becomes. -/
  | built {binding : Binding} {body : Expr} {x : Ident} {rhs : Rhs} {lookup : Ident → Option Atom}
      (code : code = .eval (.letIn binding body)) (pair : (x, rhs) ∈ binding.pairs)
      (builds : rhs.Builds lookup x o)

/-- Where a frame of the stack after a transition comes from. -/
inductive Frame.Source (code : Code) (s : State) (f : Frame) : Prop
  /-- It was on the stack before. -/
  | kept (mem : f ∈ s.stack.frames)
  /-- It waits to apply or to update. -/
  | noCode (waits : ∀ binder altType alts, f.cont ≠ .caseOf binder altType alts)
  /-- It holds the alternatives of the expression in front. -/
  | caseOf {scrutinee : Expr} {binder : Ident} {altType : AltType} {alts : List Alt}
      (code : code = .eval (.case scrutinee binder altType alts))
      (cont : f.cont = .caseOf binder altType alts) (env : f.env = s.env)

/-- Where an expression that is evaluated after a transition comes from. -/
inductive Expr.Source (code : Code) (s : State) (e : Expr) : Prop
  /-- It is the scrutinee of the expression in front. -/
  | scrutinee {binder : Ident} {altType : AltType} {alts : List Alt}
      (code : code = .eval (.case e binder altType alts))
  /-- It is the body of the expression in front. -/
  | letBody {binding : Binding} (code : code = .eval (.letIn binding e))
  /-- It is the code of a closure of the heap. -/
  | closure {a : Addr} {c : Closure} (found : s.object? a = some (.closure c)) (body : e = c.lambda.body)
  /-- It is an alternative of the topmost frame. -/
  | alternative {f : Frame} {rest : Stack} {binder : Ident} {altType : AltType} {alts : List Alt}
      {alt : Alt} (pop : s.stack.pop? = some (f, rest)) (cont : f.cont = .caseOf binder altType alts)
      (mem : alt ∈ alts) (rhs : e = alt.rhs)

section Transition

variable {base : Nat} {code code' : Code} {s s' : State}

/-- Every object after appending objects with a source has one. -/
theorem Object.Source.of_grow (t : State) (objects : List Object) {a : Addr} {o : Object}
    (hheap : t.heap = s.heap) (hobjects : ∀ o ∈ objects, o.Source code s)
    (ho : (t.grow (objects.map some)).object? a = some o) : o.Source code s := by
  have hold : ∀ a o, t.object? a = some o → o.Source code s := by
    intro a o ho
    rw [State.object?, hheap] at ho
    exact .kept ho
  exact State.forall_object?_grow hold objects hobjects a o ho

/-- Every object of the heap after a transition has a source. -/
theorem Transition.object_source {a : Addr} {o : Object}
    (h : Transition (.standard host) base code s code' s') (ho : s'.object? a = some o) : o.Source code s := by
  cases h with
  | app =>
      rw [State.object?_pushArgs] at ho
      exact .kept ho
  | lit | multiVal | case | enterScalar | enterValue => exact .kept ho
  | @conApp _ k _ atoms strings =>
      exact .of_grow (s.withStrings strings) [.con k atoms] rfl
        (fun o ho => .con (List.mem_singleton.1 ho)) ho
  | @opApp _ _ _ _ _ _ _ _ strings _ heval =>
      -- Of the primitive operations only one allocates, a constructor without fields.
      rcases (Registry.standard_evaluate_eq_ok heval).object?_cases with hsame | ⟨con, -, -, rfl⟩
      · rw [State.object?, hsame] at ho
        exact .kept ho
      · exact .of_grow (s.withStrings strings) [.con con []] rfl
          (fun o ho => .con (List.mem_singleton.1 ho)) ho
  | @letOne _ x rhs body new strings hbuilds =>
      refine .of_grow (s.withStrings strings) [new] rfl (fun o ho => ?_) ho
      rw [List.mem_singleton.1 ho]
      exact .built rfl (List.mem_singleton.2 rfl) hbuilds
  | @letGroup _ pairs body objects strings hbuilds =>
      refine .of_grow ((s.bindAll (references s.heap.size pairs)).withStrings strings) objects rfl
        (fun o ho => ?_) ho
      obtain ⟨⟨x, rhs⟩, hpair, hbuilt⟩ := exists_mem_of_forall₂ hbuilds o ho
      exact .built rfl hpair hbuilt
  | @enterThunk _ p c hfound =>
      have hold : ∀ a o, s.object? a = some o → o.Source (.enter (.ptr p)) s := fun a o ho => .kept ho
      exact State.forall_object?_overwrite hold p (.blackhole rfl hfound) a o ho
  | @update _ frame rest target result new _ _ _ hfound =>
      have hold : ∀ a o, s.object? a = some o → o.Source (.ret [.ptr result]) s := fun a o ho => .kept ho
      exact State.forall_object?_overwrite (s := s.resumed frame rest) hold target (.kept hfound) a o ho
  | @applyPartial _ frame rest args p c _ _ _ hfound hfew =>
      refine .of_grow (s.resumed frame rest) [.closure (c.supply args)] rfl
        (fun o ho => .partialApp hfound hfew (List.mem_singleton.1 ho)) ho
  | @applyFull _ frame rest args p c =>
      change ((s.resumed frame rest).pushArgs (args.drop c.missing)).object? a = some o at ho
      rw [State.object?_pushArgs] at ho
      exact .kept ho
  | @select _ frame rest binder _ _ atoms =>
      -- Whether the value is bound or not, only the environment changes.
      obtain ⟨env, henv⟩ := State.bindValue_eq (s.resumed frame rest) binder atoms
      rw [henv] at ho
      exact .kept ho

/-- So has every object of the heap after a transition that fails. -/
theorem Failure.object_source {e : Fault} {a : Addr} {o : Object}
    (h : Failure (.standard host) base code s e s') (ho : s'.object? a = some o) : o.Source code s := by
  cases h with
  | unbound | overflow | dangling | blackholed | rejected => exact .kept ho
  | @unboundMember _ done rest x rhs body objects _ strings bound _ hbuilds =>
      -- The members before the failing one are built, and the slots of the others stay empty.
      rcases State.object?_grow_cases ho with ho | ⟨-, hslot⟩
      · exact .kept ho
      · rcases List.mem_append.1 hslot with hbuilt | hempty
        · obtain ⟨new, hnew, heq⟩ := List.mem_map.1 hbuilt
          cases heq
          obtain ⟨⟨y, rhs'⟩, hpair, hobject⟩ := exists_mem_of_forall₂ hbuilds o hnew
          exact .built rfl (List.mem_append_left _ hpair) hobject
        · cases List.eq_of_mem_replicate hempty
  | operation _ heval =>
      obtain ⟨rfl, -⟩ := Registry.standard_evaluate_eq_error heval
      exact .kept ho
  | @covered _ p c hfound =>
      have hold : ∀ a o, s.object? a = some o → o.Source (.enter (.ptr p)) s := fun a o ho => .kept ho
      exact State.forall_object?_overwrite hold p (.blackhole rfl hfound) a o ho

/-- Every frame of the stack after a transition has a source. -/
theorem Transition.frame_source {f : Frame} (h : Transition (.standard host) base code s code' s')
    (hf : f ∈ s'.stack.frames) : f.Source code s := by
  have hold : ∀ f ∈ s.stack.frames, f.Source code s := fun f hf => .kept hf
  cases h with
  | @app _ _ _ _ _ strings =>
      exact State.forall_frames_pushArgs (s := s.withStrings strings) hold
        (.noCode (fun _ _ _ h => (nomatch h))) f hf
  | lit | conApp | multiVal | letOne | letGroup | enterScalar | enterValue => exact hold f hf
  | opApp _ heval =>
      obtain ⟨-, hstack, -⟩ := (Registry.standard_evaluate_eq_ok heval).frame
      rw [hstack] at hf
      exact hold f hf
  | case =>
      rcases List.mem_cons.1 hf with rfl | hf
      · exact .caseOf rfl rfl rfl
      · exact hold f hf
  | enterThunk =>
      rcases List.mem_cons.1 hf with rfl | hf
      · exact .noCode (fun _ _ _ h => (nomatch h))
      · exact hold f hf
  | update hpop => exact (Stack.forall_frames_of_pop? hold hpop).2 f hf
  | applyPartial hpop => exact (Stack.forall_frames_of_pop? hold hpop).2 f hf
  | @applyFull _ frame rest _ _ _ hpop =>
      exact State.forall_frames_pushArgs (s := s.resumed frame rest)
        (Stack.forall_frames_of_pop? hold hpop).2 (.noCode (fun _ _ _ h => (nomatch h))) f hf
  | @select _ frame rest binder _ _ atoms _ _ _ hpop =>
      obtain ⟨env, henv⟩ := State.bindValue_eq (s.resumed frame rest) binder atoms
      rw [henv] at hf
      exact (Stack.forall_frames_of_pop? hold hpop).2 f hf

/-- An expression that is evaluated after a transition has a source. -/
theorem Transition.expr_source {e : Expr} (h : Transition (.standard host) base code s code' s')
    (he : code' = .eval e) : e.Source code s := by
  cases h with
  | app | lit | conApp | multiVal | opApp | enterScalar | enterValue | update | applyPartial => cases he
  | case => cases he; exact .scrutinee rfl
  | letOne | letGroup => cases he; exact .letBody rfl
  | enterThunk hfound => cases he; exact .closure hfound rfl
  | applyFull _ _ _ hfound => cases he; exact .closure hfound rfl
  | select hpop _ hcont _ hfirst => cases he; exact .alternative hpop hcont (Alt.first?_cases hfirst).1 rfl

/-- A transition leaves the top-level variables alone. -/
theorem Transition.globals_eq (h : Transition (.standard host) base code s code' s') :
    s'.globals = s.globals := by
  cases h with
  | app => exact State.globals_pushArgs
  | lit | conApp | multiVal | case | letOne | letGroup | enterScalar | enterValue | enterThunk => rfl
  | opApp _ heval => exact (Registry.standard_evaluate_eq_ok heval).frame.2.2
  | update | applyPartial => rfl
  | applyFull => exact State.globals_pushArgs
  | @select _ frame rest binder _ _ atoms =>
      obtain ⟨env, henv⟩ := State.bindValue_eq (s.resumed frame rest) binder atoms
      rw [henv]
      rfl

end Transition

/-- A run leaves the top-level variables alone. -/
theorem Snapshot.Reaches.globals_eq {base : Nat} {c d : Snapshot} (h : Reaches (.standard host) base c d) :
    d.state.globals = c.state.globals :=
  h.preserves (P := fun d => d.state.globals = c.state.globals)
    (fun _ _ hstep heq => hstep.transition.globals_eq.trans heq) rfl

end Spineless
