import Mathlib.Logic.Function.Iterate
import Spineless.Proofs.PrimOp.Equivariant
import Spineless.Proofs.Session

/-!
# Corresponding runs

Two runs that start with corresponding work in corresponding states stay in step: each transition of one
corresponds to a transition of the other (`Related.step`), so they take as many transitions and end in the
same way (`Related.follow`), and so do the calls of a machine that start them (`Related.runScoped`,
`Related.runEntry`, `Related.force`).

What has to correspond depends on the work. An expression is evaluated in the current environment. An atom
that is entered, and values that return, go on in the environment of a closure or of a case; so
transitions end in states whose environments correspond only if an expression comes next.
-/

namespace Spineless

variable {host : Host}

/-- Whether a piece of work reads the current environment. -/
def Code.live : Code → Bool
  | .eval _ => true
  | .enter _ | .ret _ => false

/-- Whether what comes next reads the current environment. -/
def Next.live : Next → Bool
  | .code c => c.live
  | .done _ => false

namespace Renaming

variable (ρ : Renaming)

/-- An alternative binds the same values under new names. -/
theorem fields?_alt (a : Alt) (altType : AltType) (atoms : List Atom)
    (scrutinee : Option (DataCon × List Atom)) :
    (ρ.alt a).fields? altType (atoms.map ρ.atom)
        (scrutinee.map fun found => (found.1, found.2.map ρ.atom)) =
      (a.fields? altType atoms scrutinee).map (List.map ρ.atom) := by
  obtain ⟨con, binders, rhs⟩ := a
  cases con with
  | default =>
      simp only [Alt.fields?, alt]
      split <;> rfl
  | data k =>
      cases scrutinee with
      | none => rfl
      | some found =>
          simp only [Alt.fields?, alt, Option.map_some]
          split <;> rfl
  | lit l =>
      rcases atoms with _ | ⟨value, _ | ⟨other, rest⟩⟩
      · rfl
      · cases hl : l.atom? with
        | none => simp [Alt.fields?, alt, hl]
        | some expected =>
            simp only [Alt.fields?, alt, hl, List.map_cons, List.map_nil, ρ.beq_literal hl]
            split <;> rfl
      · rfl

/-- The same alternative is the first one that matches. -/
theorem first?_alts (alts : List Alt) (altType : AltType) (atoms : List Atom)
    (scrutinee : Option (DataCon × List Atom)) :
    Alt.first? (alts.map ρ.alt) altType (atoms.map ρ.atom)
        (scrutinee.map fun found => (found.1, found.2.map ρ.atom)) =
      (Alt.first? alts altType atoms scrutinee).map fun found => (ρ.alt found.1, found.2.map ρ.atom) := by
  unfold Alt.first?
  induction alts with
  | nil => rfl
  | cons a alts ih =>
      rw [List.map_cons, List.findSome?_cons, List.findSome?_cons, fields?_alt, ih]
      cases a.fields? altType atoms scrutinee with
      | none => rfl
      | some fields => rfl

theorem any_isData_alts (alts : List Alt) : (alts.map ρ.alt).any Alt.isData = alts.any Alt.isData := by
  rw [List.any_map]
  rfl

end Renaming

namespace Coupling

variable {C : Coupling} {live : Bool} {s t : State}

/-- Corresponding work in corresponding states. -/
def GoesOn (C : Coupling) (c : Code) (s : State) (c' : Code) (t : State) : Prop :=
  C.Related c.live s t ∧ c' = C.names.code c

/-! ## Arguments and allocation -/

section Lists

variable {α β γ δ : Type}

/-- Corresponding actions on the members of corresponding lists. -/
theorem Outcomes.mapM {f : α → Exec γ} {g : β → Exec δ} {ψ : α → β} {φ : γ → δ}
    (hf : ∀ a s t, C.Related live s t → C.Outcomes (C.Maps live φ) (f a s) (g (ψ a) t))
    (xs : List α) (h : C.Related live s t) :
    C.Outcomes (C.Maps live (List.map φ)) (xs.mapM f s) ((xs.map ψ).mapM g t) := by
  induction xs generalizing s t with
  | nil => exact .ok ⟨h, rfl⟩
  | cons x xs ih =>
      rw [List.map_cons, List.mapM_cons, List.mapM_cons]
      refine (hf x s t h).bind_maps fun a s₁ t₁ h₁ => ?_
      exact (ih h₁).bind_maps fun as s₂ t₂ h₂ => .ok ⟨h₂, rfl⟩

theorem Outcomes.forM {f : α → Exec Unit} {g : β → Exec Unit} {ψ : α → β}
    (hf : ∀ a s t, C.Related live s t → C.Outcomes (C.Maps live id) (f a s) (g (ψ a) t))
    (xs : List α) (h : C.Related live s t) :
    C.Outcomes (C.Maps live id) (xs.forM f s) ((xs.map ψ).forM g t) := by
  induction xs generalizing s t with
  | nil => exact .ok ⟨h, rfl⟩
  | cons x xs ih =>
      exact (hf x s t h).bind_maps fun _ s₁ t₁ h₁ => ih h₁

end Lists

namespace Related

theorem literal (h : C.Related live s t) (l : Lit) :
    C.Outcomes (C.Maps live C.names.atom) (Exec.literal l s) (Exec.literal l t) := by
  cases l with
  | string bytes => exact (h.intern bytes).bind_maps fun p _ _ h' => .ok ⟨h', rfl⟩
  | _ => exact .ok ⟨h, rfl⟩

theorem argument (h : C.Related true s t) (a : Arg) :
    C.Outcomes (C.Maps true C.names.atom) (Exec.argument a s) (Exec.argument (C.names.arg a) t) := by
  cases a with
  | var x => exact h.resolve x
  | lit l => exact h.literal l

theorem arguments (h : C.Related true s t) (args : List Arg) :
    C.Outcomes (C.Maps true (List.map C.names.atom)) (Exec.arguments args s)
      (Exec.arguments (args.map C.names.arg) t) :=
  .mapM (fun a _ _ h' => h'.argument a) args h

/-- The loop of `capture`, from corresponding environments. -/
theorem capture_loop (h : C.Related true s t) (freeVars : List Ident) (env : Env) :
    C.Outcomes (C.Maps true C.names.env)
      ((freeVars.foldlM (fun env x => return env.bind x (← Exec.resolve x)) env : Exec Env) s)
      (((freeVars.map C.names.ident).foldlM (fun env x => return env.bind x (← Exec.resolve x))
        (C.names.env env) : Exec Env) t) := by
  induction freeVars generalizing env s t with
  | nil => exact .ok ⟨h, rfl⟩
  | cons x freeVars ih =>
      rw [List.map_cons, List.foldlM_cons, List.foldlM_cons, bind_assoc, bind_assoc]
      refine (h.resolve x).bind_maps fun a s₁ t₁ h₁ => ?_
      rw [pure_bind, pure_bind, ← C.names.env_bind]
      exact ih h₁ _

theorem capture (h : C.Related true s t) (freeVars : List Ident) :
    C.Outcomes (C.Maps true C.names.env) (Exec.capture freeVars s)
      (Exec.capture (freeVars.map C.names.ident) t) :=
  h.capture_loop freeVars .empty

/-- The object of a right-hand side. -/
theorem build (h : C.Related true s t) (x : Ident) (rhs : Rhs) :
    C.Outcomes (C.Maps true C.names.object) (Exec.build x rhs s)
      (Exec.build (C.names.ident x) (C.names.rhs rhs) t) := by
  cases rhs with
  | closure freeVars l =>
      rw [C.names.rhs_closure]
      refine (h.capture freeVars).bind_maps fun env _ _ h' => .ok ⟨h', ?_⟩
      simp [Closure.ofLambda, Renaming.closure, Renaming.lambda, Lambda.arity]
  | con k args =>
      rw [Renaming.rhs]
      exact (h.arguments args).bind_maps fun atoms _ _ h' => .ok ⟨h', rfl⟩

/-- A declared member under new names. -/
theorem declare (h : C.Related true s t) (pairs : List (Ident × Rhs)) :
    C.Outcomes
      (C.Maps true (List.map fun m => (C.names.addr m.1, C.names.ident m.2.1, C.names.rhs m.2.2)))
      (Exec.declare (fun x a s => s.bind x a) pairs s)
      (Exec.declare (fun x a s => s.bind x a) (C.names.pairs pairs) t) := by
  rw [C.names.pairs_eq_map]
  refine .mapM (fun pair s₁ t₁ h₁ => ?_) pairs h
  refine h₁.reserve.bind_maps fun a s₂ t₂ h₂ => ?_
  rw [Exec.modify_bind, Exec.modify_bind]
  exact .ok ⟨h₂.bind pair.1 (.ptr a), rfl⟩

theorem define (h : C.Related true s t) (members : List (Addr × Ident × Rhs)) :
    C.Outcomes (C.Maps true id) (Exec.define Exec.build members s)
      (Exec.define Exec.build
        (members.map fun m => (C.names.addr m.1, C.names.ident m.2.1, C.names.rhs m.2.2)) t) :=
  .forM (fun m _ _ h₁ => (h₁.build m.2.1 m.2.2).bind_maps fun o _ _ h₂ => h₂.write m.1 o) members h

theorem allocateBinding (h : C.Related true s t) (b : Binding) :
    C.Outcomes (C.Maps true id) (Exec.allocateBinding b s)
      (Exec.allocateBinding (C.names.binding b) t) := by
  cases b with
  | nonRec x rhs =>
      rw [Renaming.binding]
      refine (h.build x rhs).bind_maps fun o _ _ h₁ => ?_
      exact (h₁.allocate o).bind_maps fun a _ _ h₂ => .ok ⟨h₂.bind x (.ptr a), rfl⟩
  | group pairs =>
      rw [Renaming.binding]
      exact (h.declare pairs).bind_maps fun members _ _ h₁ => h₁.define members

/-! ## Evaluating -/

/-- Arguments that are left waiting, if there are any. -/
theorem pushArgs {α β : Type} {R : α → State → β → State → Prop} (h : C.Related live s t)
    (args : List Atom) {k : Unit → Exec α} {k' : Unit → Exec β}
    (hnext : ∀ s' t', C.Related live s' t' → C.Outcomes R (k () s') (k' () t')) :
    C.Outcomes R ((if !args.isEmpty then Exec.pushFrame (.apply args) >>= k else k ()) s)
      ((if !(args.map C.names.atom).isEmpty then
          Exec.pushFrame (.apply (args.map C.names.atom)) >>= k' else k' ()) t) := by
  cases args with
  | nil => exact hnext s t h
  | cons a args =>
      have hpush := h.pushFrame (.apply (a :: args)) fun _ _ _ hk => nomatch hk
      exact hpush.bind_maps fun _ s' t' h' => hnext s' t' h'

/-- Evaluating corresponding expressions. -/
theorem eval (h : C.Related true s t) (e : Expr) :
    C.Outcomes C.GoesOn (Exec.eval (.standard host) e s) (Exec.eval (.standard host) (C.names.expr e) t) := by
  cases e with
  | app callee args =>
      rw [Renaming.expr]
      refine (h.resolve callee).bind_maps fun f _ _ h₁ => ?_
      refine (h₁.arguments args).bind_maps fun atoms _ _ h₂ => ?_
      exact h₂.pushArgs atoms fun _ _ h₃ => .ok ⟨h₃.forget, rfl⟩
  | lit l =>
      rw [Renaming.expr]
      exact (h.literal l).bind_maps fun a _ _ h₁ => .ok ⟨h₁.forget, rfl⟩
  | conApp k args =>
      rw [Renaming.expr]
      refine (h.arguments args).bind_maps fun atoms _ _ h₁ => ?_
      exact (h₁.allocate (.con k atoms)).bind_maps fun a _ _ h₂ => .ok ⟨h₂.forget, rfl⟩
  | multiVal args =>
      rw [Renaming.expr]
      exact (h.arguments args).bind_maps fun atoms _ _ h₁ => .ok ⟨h₁.forget, rfl⟩
  | opApp op args resultType resultTyCon =>
      rw [Renaming.expr]
      refine (h.arguments args).bind_maps fun atoms _ _ h₁ => ?_
      exact (Registry.related_standard h₁ ⟨op, atoms, resultType, resultTyCon⟩).bind_maps
        fun results _ _ h₂ => .ok ⟨h₂.forget, rfl⟩
  | case scrutinee binder altType alts =>
      rw [Renaming.expr, C.names.alts_eq_map]
      refine (h.pushFrame (.caseOf binder altType alts) fun _ _ _ _ => rfl).bind_maps
        fun _ _ _ h₁ => ?_
      exact .ok ⟨h₁.pushTrace binder, rfl⟩
  | letIn binding body =>
      rw [Renaming.expr]
      exact (h.allocateBinding binding).bind_maps fun _ _ _ h₁ => .ok ⟨h₁, rfl⟩

/-! ## Entering -/

theorem enter (h : C.Related live s t) (a : Atom) :
    C.Outcomes C.GoesOn (Exec.enter a s) (Exec.enter (C.names.atom a) t) := by
  cases a with
  | ptr a =>
      refine (h.read a).bind_maps fun o s₁ t₁ h₁ => ?_
      cases o with
      | con k args => exact .ok ⟨h₁.forget, rfl⟩
      | blackhole covered => exact .fail h₁ rfl
      | closure c =>
          have hthunk : (C.names.closure c).isThunk = c.isThunk := rfl
          simp only [Renaming.object, hthunk]
          cases c.isThunk with
          | false => exact .ok ⟨h₁.forget, rfl⟩
          | true =>
              refine (h₁.write a (.blackhole (.closure c))).bind_maps fun _ _ _ h₂ => ?_
              refine (h₂.pushFrame (.update a) fun _ _ _ hk => nomatch hk).bind_maps fun _ _ _ h₃ => ?_
              exact .ok ⟨h₃.enterScope c.name c.env, rfl⟩
  | _ => exact .ok ⟨h.forget, rfl⟩

/-! ## Returning -/

theorem update (h : C.Related live s t) (target : Addr) (atoms : List Atom) :
    C.Outcomes C.GoesOn (Exec.update target atoms s)
      (Exec.update (C.names.addr target) (atoms.map C.names.atom) t) := by
  rcases atoms with _ | ⟨a, _ | ⟨b, rest⟩⟩
  · exact .fail h rfl
  · cases a with
    | ptr result =>
        refine (h.read result).bind_maps fun o _ _ h₁ => ?_
        exact (h₁.write target o).bind_maps fun _ _ _ h₂ => .ok ⟨h₂.forget, rfl⟩
    | _ => exact .fail h rfl
  · cases a <;> exact .fail h rfl

theorem apply (h : C.Related live s t) (a : Addr) (args : List Atom) :
    C.Outcomes C.GoesOn (Exec.apply a args s)
      (Exec.apply (C.names.addr a) (args.map C.names.atom) t) := by
  refine (h.read a).bind_maps fun o s₁ t₁ h₁ => ?_
  cases o with
  | con k fields => exact .fail h₁ rfl
  | blackhole covered => exact .fail h₁ rfl
  | closure c =>
      have hmissing : (C.names.closure c).missing = c.missing := rfl
      simp only [Renaming.object, hmissing, List.length_map]
      by_cases hthunk : c.missing = 0
      · rw [if_pos hthunk, if_pos hthunk]
        exact .fail h₁
          (by simp [Coupling.cause, Cause.deeper, Renaming.cause, Renaming.nonFunction, Object.shape])
      · rw [if_neg hthunk, if_neg hthunk]
        by_cases hfew : args.length < c.missing
        · rw [if_pos hfew, if_pos hfew]
          have hpap := h₁.allocate
            (.closure { c with args := c.args ++ args, missing := c.missing - args.length })
          rw [Renaming.object, Renaming.closure, List.map_append] at hpap
          exact hpap.bind_maps fun p _ _ h₂ => .ok ⟨h₂.forget, rfl⟩
        · rw [if_neg hfew, if_neg hfew]
          have hextra : (args.map C.names.atom).drop c.missing = (args.drop c.missing).map C.names.atom :=
            List.map_drop.symm
          rw [hextra]
          refine h₁.pushArgs (args.drop c.missing) fun s₂ t₂ h₂ => ?_
          have hscope := h₂.enterScope c.name
            (c.env.extend (c.lambda.params.zip (c.args ++ args.take c.missing)))
          rw [C.names.env_extend, ← C.names.zip_map, List.map_append, List.map_take] at hscope
          exact .ok ⟨hscope, rfl⟩

/-! ### Alternatives -/

theorem bindValue (h : C.Related true s t) (binder : Ident) (atoms : List Atom) :
    C.Outcomes (C.Maps true id) (Exec.bindValue binder atoms s)
      (Exec.bindValue (C.names.ident binder) (atoms.map C.names.atom) t) := by
  rcases atoms with _ | ⟨value, _ | ⟨other, rest⟩⟩
  · exact .ok ⟨h, rfl⟩
  · exact .ok ⟨h.bind binder value, rfl⟩
  · exact .ok ⟨h, rfl⟩

theorem scrutinee? (h : C.Related live s t) (alts : List Alt) (atoms : List Atom) :
    C.Outcomes (C.Maps live (Option.map fun found => (found.1, found.2.map C.names.atom)))
      (Exec.scrutinee? alts atoms s)
      (Exec.scrutinee? (alts.map C.names.alt) (atoms.map C.names.atom) t) := by
  rcases atoms with _ | ⟨a, _ | ⟨b, rest⟩⟩
  · exact .ok ⟨h, rfl⟩
  · cases a with
    | ptr a =>
        simp only [Exec.scrutinee?, List.map_cons, List.map_nil, Renaming.atom,
          C.names.any_isData_alts]
        split
        · exact (h.readCon a).bind_maps fun found _ _ h₁ => .ok ⟨h₁, rfl⟩
        · exact .ok ⟨h, rfl⟩
    | _ => exact .ok ⟨h, rfl⟩
  · cases a <;> exact .ok ⟨h, rfl⟩

theorem select (h : C.Related true s t) (binder : Ident) (altType : AltType) (alts : List Alt)
    (atoms : List Atom) :
    C.Outcomes C.GoesOn (Exec.select binder altType alts atoms s)
      (Exec.select (C.names.ident binder) altType (alts.map C.names.alt) (atoms.map C.names.atom) t) := by
  refine (h.bindValue binder atoms).bind_maps fun _ _ _ h₁ => ?_
  refine (h₁.scrutinee? alts atoms).bind_maps fun scrutinee _ _ h₂ => ?_
  rw [C.names.first?_alts]
  cases Alt.first? alts altType atoms scrutinee with
  | some found =>
      have hbound := h₂.bindAll (found.1.binders.zip found.2)
      rw [← C.names.zip_map] at hbound
      exact .ok ⟨hbound, rfl⟩
  | none =>
      cases scrutinee with
      | none => exact .fail h₂ rfl
      | some found => exact .fail h₂ rfl

/-! ## Transitions -/

/-- Both runs take a frame, and the frames correspond. A case goes on in the scope that was saved with
it. -/
theorem pop (h : C.Related live s t) {frame frame' : Frame} {rest rest' : Stack}
    (hpop : s.stack.pop? = some (frame, rest)) (hpop' : t.stack.pop? = some (frame', rest')) :
    C.Frames frame frame' ∧ C.Stacks rest.frames rest'.frames := by
  have hstacks := h.frames
  rw [Stack.frames_of_pop? hpop, Stack.frames_of_pop? hpop'] at hstacks
  cases hstacks with
  | push hframes hrest => exact ⟨hframes, hrest⟩

/-- The states in the scopes of corresponding frames. -/
theorem resumed (h : C.Related live s t) {frame frame' : Frame} {rest rest' : Stack}
    (hframes : C.Frames frame frame') (hrest : C.Stacks rest.frames rest'.frames) :
    C.Related false (s.resumed frame rest) (t.resumed frame' rest') where
  store := { h.store with }
  limit := h.limit
  limit' := h.limit'
  depth := h.depth
  frames := hrest
  trace := hframes.trace
  scope hlive := nomatch hlive

theorem resume (h : C.Related live s t) {frame frame' : Frame} {rest rest' : Stack}
    (hframes : C.Frames frame frame') (hrest : C.Stacks rest.frames rest'.frames) (atoms : List Atom) :
    C.Outcomes C.GoesOn (Exec.resume frame atoms { s with stack := rest })
      (Exec.resume frame' (atoms.map C.names.atom) { t with stack := rest' }) := by
  have hresumed := h.resumed hframes hrest
  obtain ⟨k, env, trace⟩ := frame
  obtain ⟨k', env', trace'⟩ := frame'
  obtain rfl : k' = C.names.cont k := hframes.cont
  unfold Exec.resume
  rw [Exec.modify_bind, Exec.modify_bind]
  cases k with
  | update target => exact hresumed.update target atoms
  | apply args =>
      rcases atoms with _ | ⟨a, _ | ⟨b, others⟩⟩
      · exact .fail hresumed rfl
      · cases a with
        | ptr a => exact hresumed.apply a args
        | _ => exact .fail hresumed rfl
      · cases a <;> exact .fail hresumed rfl
  | caseOf binder altType alts =>
      have hscope := hframes.scope binder altType alts rfl
      have hlive : C.Related true (s.resumed ⟨.caseOf binder altType alts, env, trace⟩ rest)
          (t.resumed ⟨C.names.cont (.caseOf binder altType alts), env', trace'⟩ rest') :=
        { hresumed with scope := fun _ => hscope }
      exact hlive.select binder altType alts atoms

end Related

/-- Corresponding outcomes of a transition. -/
def Advances (C : Coupling) (next : Next) (s : State) (next' : Next) (t : State) : Prop :=
  C.Related next.live s t ∧ next' = C.names.next next

/-- Going on with corresponding work is a pair of corresponding outcomes. -/
theorem Outcomes.advance {x y : Exec Code} (h : C.Outcomes C.GoesOn (x s) (y t)) :
    C.Outcomes C.Advances ((do return .code (← x) : Exec Next) s)
      ((do return .code (← y) : Exec Next) t) := by
  refine h.bind fun c s' c' t' hgoes => ?_
  obtain ⟨h', rfl⟩ := hgoes
  exact .ok ⟨h', rfl⟩

/-- Corresponding work in corresponding states goes on in the same way. The second run has its base above
the frames below. -/
theorem Related.step {code : Code} (h : C.Related code.live s t) (host : Host) (base : Nat) :
    C.Outcomes C.Advances (Spineless.step (.standard host) base code s)
      (Spineless.step (.standard host) (base + C.below.length) (C.names.code code) t) := by
  cases code with
  | eval e => exact (h.eval e).advance
  | enter a => exact (h.enter a).advance
  | ret atoms =>
      have hdepth := h.stack_depth
      by_cases hbase : s.stack.depth ≤ base
      · rw [step_ret_of_le hbase, Renaming.code, step_ret_of_le (by omega)]
        exact .ok ⟨h, rfl⟩
      · have habove : base < s.stack.depth := Nat.lt_of_not_le hbase
        have habove' : base + C.below.length < t.stack.depth := by omega
        obtain ⟨frame, rest, hpop, hstep⟩ := step_ret_of_lt (.standard host) atoms habove
        obtain ⟨frame', rest', hpop', hstep'⟩ :=
          step_ret_of_lt (.standard host) (atoms.map C.names.atom) habove'
        obtain ⟨hframes, hrest⟩ := h.pop hpop hpop'
        rw [hstep, Renaming.code, hstep']
        exact (h.resume hframes hrest atoms).advance

/-! ## Runs -/

/-- Corresponding ends of two runs that counted from `start` and `start'`: both are still going, both
ended after as many transitions, or the first one overflowed its stack and the second one has more
room. -/
inductive Endings (C : Coupling) (start start' : Nat) :
    Option (Nat × Outcome State (List Atom)) → Option (Nat × Outcome State (List Atom)) → Prop
  /-- Both are still going. -/
  | running : Endings C start start' none none
  /-- Both ended. -/
  | ended (n : Nat) {x y : Outcome State (List Atom)}
      (outcomes : C.Outcomes (C.Maps false (List.map C.names.atom)) x y) :
      Endings C start start' (some (tick^[n] start, x)) (some (tick^[n] start', y))
  /-- The first one overflowed its stack. -/
  | overflow {steps limit : Nat} {e : Fault} {s : State}
      {result : Option (Nat × Outcome State (List Atom))} (spare : 0 < C.spare)
      (cause : e.cause = .stackOverflow limit) : Endings C start start' (some (steps, .error e s)) result

/-- The first transition of both. -/
theorem Endings.tick {start start' : Nat} {x y : Option (Nat × Outcome State (List Atom))}
    (h : C.Endings (tick start) (tick start') x y) : C.Endings start start' x y := by
  cases h with
  | running => exact .running
  | ended n houtcomes =>
      rw [← Function.iterate_succ_apply, ← Function.iterate_succ_apply]
      exact .ended (n + 1) houtcomes
  | overflow hspare hcause => exact .overflow hspare hcause

/-- Runs from corresponding work in corresponding states end in the same way. They may count from different
numbers if nothing depends on the count. -/
theorem Related.follow {code : Code} (h : C.Related code.live s t) (host : Host) (budget : Option Nat)
    (base fuel : Nat) {start start' : Nat} (hcount : start' = start ∨ budget = none) :
    C.Endings start start' (Spineless.follow (.standard host) budget base fuel code start s)
      (Spineless.follow (.standard host) budget (base + C.below.length) fuel (C.names.code code) start'
        t) := by
  induction fuel generalizing code start start' s t with
  | zero => exact .running
  | succ fuel ih =>
      have hcount' : tick start' = tick start ∨ budget = none := hcount.imp_left (congrArg tick)
      have hexceeded : exceeded? budget (tick start') = exceeded? budget (tick start) := by
        rcases hcount' with hcount' | rfl
        · rw [hcount']
        · rfl
      refine .tick ?_
      rw [Spineless.follow, Spineless.follow, hexceeded]
      cases exceeded? budget (tick start) with
      | some limit => exact .ended 0 (.error h.store ⟨rfl, h.trace⟩)
      | none =>
          have hstep := h.step host base
          generalize Spineless.step (.standard host) base code s = first at hstep
          generalize Spineless.step (.standard host) (base + C.below.length) (C.names.code code) t = second
            at hstep
          cases hstep with
          | error hstore hfaults => exact .ended 0 (.error hstore hfaults)
          | overflow hspare hcause => exact .overflow hspare hcause
          | @ok next next' s' t' hnext =>
              obtain ⟨h', rfl⟩ := hnext
              cases next with
              | code c => exact ih h' hcount'
              | done atoms => exact .ended 0 (.ok ⟨h', rfl⟩)

end Coupling

/-! ## Calls -/

/-- What an outcome shows: the values or the cause of the failure, and something of the state. -/
def Outcome.shows {σ α β : Type} (view : σ → β) : Outcome σ α → Except Cause α × β
  | .ok a s => (.ok a, view s)
  | .error e s => (.error e.cause, view s)

namespace Coupling

variable {C : Coupling} {live : Bool} {m n : Machine} {α β : Type}

/-- Corresponding outcomes of calls on two machines. -/
inductive Calls (C : Coupling) (φ : α → β) (m n : Machine) :
    Option (Outcome Machine α) → Option (Outcome Machine β) → Prop
  /-- The runs are still going. -/
  | running : Calls C φ m n none none
  /-- Neither call starts a run. -/
  | refused {e f : Fault} (store : m.state.Renamed C.names n.state) (faults : C.Faults e f) :
      Calls C φ m n (some (.error e m)) (some (.error f n))
  /-- The runs come back with corresponding values. -/
  | returned (k : Nat) {a : α} {s t : State} (store : s.Renamed C.names t) :
      Calls C φ m n (some (.ok a (m.after (tick^[k] m.count) s)))
        (some (.ok (φ a) (n.after (tick^[k] n.count) t)))
  /-- The runs fail for corresponding causes. -/
  | failed (k : Nat) {e f : Fault} {s t : State} (store : s.Renamed C.names t) (faults : C.Faults e f) :
      Calls C φ m n (some (.error e (m.after (tick^[k] m.count) s)))
        (some (.error f (n.after (tick^[k] n.count) t)))
  /-- The first run overflows its stack, and the second has more room. -/
  | overflow {e : Fault} {m' : Machine} {limit : Nat} {result : Option (Outcome Machine β)}
      (spare : 0 < C.spare) (cause : e.cause = .stackOverflow limit) :
      Calls C φ m n (some (.error e m')) result

/-- Two machines on which calls are compared. -/
structure Machines (C : Coupling) (m n : Machine) : Prop where
  states : C.Related true m.state n.state
  entry : n.entry = m.entry.map C.names.ident
  registry : ∃ host, m.registry = .standard host
  registry' : n.registry = m.registry
  budget : n.config.maxSteps = m.config.maxSteps
  count : n.count = m.count ∨ m.config.maxSteps = none

namespace Machines

/-- Runs in corresponding scopes. -/
theorem runScoped (h : C.Machines m n) (fuel : Nat) (name : Ident) (env : Env) (code : Code) :
    C.Calls (List.map C.names.atom) m n (m.runScoped fuel name env code)
      (n.runScoped fuel (C.names.ident name) (C.names.env env) (C.names.code code)) := by
  have hscope : C.Related code.live (m.state.enterScope name env)
      (n.state.enterScope (C.names.ident name) (C.names.env env)) := by
    have hentered := h.states.enterScope name env
    exact { hentered with scope := fun _ => hentered.scope rfl }
  obtain ⟨host, hregistry⟩ := h.registry
  have hends := hscope.follow host m.config.maxSteps m.state.stack.depth fuel h.count
  rw [← h.states.stack_depth] at hends
  rw [m.runScoped_eq, n.runScoped_eq, h.registry', hregistry, h.budget]
  generalize follow (.standard host) m.config.maxSteps m.state.stack.depth fuel code m.count
    (m.state.enterScope name env) = ending at hends ⊢
  generalize follow (.standard host) m.config.maxSteps n.state.stack.depth fuel (C.names.code code) n.count
    (n.state.enterScope (C.names.ident name) (C.names.env env)) = ending' at hends ⊢
  cases hends with
  | running => exact .running
  | ended k houtcomes =>
      cases houtcomes with
      | ok hmaps =>
          obtain ⟨hrelated, rfl⟩ := hmaps
          exact .returned k hrelated.store
      | error hstore hfaults => exact .failed k { hstore with } hfaults
      | overflow hspare hcause => exact .overflow hspare hcause
  | overflow hspare hcause => exact .overflow hspare hcause

/-- The runs of corresponding entries. -/
theorem runEntry (h : C.Machines m n) (fuel : Nat) :
    C.Calls (List.map C.names.atom) m n (m.runEntry fuel) (n.runEntry fuel) := by
  unfold Machine.runEntry
  rw [h.entry]
  cases m.entry with
  | none => exact .refused h.states.store ⟨rfl, C.always_nil⟩
  | some entry =>
      have hlookup := h.states.store.lookup? (h.states.scope rfl).1 entry
      simp only [Option.map_some, Machine.onState, Exec.resolve, Exec.get_bind, hlookup]
      cases m.state.lookup? entry with
      | none => exact .refused h.states.store ⟨rfl, h.states.trace⟩
      | some a => exact h.runScoped fuel entry .empty (.enter a)

/-- Forcing corresponding atoms. -/
theorem force (h : C.Machines m n) (hscope : C.names.ident Machine.forceScope = Machine.forceScope)
    (fuel : Nat) (a : Atom) :
    C.Calls C.names.atom m n (m.force fuel a) (n.force fuel (C.names.atom a)) := by
  have hrun := h.runScoped fuel Machine.forceScope m.state.env (.enter a)
  rw [hscope, ← (h.states.scope rfl).1, Renaming.code] at hrun
  unfold Machine.force
  generalize m.runScoped fuel Machine.forceScope m.state.env (.enter a) = result at hrun ⊢
  generalize n.runScoped fuel Machine.forceScope n.state.env (.enter (C.names.atom a)) = result'
    at hrun ⊢
  cases hrun with
  | running => exact .running
  | refused hstore hfaults => exact .refused hstore hfaults
  | failed k hstore hfaults => exact .failed k hstore hfaults
  | overflow hspare hcause => exact .overflow hspare hcause
  | @returned k atoms s t hstore =>
      -- One value is handed on; anything else is a failure of the call, in the scope of the caller.
      have hfaults : C.Faults ⟨.primOpShape "force" (.notOneValue atoms.length), m.state.trace⟩
          ⟨.primOpShape "force" (.notOneValue (atoms.map C.names.atom).length), n.state.trace⟩ := by
        refine ⟨?_, h.states.trace⟩
        rw [List.length_map]
        rfl
      rcases atoms with _ | ⟨value, _ | ⟨other, rest⟩⟩
      · exact .failed k hstore hfaults
      · exact .returned k hstore
      · exact .failed k hstore hfaults

end Machines

/-- Corresponding replies. -/
inductive Replies (C : Coupling) : Option (Reply × Machine) → Option (Reply × Machine) → Prop
  /-- The runs are still going. -/
  | running : Replies C none none
  /-- Corresponding values. -/
  | returned {atoms : List Atom} {m' n' : Machine} (store : m'.state.Renamed C.names n'.state) :
      Replies C (some (.ok atoms, m')) (some (.ok (atoms.map C.names.atom), n'))
  /-- Corresponding faults. -/
  | failed {e f : Fault} {m' n' : Machine} (store : m'.state.Renamed C.names n'.state)
      (faults : C.Faults e f) : Replies C (some (.error e, m')) (some (.error f, n'))
  /-- The first run overflows its stack, and the second has more room. -/
  | overflow {e : Fault} {m' : Machine} {limit : Nat} {result : Option (Reply × Machine)}
      (spare : 0 < C.spare) (cause : e.cause = .stackOverflow limit) :
      Replies C (some (.error e, m')) result

/-- Corresponding outcomes give corresponding replies. -/
theorem Calls.replies {φ : α → β} {x : Option (Outcome Machine α)} {y : Option (Outcome Machine β)}
    (h : C.Calls φ m n x y) {values : α → List Atom} {values' : β → List Atom}
    (hvalues : ∀ a, values' (φ a) = (values a).map C.names.atom) :
    C.Replies (x.map (Reply.ofOutcome values)) (y.map (Reply.ofOutcome values')) := by
  cases h with
  | running => exact .running
  | refused hstore hfaults => exact .failed hstore hfaults
  | returned k hstore =>
      rw [Option.map_some, Option.map_some, Reply.ofOutcome, Reply.ofOutcome, hvalues]
      exact .returned { hstore with }
  | failed k hstore hfaults => exact .failed { hstore with } hfaults
  | overflow hspare hcause => exact .overflow hspare hcause

/-- The same call on two machines that name everything alike. -/
theorem Machines.perform (h : C.Machines m n) (hnames : C.names = .refl) {command : Command}
    (hcommand : ∀ p, command ≠ .load p) (fuel : Nat) :
    C.Replies (command.perform fuel m) (command.perform fuel n) := by
  have hident : ∀ x, C.names.ident x = x := by
    intro x
    rw [hnames]
    rfl
  cases command with
  | load p => exact absurd rfl (hcommand p)
  | runEntry => exact (h.runEntry fuel).replies fun _ => rfl
  | eval name env e =>
      have hrun := h.runScoped fuel name env (.eval e)
      have hsame : n.runScoped fuel (C.names.ident name) (C.names.env env) (C.names.code (.eval e)) =
          n.eval fuel name env e := by
        rw [hident, hnames, Renaming.env_refl, Renaming.code_refl, Machine.eval]
      rw [hsame] at hrun
      exact hrun.replies fun _ => rfl
  | force a =>
      have hforce := h.force (hident _) fuel a
      have hsame : n.force fuel (C.names.atom a) = n.force fuel a := by
        rw [hnames, Renaming.atom_refl]
      rw [hsame] at hforce
      exact hforce.replies fun _ => rfl

end Coupling

end Spineless
