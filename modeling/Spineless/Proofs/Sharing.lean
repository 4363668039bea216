import Spineless.Proofs.Blackhole
import Spineless.Proofs.Provenance

/-!
# Sharing

A thunk is evaluated at most once if its update stores a value. The machine does not check this: an
update stores the object behind whatever reference comes back. A reference comes back unevaluated from a
direct return, an expression that returns one atom as it is or fetches one from where it was put. So the
programs considered here have no direct return in tail position of a lambda. `Snapshot.Shares` is what
that means for a run: whenever an update comes next, the expression in front has no direct return in tail
position, and what returns is evaluated.

For such programs `Program.call_by_need` says that updates store values, that a thunk is started at most
once, that a run that succeeds leaves no blackhole, and that the second run of the entry only looks its
value up.
-/

namespace Spineless

open Snapshot

variable {host : Host}

/-! ## Direct returns -/

/-- Whether an expression returns an atom without evaluating it: one atom as it is, or one that a
primitive operation fetches. -/
def Expr.isDirectReturn : Expr → Bool
  | .multiVal args => args.length == 1
  | .opApp op _ _ _ => Call.fetches.contains op
  | .app .. | .lit _ | .conApp .. | .case .. | .letIn .. => false

mutual

/-- The expressions in tail position: the expression itself, and those of the alternatives of a case and
of the body of a let. -/
def Expr.tails : Expr → List Expr
  | .case scrutinee binder altType alts => .case scrutinee binder altType alts :: Alt.tails alts
  | .letIn binding body => .letIn binding body :: body.tails
  | .app callee args => [.app callee args]
  | .lit l => [.lit l]
  | .conApp k args => [.conApp k args]
  | .multiVal args => [.multiVal args]
  | .opApp op args resultType resultTyCon => [.opApp op args resultType resultTyCon]

/-- The expressions in tail position of some alternatives. -/
def Alt.tails : List Alt → List Expr
  | [] => []
  | ⟨_, _, rhs⟩ :: rest => rhs.tails ++ Alt.tails rest

end

mutual

/-- All lambdas in an expression. -/
def Expr.lambdas : Expr → List Lambda
  | .case scrutinee _ _ alts => scrutinee.lambdas ++ Alt.lambdas alts
  | .letIn binding body => binding.lambdas ++ body.lambdas
  | .app .. | .lit _ | .conApp .. | .multiVal _ | .opApp .. => []

/-- All lambdas in some alternatives. -/
def Alt.lambdas : List Alt → List Lambda
  | [] => []
  | ⟨_, _, rhs⟩ :: rest => rhs.lambdas ++ Alt.lambdas rest

/-- All lambdas in a right-hand side, the one that it is included. -/
def Rhs.lambdas : Rhs → List Lambda
  | .closure _ ⟨params, body⟩ => ⟨params, body⟩ :: body.lambdas
  | .con .. => []

/-- All lambdas in some right-hand sides. -/
def Rhs.lambdasAll : List (Ident × Rhs) → List Lambda
  | [] => []
  | (_, rhs) :: rest => rhs.lambdas ++ Rhs.lambdasAll rest

/-- All lambdas in a binding. -/
def Binding.lambdas : Binding → List Lambda
  | .nonRec _ rhs => rhs.lambdas
  | .group pairs => Rhs.lambdasAll pairs

end

/-- An expression without a direct return in tail position. -/
def Expr.Settled (e : Expr) : Prop := ∀ t ∈ e.tails, t.isDirectReturn = false

/-- Lambdas of which none has a direct return in tail position. -/
def AllSettled (lambdas : List Lambda) : Prop := ∀ l ∈ lambdas, l.body.Settled

/-- A program in which no lambda has a direct return in tail position. -/
def Program.Settled (p : Program) : Prop := AllSettled (Rhs.lambdasAll p.pairs)

instance (e : Expr) : Decidable e.Settled :=
  inferInstanceAs (Decidable (∀ t ∈ e.tails, t.isDirectReturn = false))

instance (p : Program) : Decidable p.Settled :=
  inferInstanceAs (Decidable (∀ l ∈ Rhs.lambdasAll p.pairs, l.body.Settled))

theorem Alt.tails_eq (alts : List Alt) : Alt.tails alts = alts.flatMap fun alt => alt.rhs.tails := by
  induction alts with
  | nil => rw [Alt.tails, List.flatMap_nil]
  | cons alt rest ih =>
      obtain ⟨con, binders, rhs⟩ := alt
      rw [Alt.tails, ih, List.flatMap_cons]

theorem Alt.lambdas_eq (alts : List Alt) : Alt.lambdas alts = alts.flatMap fun alt => alt.rhs.lambdas := by
  induction alts with
  | nil => rw [Alt.lambdas, List.flatMap_nil]
  | cons alt rest ih =>
      obtain ⟨con, binders, rhs⟩ := alt
      rw [Alt.lambdas, ih, List.flatMap_cons]

theorem Rhs.lambdasAll_eq (pairs : List (Ident × Rhs)) :
    Rhs.lambdasAll pairs = pairs.flatMap fun pair => pair.2.lambdas := by
  induction pairs with
  | nil => rw [Rhs.lambdasAll, List.flatMap_nil]
  | cons pair rest ih => rw [Rhs.lambdasAll, ih, List.flatMap_cons]

theorem Binding.lambdas_eq (binding : Binding) :
    binding.lambdas = binding.pairs.flatMap fun pair => pair.2.lambdas := by
  cases binding with
  | nonRec x rhs => rw [Binding.lambdas, Binding.pairs, List.flatMap_singleton]
  | group pairs => rw [Binding.lambdas, Rhs.lambdasAll_eq, Binding.pairs]

theorem Expr.Settled.alternative {scrutinee : Expr} {binder : Ident} {altType : AltType} {alts : List Alt}
    (h : (Expr.case scrutinee binder altType alts).Settled) {alt : Alt} (halt : alt ∈ alts) :
    alt.rhs.Settled := by
  intro t ht
  apply h t
  rw [Expr.tails, Alt.tails_eq]
  exact List.mem_cons_of_mem _ (List.mem_flatMap.2 ⟨alt, halt, ht⟩)

theorem Expr.Settled.letBody {binding : Binding} {body : Expr} (h : (Expr.letIn binding body).Settled) :
    body.Settled := by
  intro t ht
  apply h t
  rw [Expr.tails]
  exact List.mem_cons_of_mem _ ht

/-! ## The code of a run -/

/-- An object whose code has no direct return in tail position. What a blackhole covers never runs again. -/
def Object.Settled : Object → Prop
  | .closure c => c.lambda.body.Settled ∧ AllSettled c.lambda.body.lambdas
  | .con .. | .blackhole _ => True

/-- Nothing that may run in a snapshot holds a lambda with a direct return in tail position. The
expression in front and waiting alternatives may be direct returns themselves. -/
structure Snapshot.Settled (d : Snapshot) : Prop where
  heap : ∀ a o, d.state.object? a = some o → o.Settled
  frames : ∀ f ∈ d.state.stack.frames, ∀ binder altType alts, f.cont = .caseOf binder altType alts →
    AllSettled (Alt.lambdas alts)
  code : ∀ e, d.code = .eval e → AllSettled e.lambdas

/-- What a right-hand side becomes is settled if its lambdas are. -/
theorem Rhs.Builds.settled {lookup : Ident → Option Atom} {rhs : Rhs} {name : Ident} {o : Object}
    (hbuilds : rhs.Builds lookup name o) (h : AllSettled rhs.lambdas) : o.Settled := by
  cases rhs with
  | con k args =>
      obtain ⟨atoms, -, rfl⟩ := hbuilds
      trivial
  | closure freeVars lambda =>
      obtain ⟨env, -, rfl⟩ := hbuilds
      obtain ⟨params, body⟩ := lambda
      rw [Rhs.lambdas] at h
      exact ⟨h _ List.mem_cons_self, fun l hl => h l (List.mem_cons_of_mem _ hl)⟩

namespace Snapshot.Settled

variable {base : Nat} {code code' : Code} {s s' : State}

theorem object_settled (h : Settled ⟨code, s⟩) {o : Object} (hsource : o.Source code s) : o.Settled := by
  cases hsource with
  | kept hfound => exact h.heap _ _ hfound
  | con hshape | blackhole hshape =>
      rw [hshape]
      trivial
  | partialApp hfound _ hshape =>
      -- A partial application has the code of its function.
      have hfunction := h.heap _ _ hfound
      rw [hshape]
      exact hfunction
  | @built binding body x rhs lookup hcode hpair hbuilds =>
      have hlambdas := h.code _ hcode
      rw [Expr.lambdas, Binding.lambdas_eq] at hlambdas
      refine hbuilds.settled fun l hl => hlambdas l (List.mem_append_left _ ?_)
      exact List.mem_flatMap.2 ⟨(x, rhs), hpair, hl⟩

theorem frame_settled (h : Settled ⟨code, s⟩) {f : Frame} (hsource : f.Source code s) {binder : Ident}
    {altType : AltType} {alts : List Alt} (hcont : f.cont = .caseOf binder altType alts) :
    AllSettled (Alt.lambdas alts) := by
  cases hsource with
  | kept hmem => exact h.frames f hmem binder altType alts hcont
  | noCode hwaits => exact absurd hcont (hwaits binder altType alts)
  | caseOf hcode hcont' =>
      have hlambdas := h.code _ hcode
      cases hcont'.symm.trans hcont
      rw [Expr.lambdas] at hlambdas
      exact fun l hl => hlambdas l (List.mem_append_right _ hl)

theorem expr_settled (h : Settled ⟨code, s⟩) {e : Expr} (hsource : e.Source code s) :
    AllSettled e.lambdas := by
  cases hsource with
  | scrutinee hcode =>
      have hlambdas := h.code _ hcode
      rw [Expr.lambdas] at hlambdas
      exact fun l hl => hlambdas l (List.mem_append_left _ hl)
  | letBody hcode =>
      have hlambdas := h.code _ hcode
      rw [Expr.lambdas] at hlambdas
      exact fun l hl => hlambdas l (List.mem_append_right _ hl)
  | closure hfound hbody =>
      rw [hbody]
      exact (h.heap _ _ hfound).2
  | @alternative f rest binder altType alts alt hpop hcont hmem hrhs =>
      obtain ⟨hframe, -⟩ := Stack.forall_frames_of_pop? h.frames hpop
      have hlambdas := hframe binder altType alts hcont
      rw [Alt.lambdas_eq] at hlambdas
      rw [hrhs]
      exact fun l hl => hlambdas l (List.mem_flatMap.2 ⟨alt, hmem, hl⟩)

theorem transition (h : Settled ⟨code, s⟩) (htrans : Transition (.standard host) base code s code' s') :
    Settled ⟨code', s'⟩ where
  heap _ _ ho := h.object_settled (htrans.object_source ho)
  frames _ hf _ _ _ hcont := h.frame_settled (htrans.frame_source hf) hcont
  code _ he := h.expr_settled (htrans.expr_source he)

end Snapshot.Settled

/-! ## What an update stores -/

/-- An update comes next. -/
def UpdateNext : List Frame → Prop
  | f :: _ => ∃ a, f.cont = .update a
  | [] => False

/-- Alternatives that wait directly above an update have no direct return in tail position. -/
def TailsSettled : List Frame → Prop
  | f :: below =>
    (∀ binder altType alts, f.cont = .caseOf binder altType alts → UpdateNext below →
      ∀ alt ∈ alts, alt.rhs.Settled) ∧ TailsSettled below
  | [] => True

/-- Whenever an update comes next, the expression in front has no direct return in tail position, and
what returns is evaluated. -/
structure Snapshot.Shares (d : Snapshot) : Prop where
  frames : TailsSettled d.state.stack.frames
  code : UpdateNext d.state.stack.frames → ∀ e, d.code = .eval e → e.Settled
  value : UpdateNext d.state.stack.frames → ∀ a, d.code = .ret [a] → d.state.Evaluated a

section Evaluated

variable {s : State} {a : Atom}

theorem State.Evaluated.of_ne_ptr (h : ∀ p, a ≠ .ptr p) : s.Evaluated a := fun p hp => absurd hp (h p)

theorem State.Evaluated.of_object? {p : Addr} {o : Object} (ho : s.object? p = some o)
    (hvalue : o.isValue = true) : s.Evaluated (.ptr p) := by
  rintro _ ⟨⟩
  exact ⟨o, ho, hvalue⟩

end Evaluated

/-- A frame on top of the others that is no case needs nothing of them. -/
theorem TailsSettled.push {f : Frame} {below : List Frame} (h : TailsSettled below)
    (hf : ∀ binder altType alts, f.cont ≠ .caseOf binder altType alts) : TailsSettled (f :: below) :=
  ⟨fun binder altType alts hcont => absurd hcont (hf binder altType alts), h⟩

theorem TailsSettled.pushArgs {s : State} {args : List Atom} (h : TailsSettled s.stack.frames) :
    TailsSettled (s.pushArgs args).stack.frames := by
  rw [State.frames_pushArgs]
  split
  · exact h
  · exact h.push fun _ _ _ hcont => (nomatch hcont)

theorem TailsSettled.of_pop? {st rest : Stack} {frame : Frame} (h : TailsSettled st.frames)
    (hpop : st.pop? = some (frame, rest)) : TailsSettled (frame :: rest.frames) := by
  rw [← Stack.frames_of_pop? hpop]
  exact h

namespace Snapshot.Shares

variable {base : Nat} {code code' : Code} {s s' : State}

/-- A snapshot that enters an atom has nothing to show but its frames. -/
theorem of_enter {a : Atom} (h : TailsSettled s.stack.frames) : Shares ⟨.enter a, s⟩ :=
  ⟨h, fun _ _ he => (nomatch he), fun _ _ he => (nomatch he)⟩

theorem of_eval {e : Expr} (h : TailsSettled s.stack.frames) (he : UpdateNext s.stack.frames → e.Settled) :
    Shares ⟨.eval e, s⟩ := by
  refine ⟨h, fun hnext e' heq => ?_, fun _ _ heq => (nomatch heq)⟩
  cases heq
  exact he hnext

theorem of_ret {atoms : List Atom} (h : TailsSettled s.stack.frames)
    (hatoms : UpdateNext s.stack.frames → ∀ a, atoms = [a] → s.Evaluated a) : Shares ⟨.ret atoms, s⟩ := by
  refine ⟨h, fun _ _ heq => (nomatch heq), fun hnext a heq => ?_⟩
  cases heq
  exact hatoms hnext a rfl

/-- A transition keeps what an update relies on. -/
theorem transition (h : Shares ⟨code, s⟩) (hsettled : Settled ⟨code, s⟩)
    (htrans : Transition (.standard host) base code s code' s') : Shares ⟨code', s'⟩ := by
  have hframes : TailsSettled s.stack.frames := h.frames
  cases htrans with
  | @app _ _ _ _ _ strings => exact .of_enter (TailsSettled.pushArgs (s := s.withStrings strings) hframes)
  | lit hliteral =>
      refine .of_ret hframes fun _ a ha => ?_
      cases ha
      refine State.Evaluated.of_ne_ptr fun p hp => ?_
      subst hp
      rcases hliteral with hatom | ⟨_, hstr⟩
      · have hscalar := Lit.ref?_of_atom? hatom
        cases hscalar
      · cases hstr
  | @conApp _ k _ atoms strings =>
      refine .of_ret hframes fun _ a ha => ?_
      cases ha
      exact .of_object? (State.object?_grow_size (s := s.withStrings strings) _) rfl
  | @multiVal _ args atoms _ hdenotes =>
      refine .of_ret hframes fun hnext a ha => ?_
      -- One atom is returned for one argument, which is a direct return.
      have hdirect := h.code hnext _ rfl (.multiVal args) (by rw [Expr.tails]; exact List.mem_cons_self)
      have hlength := hdenotes.length_eq
      rw [ha, List.length_singleton] at hlength
      simp [Expr.isDirectReturn, hlength] at hdirect
  | @opApp _ t op args resultType resultTyCon atoms results strings _ heval =>
      have hans := Registry.standard_evaluate_eq_ok heval
      obtain ⟨-, hstack, -⟩ := hans.frame
      refine .of_ret (by rw [hstack]; exact hframes) fun hnext a ha => ?_
      rw [hstack] at hnext
      rintro p rfl
      subst ha
      rcases hans.fetches_or_fresh with hfetches | ⟨con, hcon⟩
      · have hdirect := h.code hnext _ rfl (.opApp op args resultType resultTyCon)
          (by rw [Expr.tails]; exact List.mem_cons_self)
        have hcontains : Call.fetches.contains op = true := List.contains_iff_mem.2 hfetches
        rw [Expr.isDirectReturn, hcontains] at hdirect
        cases hdirect
      · exact ⟨_, hcon, rfl⟩
  | @case _ scrutinee binder altType alts =>
      -- The alternatives now wait above the update; the scrutinee may be anything.
      refine .of_eval ⟨?_, hframes⟩ fun hnext => ?_
      · rintro _ _ _ ⟨⟩ hnext alt halt
        exact (h.code hnext _ rfl).alternative halt
      · obtain ⟨a, ha⟩ := hnext
        cases ha
  | letOne => exact .of_eval hframes fun hnext => (h.code hnext _ rfl).letBody
  | letGroup => exact .of_eval hframes fun hnext => (h.code hnext _ rfl).letBody
  | enterScalar hscalar =>
      refine .of_ret hframes fun _ a ha => ?_
      cases ha
      exact .of_ne_ptr fun p hp => by rw [hp] at hscalar; cases hscalar
  | enterValue hfound hvalue =>
      refine .of_ret hframes fun _ a ha => ?_
      cases ha
      exact .of_object? hfound hvalue
  | enterThunk hfound =>
      exact .of_eval (hframes.push fun _ _ _ hcont => (nomatch hcont)) fun _ =>
        (hsettled.heap _ _ hfound).1
  | @update _ frame rest target result o hpop _ hcont hfound hknown =>
      have hnext : UpdateNext s.stack.frames := by
        rw [Stack.frames_of_pop? hpop]
        exact ⟨target, hcont⟩
      obtain ⟨o', ho', hvalue⟩ := h.value hnext _ rfl result rfl
      cases hfound.symm.trans ho'
      obtain ⟨-, hheap⟩ := State.overwrite_resumed hpop hcont hknown o
      refine .of_ret (hframes.of_pop? hpop).2 fun _ a ha => ?_
      cases ha
      -- The result goes on to the next frame, and still refers to the same value.
      refine .of_object? (o := o) ?_ hvalue
      rw [hheap]
      split
      · rfl
      · exact hfound
  | @applyPartial _ frame rest args p c hpop _ _ _ hfew =>
      refine .of_ret (hframes.of_pop? hpop).2 fun _ a ha => ?_
      cases ha
      refine .of_object? (State.object?_grow_size (s := s.resumed frame rest) _) ?_
      have hmissing : c.missing - args.length ≠ 0 := by omega
      simp [Object.isValue, Closure.isThunk, Closure.supply, hmissing]
  | @applyFull _ frame rest args p c hpop _ _ hfound =>
      exact .of_eval (TailsSettled.pushArgs (s := s.resumed frame rest) (hframes.of_pop? hpop).2) fun _ =>
        (hsettled.heap _ _ hfound).1
  | @select _ frame rest binder altType alts atoms fields _ alt hpop _ hcont _ hfirst =>
      obtain ⟨env, henv⟩ := State.bindValue_eq (s.resumed frame rest) binder atoms
      rw [henv]
      obtain ⟨hframe, hrest⟩ := hframes.of_pop? hpop
      have halt := (Alt.first?_cases hfirst).1
      exact .of_eval hrest fun hnext => hframe binder altType alts hcont hnext alt halt

end Snapshot.Shares

section Runs

variable {base : Nat} {c d : Snapshot} {a : Addr}

/-- A run keeps what its updates rely on. -/
theorem Snapshot.Reaches.shares (h : Reaches (.standard host) base c d) (hsettled : c.Settled)
    (hshares : c.Shares) : d.Settled ∧ d.Shares :=
  h.preserves (P := fun d => d.Settled ∧ d.Shares)
    (fun _ _ hstep hd => ⟨hd.1.transition hstep.transition, hd.2.transition hd.1 hstep.transition⟩)
    ⟨hsettled, hshares⟩

/-- An update stores a value. -/
theorem Snapshot.Shares.isValue_of_updates (h : d.Shares) {o : Object} (hupdates : d.Updates a o) :
    o.isValue = true := by
  obtain ⟨frame, rest, result, hpop, hcont, hcode, hfound⟩ := hupdates
  have hnext : UpdateNext d.state.stack.frames := by
    rw [Stack.frames_of_pop? hpop]
    exact ⟨a, hcont⟩
  obtain ⟨o', ho', hvalue⟩ := h.value hnext _ hcode result rfl
  cases hfound.symm.trans ho'
  exact hvalue

end Runs

/-! ## Thunks are started once -/

/-- The next transition of a snapshot covers a thunk and starts its code. -/
def Snapshot.Starts (d : Snapshot) (a : Addr) : Prop :=
  d.code = .enter (.ptr a) ∧ ∃ c, d.state.object? a = some (.closure c) ∧ c.missing = 0

/-- An address that holds something other than a thunk: once started, always started. -/
def State.Started (s : State) (a : Addr) : Prop :=
  ∃ o, s.object? a = some o ∧ ∀ c, o = .closure c → c.missing ≠ 0

section Started

variable {base : Nat} {code code' : Code} {s s' : State} {c d : Snapshot} {a : Addr}

theorem State.Started.of_isValue {o : Object} (ho : s.object? a = some o) (hvalue : o.isValue = true) :
    s.Started a := by
  refine ⟨o, ho, ?_⟩
  rintro c rfl hzero
  simp [Object.isValue, Closure.isThunk, hzero] at hvalue

theorem Effect.started (h : Effect code s code' s') (hshares : Shares ⟨code, s⟩) (ha : s.Started a) :
    s'.Started a := by
  obtain ⟨o, ho, hstarted⟩ := ha
  cases h with
  | keeps _ hold => exact ⟨o, hold a o ho, hstarted⟩
  | @covers p c _ hfound hthunk _ hheap =>
      -- A thunk is covered, and a started address holds none.
      have hne : a ≠ p := by
        rintro rfl
        cases ho.symm.trans hfound
        exact hstarted c rfl hthunk
      exact ⟨o, by rw [hheap, if_neg hne]; exact ho, hstarted⟩
  | @updates target result new frame rest hpop hcont hcode _ _ hfound hheap =>
      by_cases hat : a = target
      · have hupdates : Updates ⟨code, s⟩ target new := ⟨frame, rest, result, hpop, hcont, hcode, hfound⟩
        exact .of_isValue (by rw [hheap, if_pos hat]) (hshares.isValue_of_updates hupdates)
      · exact ⟨o, by rw [hheap, if_neg hat]; exact ho, hstarted⟩

/-- A thunk that is started is started afterwards. -/
theorem Snapshot.Starts.started (h : c.Starts a) (hstep : Steps (.standard host) base c d) :
    d.state.Started a := by
  obtain ⟨hcode, closure, hfound, hthunk⟩ := h
  have htrans := hstep.transition
  obtain ⟨code', s'⟩ := d
  rw [hcode] at htrans
  cases htrans with
  | enterScalar hscalar => cases hscalar
  | enterValue hfound' hvalue => exact .of_isValue hfound' hvalue
  | @enterThunk _ _ closure' hfound' =>
      refine ⟨.blackhole (.closure closure'), ?_, fun _ h => (nomatch h)⟩
      exact State.object?_overwrite_self (State.lt_of_object? hfound')

/-- A started thunk is not started again. -/
theorem State.Started.not_starts (h : d.state.Started a) : ¬ d.Starts a := by
  rintro ⟨-, c, hfound, hthunk⟩
  obtain ⟨o, ho, hstarted⟩ := h
  cases ho.symm.trans hfound
  exact hstarted c rfl hthunk

theorem Snapshot.Reaches.started (h : Reaches (.standard host) base c d) (hsettled : c.Settled)
    (hshares : c.Shares) (ha : c.state.Started a) : d.state.Started a := by
  induction h with
  | refl => exact ha
  | tail hbefore hlast ih =>
      obtain ⟨-, hshares'⟩ := Snapshot.Reaches.shares hbefore hsettled hshares
      exact hlast.transition.effect.started hshares' ih

end Started

/-! ## The entry -/

/-- Atoms with the same value: one atom that is no heap reference, or references to equal objects. -/
def State.Agree (s : State) (x y : Atom) : Prop :=
  (x = y ∧ x.addr? = none) ∨
    ∃ p q o, x = .ptr p ∧ y = .ptr q ∧ s.object? p = some o ∧ s.object? q = some o

/-- How far the run of an entry is. -/
inductive Snapshot.Phase (entry : Atom) : Snapshot → Prop
  /-- The entry is about to be entered. -/
  | entering {s : State} (frames : s.stack.frames = []) : Phase entry ⟨.enter entry, s⟩
  /-- The entry is a thunk, and its update waits at the bottom of the stack. -/
  | running {d : Snapshot} {a : Addr} {f : Frame} (thunk : entry = .ptr a)
      (bottom : [f] <:+ d.state.stack.frames) (cont : f.cont = .update a) : Phase entry d
  /-- The value of the entry is returned, and the entry has that value. -/
  | returned {s : State} {x : Atom} (frames : s.stack.frames = []) (evaluated : s.Evaluated entry)
      (agree : s.Agree x entry) : Phase entry ⟨.ret [x], s⟩

section Entry

variable {base : Nat} {code code' : Code} {s s' : State} {entry : Atom}

theorem State.Agree.refl (h : s.Evaluated entry) : s.Agree entry entry := by
  cases haddr : entry.addr? with
  | none => exact .inl ⟨rfl, haddr⟩
  | some p =>
      have hentry : entry = .ptr p := by
        cases entry <;> cases haddr
        rfl
      obtain ⟨o, ho, -⟩ := h p hentry
      exact .inr ⟨p, p, o, hentry, hentry, ho, ho⟩

/-- The bottom frame stays, unless it is the one that comes off. -/
theorem Stack.bottom_of_pop? {st rest : Stack} {f frame : Frame} (hbottom : [f] <:+ st.frames)
    (hpop : st.pop? = some (frame, rest)) : (frame = f ∧ rest.frames = []) ∨ [f] <:+ rest.frames := by
  rw [Stack.frames_of_pop? hpop, List.suffix_cons_iff] at hbottom
  rcases hbottom with heq | hrest
  · obtain ⟨rfl, hempty⟩ := List.cons.inj heq
    exact .inl ⟨rfl, hempty.symm⟩
  · exact .inr hrest

theorem State.bottom_pushArgs {f : Frame} {args : List Atom} (h : [f] <:+ s.stack.frames) :
    [f] <:+ (s.pushArgs args).stack.frames := by
  rw [State.frames_pushArgs]
  split
  · exact h
  · exact h.trans (List.suffix_cons _ _)

/-- While the update of the entry waits at the bottom, a transition leaves it there or performs it. -/
theorem Snapshot.Phase.of_running {a : Addr} {f : Frame} (hbottom : [f] <:+ s.stack.frames)
    (hcont : f.cont = .update a) (hshares : Shares ⟨code, s⟩)
    (htrans : Transition (.standard host) base code s code' s') : Phase (.ptr a) ⟨code', s'⟩ := by
  cases htrans with
  | @app _ _ _ _ _ strings =>
      exact .running rfl (State.bottom_pushArgs (s := s.withStrings strings) hbottom) hcont
  | lit | conApp | multiVal | letOne | letGroup | enterScalar | enterValue =>
      exact .running rfl hbottom hcont
  | opApp _ heval =>
      obtain ⟨-, hstack, -⟩ := (Registry.standard_evaluate_eq_ok heval).frame
      exact .running rfl (by rw [hstack]; exact hbottom) hcont
  | case | enterThunk => exact .running rfl (hbottom.trans (List.suffix_cons _ _)) hcont
  | @update _ frame rest target result o hpop _ hcont' hfound hknown =>
      rcases Stack.bottom_of_pop? hbottom hpop with ⟨rfl, hempty⟩ | hrest
      · -- The bottom frame comes off: the result is stored at the entry, and nothing is left to do.
        cases hcont.symm.trans hcont'
        have hupdates : Updates ⟨.ret [.ptr result], s⟩ a o :=
          ⟨frame, rest, result, hpop, hcont, rfl, hfound⟩
        obtain ⟨-, hheap⟩ := State.overwrite_resumed hpop hcont hknown o
        have hentry : ((s.resumed frame rest).overwrite a o).object? a = some o := by
          rw [hheap, if_pos rfl]
        have hresult : ((s.resumed frame rest).overwrite a o).object? result = some o := by
          rw [hheap]
          split
          · rfl
          · exact hfound
        exact .returned hempty (.of_object? hentry (hshares.isValue_of_updates hupdates))
          (.inr ⟨result, a, o, rfl, rfl, hresult, hentry⟩)
      · exact .running rfl hrest hcont
  | applyPartial hpop _ hcont' =>
      rcases Stack.bottom_of_pop? hbottom hpop with ⟨rfl, -⟩ | hrest
      · cases hcont.symm.trans hcont'
      · exact .running rfl hrest hcont
  | @applyFull _ frame rest _ _ _ hpop _ hcont' =>
      rcases Stack.bottom_of_pop? hbottom hpop with ⟨rfl, -⟩ | hrest
      · cases hcont.symm.trans hcont'
      · exact .running rfl (State.bottom_pushArgs (s := s.resumed frame rest) hrest) hcont
  | @select _ frame rest binder _ _ atoms _ _ _ hpop _ hcont' =>
      rcases Stack.bottom_of_pop? hbottom hpop with ⟨rfl, -⟩ | hrest
      · cases hcont.symm.trans hcont'
      · obtain ⟨env, henv⟩ := State.bindValue_eq (s.resumed frame rest) binder atoms
        rw [henv]
        exact .running rfl hrest hcont

theorem Snapshot.Phase.transition (h : Phase entry ⟨code, s⟩) (hshares : Shares ⟨code, s⟩)
    (htrans : Transition (.standard host) base code s code' s') : Phase entry ⟨code', s'⟩ := by
  cases h with
  | entering hframes =>
      cases htrans with
      | enterScalar hscalar =>
          have hevaluated : s.Evaluated entry := .of_ne_ptr fun p hp => by rw [hp] at hscalar; cases hscalar
          exact .returned hframes hevaluated (.refl hevaluated)
      | enterValue hfound hvalue =>
          exact .returned hframes (.of_object? hfound hvalue) (.refl (.of_object? hfound hvalue))
      | @enterThunk _ p c =>
          have hbottom : [⟨.update p, s.env, s.trace⟩] <:+ ⟨.update p, s.env, s.trace⟩ :: s.stack.frames :=
            ⟨[], congrArg (List.cons _) hframes.symm⟩
          exact .running rfl hbottom rfl
  | running hthunk hbottom hcont =>
      rw [hthunk]
      exact .of_running hbottom hcont hshares htrans
  | returned hframes =>
      -- Nothing is on the stack that could go on with the value.
      cases htrans with
      | update hpop | applyPartial hpop | applyFull hpop | select hpop =>
          have hnonempty := Stack.frames_of_pop? hpop
          rw [hframes] at hnonempty
          cases hnonempty

theorem Snapshot.Reaches.phase {c d : Snapshot} (h : Reaches (.standard host) base c d) (hsettled : c.Settled)
    (hshares : c.Shares) (hphase : c.Phase entry) : d.Phase entry := by
  induction h with
  | refl => exact hphase
  | tail hbefore hlast ih =>
      obtain ⟨-, hshares'⟩ := Snapshot.Reaches.shares hbefore hsettled hshares
      exact ih.transition hshares' hlast.transition

/-- A run of an entry that comes back gives the value that the entry has by then. -/
theorem Snapshot.Phase.of_ret {d : Snapshot} {atoms : List Atom} (h : d.Phase entry)
    (hcode : d.code = .ret atoms) (hframes : d.state.stack.frames = []) :
    ∃ x, atoms = [x] ∧ d.state.Evaluated entry ∧ d.state.Agree x entry := by
  cases h with
  | entering => cases hcode
  | running _ hbottom =>
      rw [hframes] at hbottom
      exact absurd (List.suffix_nil.1 hbottom) (List.cons_ne_nil _ _)
  | returned _ hevaluated hagree =>
      cases hcode
      exact ⟨_, rfl, hevaluated, hagree⟩

end Entry

/-! ## Programs -/

section Program

variable {p : Program} {config : Config} {m m' : Machine} {d : Snapshot} {atoms : List Atom} {fuel : Nat}

/-- A program is loaded into an idle machine, whose heap holds what the right-hand sides become. -/
theorem Machine.load_eq_ok (hload : Machine.load p (.new config host) = .ok () m) :
    Idle config m ∧ ∀ a o, m.state.object? a = some o →
      ∃ pair ∈ p.pairs, ∃ lookup, pair.2.Builds lookup pair.1 o := by
  have hperforms : (Command.load p).perform 0 (.new config host) = some (.ok [], m) := by
    rw [Command.perform, hload]
    rfl
  have hsession : Session config [⟨.load p, .ok []⟩] m := .call 0 (.fresh host) hperforms
  refine ⟨hsession.idle, ?_⟩
  cases Command.perform_load hperforms with
  | returned hstart => cases hstart
  | loaded hallocates =>
      obtain ⟨strings, objects, hbuilds, rfl⟩ := Exec.allocateGlobals_eq_ok hallocates
      refine State.forall_object?_grow (fun a o ho => ?_) objects fun o ho => ?_
      · cases ho
      · obtain ⟨pair, hpair, hbuilt⟩ := exists_mem_of_forall₂ hbuilds o ho
        exact ⟨pair, hpair, _, hbuilt⟩

/-- Every run of the entry of a loaded program without direct returns relies on its updates rightly. -/
theorem Program.Settled.visits (hp : p.Settled) (hload : Machine.load p (.new config host) = .ok () m)
    (hvisits : m.Visits d) : d.Settled ∧ d.Shares := by
  obtain ⟨hidle, hheap⟩ := Machine.load_eq_ok hload
  obtain ⟨start, hstart, hreach⟩ := hvisits
  have hempty := Command.frames_of_start? hidle hstart
  obtain ⟨host, hregistry⟩ := hidle.registry
  rw [hregistry] at hreach
  obtain ⟨entry, a, -, -, rfl⟩ := Command.start?_runEntry hstart
  refine hreach.shares ⟨fun b o ho => ?_, fun f hf => ?_, fun _ he => (nomatch he)⟩ (.of_enter ?_)
  · obtain ⟨pair, hpair, lookup, hbuilds⟩ := hheap b o ho
    refine hbuilds.settled fun l hl => hp l ?_
    rw [Rhs.lambdasAll_eq]
    exact List.mem_flatMap.2 ⟨pair, hpair, hl⟩
  · rw [hempty] at hf
    cases hf
  · rw [hempty]
    trivial

/-- A run of the entry that succeeds leaves no blackhole. -/
theorem Program.Settled.not_blackholed (hp : p.Settled) (hload : Machine.load p (.new config host) = .ok () m)
    (hvisits : m.Visits d) (hframes : d.state.stack.frames = []) (a : Addr) : ¬ d.state.Blackholed a := by
  intro hcovered
  obtain ⟨hidle, hheap⟩ := Machine.load_eq_ok hload
  obtain ⟨start, hstart, hreach⟩ := hvisits
  obtain ⟨host', hregistry⟩ := hidle.registry
  have hvisits : ∀ b, Reaches (.standard host') m.state.stack.depth start b → m.Visits b := by
    intro b hb
    rw [← hregistry] at hb
    exact ⟨start, hstart, hb⟩
  rw [hregistry] at hreach
  -- No update is pending, nothing was covered when the run began, and updates store values.
  rcases hreach.origin hcovered with hpending | ⟨covered, hbefore⟩ | ⟨c, hc, ⟨covered, hupdates⟩, -⟩
  · rw [State.pending, hframes] at hpending
    cases hpending
  · rw [Command.object?_of_start? hstart] at hbefore
    obtain ⟨pair, -, lookup, hbuilds⟩ := hheap a _ hbefore
    exact hbuilds.ne_blackhole covered rfl
  · cases (hp.visits hload (hvisits c hc)).2.isValue_of_updates hupdates

/-- A run of the entry that comes back with its value in the heap can be repeated in two transitions. -/
theorem Machine.runEntry_again {entry : Ident} {a : Atom} {steps : Nat} {s : State} (hidle : Idle config m)
    (hentry : m.entry = some entry) (hlookup : m.state.lookup? entry = some a)
    (hfollow : follow m.registry m.config.maxSteps m.state.stack.depth fuel (.enter a)
      (if m.state.stack.depth = 0 then 0 else m.steps) (m.state.enterScope entry .empty) =
        some (steps, .ok atoms s))
    (hglobals : s.globals = m.state.globals) (hdepth : s.stack.depth = 0) (hevaluated : s.Evaluated a)
    (n : Nat) :
    ∃ m'', (m.after steps s).runEntry (n + 2) = some (.ok [a] m'') ∧ m''.steps = 2 ∧
      m''.state.heap = s.heap := by
  have hentry' : (m.after steps s).entry = some entry := hentry
  have hlookup' : (m.after steps s).state.lookup? entry = some a := by
    rw [← hlookup]
    unfold State.lookup?
    rw [show (m.after steps s).state.globals = m.state.globals from hglobals]
    rfl
  -- The first run counted two transitions at least, so the budget allows two.
  rw [hidle.depth, if_pos rfl] at hfollow
  obtain ⟨hfirst, hsecond⟩ := budget_of_follow_enter hfollow
  have hdepth' : (m.after steps s).state.stack.depth = 0 := hdepth
  have hagain : (m.after steps s).runScoped (n + 2) entry .empty (.enter a) =
      some (.ok [a] ((m.after steps s).after 2 ((m.after steps s).state.enterScope entry .empty))) := by
    refine Machine.runScoped_eq_ok.2 ⟨2, _, ?_, rfl⟩
    rw [hdepth', if_pos rfl]
    exact follow_evaluated hevaluated (Nat.le_of_eq hdepth) hfirst hsecond
  exact ⟨_, (Machine.runEntry_of_lookup? hentry' hlookup').trans hagain, rfl, rfl⟩

/-- Call by need. If no lambda of a program has a direct return in tail position, then in the first run
of its entry every update stores a value, and no thunk is started twice. If the run succeeds, no
blackhole is left, and the second run takes two transitions, changes no object and returns the same
value. -/
theorem Program.call_by_need (hp : p.Settled) (hload : Machine.load p (.new config host) = .ok () m) :
    (∀ d a o, m.Visits d → d.Updates a o → o.isValue = true) ∧
    (∀ c c' d a, m.Visits c → c.Starts a → Steps m.registry m.state.stack.depth c c' →
      Reaches m.registry m.state.stack.depth c' d → ¬ d.Starts a) ∧
    ∀ fuel atoms m', m.runEntry fuel = some (.ok atoms m') →
      (∀ a, ¬ m'.state.Blackholed a) ∧
      ∃ x, atoms = [x] ∧ ∀ n, ∃ y m'', m'.runEntry (n + 2) = some (.ok [y] m'') ∧ m''.steps = 2 ∧
        m''.state.heap = m'.state.heap ∧ m'.state.Agree x y := by
  have hidle := (Machine.load_eq_ok hload).1
  obtain ⟨host', hregistry⟩ := hidle.registry
  refine ⟨fun d a o hvisits => (hp.visits hload hvisits).2.isValue_of_updates, ?_, ?_⟩
  · intro c c' d a hvisits hstarts hstep hreach
    obtain ⟨hsettled, hshares⟩ := hp.visits hload hvisits
    rw [hregistry] at hstep hreach
    have hreach' := hreach.started (hsettled.transition hstep.transition)
      (hshares.transition hsettled hstep.transition) (hstarts.started hstep)
    exact hreach'.not_starts
  · intro fuel atoms m' hrun
    rcases Machine.runEntry_eq_some hrun with ⟨e, heq, -⟩ | ⟨entry, a, hentry, hlookup, hrun⟩
    · cases heq
    · obtain ⟨steps, s, hfollow, rfl⟩ := Machine.runScoped_eq_ok.1 hrun
      obtain ⟨d, hreach, hends⟩ := follow_eq_some hfollow
      cases hends with
      | returned hcode hdepth =>
          have hstart : Command.runEntry.start? m = some ⟨.enter a, m.state.enterScope entry .empty⟩ := by
            simp only [Command.start?, hentry, hlookup, Option.bind_some, Option.map_some]
          have hvisits : ∀ b, Reaches m.registry m.state.stack.depth _ b → m.Visits b :=
            fun b hb => ⟨_, hstart, hb⟩
          have hempty := Command.frames_of_start? hidle hstart
          rw [hidle.depth] at hdepth
          have hframes := Stack.frames_eq_nil hdepth
          obtain ⟨hsettled, hshares⟩ := hp.visits hload (hvisits _ .refl)
          have hclean := hp.not_blackholed hload (hvisits d hreach) hframes
          rw [hregistry] at hreach
          obtain ⟨x, rfl, hevaluated, hagree⟩ :=
            (hreach.phase hsettled hshares (.entering hempty)).of_ret hcode hframes
          refine ⟨hclean, x, rfl, fun n => ?_⟩
          obtain ⟨m'', hagain, hsteps, hheap⟩ := Machine.runEntry_again hidle hentry hlookup hfollow
            hreach.globals_eq (Nat.le_zero.1 hdepth) hevaluated n
          exact ⟨a, m'', hagain, hsteps, hheap, hagree⟩

end Program

/-- An entry that demands a local thunk twice, the second time in tail position. -/
def demandedTwice : Program :=
  let x : Ident := .ofName "x"
  let demand : Expr := .app x []
  let twice : Expr := .case demand (.ofName "y") .poly [⟨.default, [], demand⟩]
  entryThunk (.letIn (.nonRec x (.closure [] ⟨[], .conApp ⟨"()", 1, 0⟩ []⟩)) twice)

/-- Whether an outcome is a success. -/
def Outcome.isOk {σ α : Type} : Outcome σ α → Bool
  | .ok _ _ => true
  | .error _ _ => false

/-- The second run of `demandedTwice` only looks its value up. -/
theorem Program.call_by_need_demandedTwice :
    ∃ m x m' y m'', Machine.load demandedTwice (.new {}) = .ok () m ∧ m.runEntry 20 = some (.ok [x] m') ∧
      (∀ a, ¬ m'.state.Blackholed a) ∧ m'.runEntry 2 = some (.ok [y] m'') ∧ m''.steps = 2 ∧
      m''.state.heap = m'.state.heap ∧ m'.state.Agree x y := by
  have hsettled : demandedTwice.Settled := by decide +kernel
  have hsucceeds : (Machine.runProgram 20 demandedTwice (.new {})).any Outcome.isOk := by
    decide +kernel
  cases hload : Machine.load demandedTwice (.new {}) with
  | error e m =>
      rw [Machine.runProgram, hload] at hsucceeds
      cases hsucceeds
  | ok u m =>
      rw [Machine.runProgram, hload] at hsucceeds
      obtain ⟨outcome, hrun, houtcome⟩ := (Option.any_eq_true _ _).1 hsucceeds
      cases outcome with
      | error e m' => cases houtcome
      | ok atoms m' =>
          obtain ⟨-, -, hruns⟩ := Program.call_by_need hsettled hload
          obtain ⟨hclean, x, rfl, hagain⟩ := hruns 20 atoms m' hrun
          obtain ⟨y, m'', hrun', hsteps, hheap, hagree⟩ := hagain 0
          exact ⟨m, x, m', y, m'', rfl, hrun, hclean, hrun', hsteps, hheap, hagree⟩

end Spineless
