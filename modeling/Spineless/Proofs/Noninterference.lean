import Spineless.Proofs.Simulation

/-!
# Lexical scoping as noninterference

Entering an atom and returning values do not look at the environment of whoever asked for it: a closure
runs in the environment that it captured, and a case goes on in the one that was saved with it. So the
current environment and trace, and those saved with updates and applications, have no influence on a run
that enters an atom or returns values: neither on its outcome nor on its length nor on what it leaves
behind.
-/

namespace Spineless

variable {host : Host}

/-- Two frames with the same continuation. A case has the same scope in both; an update or an application
may have any. -/
structure Frame.SameButScope (f g : Frame) : Prop where
  cont : g.cont = f.cont
  case : ∀ binder altType alts, f.cont = .caseOf binder altType alts → g.env = f.env ∧ g.trace = f.trace

/-- Two states that agree on everything but the current scope and those saved with updates and
applications. -/
structure State.SameButScopes (s t : State) : Prop where
  heap : t.heap = s.heap
  globals : t.globals = s.globals
  strings : t.strings = s.strings
  spaces : t.spaces = s.spaces
  thread : t.thread = s.thread
  traceLimit : t.traceLimit = s.traceLimit
  maxStackDepth : t.maxStackDepth = s.maxStackDepth
  frames : List.Forall₂ Frame.SameButScope s.stack.frames t.stack.frames

/-- The machine in another scope. -/
def Machine.inScope (m : Machine) (env : Env) (trace : List Ident) : Machine :=
  { m with state := m.state.restoreScope env trace }

/-- Two runs with the same names on stacks of the same depth, whose traces are compared only where the
scopes are. -/
def Coupling.scopes (limit : Nat) : Coupling where
  names := .refl
  below := []
  spare := 0
  limit := limit
  limit' := limit
  inScope xs ys := ys = xs
  always _ _ := True
  always_nil := trivial
  always_of_inScope _ := trivial
  inScope_enter _ := rfl
  inScope_extend _ h := by
    rw [h]
    rfl

section Scopes

variable {s t : State} {limit : Nat}

theorem Frame.SameButScope.refl (f : Frame) : f.SameButScope f := ⟨rfl, fun _ _ _ _ => ⟨rfl, rfl⟩⟩

/-- Corresponding frames, in the sense of the coupling. -/
theorem Frame.SameButScope.frames {f g : Frame} (h : f.SameButScope g) :
    (Coupling.scopes limit).Frames f g where
  cont := by
    rw [h.cont]
    exact (Renaming.cont_refl f.cont).symm
  trace := trivial
  scope binder altType alts hcase := by
    obtain ⟨henv, htrace⟩ := h.case binder altType alts hcase
    exact ⟨henv.trans (Renaming.env_refl f.env).symm, htrace⟩

theorem Coupling.stacks_of_forall₂ {fs gs : List Frame} (h : List.Forall₂ Frame.SameButScope fs gs) :
    (Coupling.scopes limit).Stacks fs gs := by
  induction h with
  | nil => exact .bottom
  | cons hframe _ ih => exact .push hframe.frames ih

/-- States that agree outside the scopes correspond, as long as the current scope is not needed. -/
theorem State.SameButScopes.related (h : s.SameButScopes t) :
    (Coupling.scopes s.traceLimit).Related false s t where
  store := .of_eq h.heap h.globals h.strings h.spaces h.thread
  limit := rfl
  limit' := h.traceLimit
  depth := h.maxStackDepth
  frames := Coupling.stacks_of_forall₂ h.frames
  trace := trivial
  scope hlive := nomatch hlive

/-- Corresponding outcomes show the same. -/
theorem Coupling.shows_eq {x y : Outcome State (List Atom)}
    (h : (scopes limit).Outcomes ((scopes limit).Maps false (List.map Renaming.refl.atom)) x y) :
    x.shows State.contents = y.shows State.contents := by
  cases h with
  | ok hmaps =>
      obtain ⟨hrelated, rfl⟩ := hmaps
      rw [Outcome.shows, Outcome.shows, Renaming.map_atom_refl, hrelated.store.contents_eq]
  | error hstore hfaults =>
      have hcause := hfaults.cause
      rw [cause_eq _ rfl, scopes, Renaming.cause_refl] at hcause
      rw [Outcome.shows, Outcome.shows, hstore.contents_eq, hcause]
  | overflow hspare => exact absurd hspare (Nat.lt_irrefl 0)

/-- Runs from states that agree outside the scopes show the same, if they start by entering an atom or by
returning values. -/
theorem follow_of_sameButScopes (h : s.SameButScopes t) (code : Code) (hcode : ∀ e, code ≠ .eval e)
    (host : Host) (budget : Option Nat) (base fuel steps : Nat) :
    (follow (.standard host) budget base fuel code steps s).map (Prod.map id (Outcome.shows State.contents)) =
      (follow (.standard host) budget base fuel code steps t).map
        (Prod.map id (Outcome.shows State.contents)) := by
  have hlive : code.live = false := by
    cases code with
    | eval e => exact absurd rfl (hcode e)
    | enter | ret => rfl
  have hrelated := h.related
  rw [← hlive] at hrelated
  have hends := hrelated.follow host budget base fuel (.inl (Eq.refl steps))
  have hsame : (Coupling.scopes s.traceLimit).names.code code = code := Renaming.code_refl code
  rw [hsame] at hends
  change (Coupling.scopes s.traceLimit).Endings steps steps _
    (follow (.standard host) budget base fuel code steps t) at hends
  generalize follow (.standard host) budget base fuel code steps s = x at hends ⊢
  generalize follow (.standard host) budget base fuel code steps t = y at hends ⊢
  cases hends with
  | running => rfl
  | ended n houtcomes =>
      have hshows := Coupling.shows_eq houtcomes
      rw [Option.map_some, Option.map_some, Prod.map, Prod.map, hshows]
  | overflow hspare => exact absurd hspare (Nat.lt_irrefl 0)

end Scopes

/-! ## Forcing -/

/-- What forcing an atom makes of the result of its run: a single value. -/
def Machine.oneValue : Except Cause (List Atom) → Except Cause Atom
  | .ok [value] => .ok value
  | .ok atoms => .error (.primOpShape "force" (.notOneValue atoms.length))
  | .error cause => .error cause

/-- What forcing an atom shows depends on what its run shows. -/
theorem Machine.shows_force (m : Machine) (fuel : Nat) (a : Atom) :
    (m.force fuel a).map (Outcome.shows fun m' => (m'.steps, m'.state.contents)) =
      ((follow m.registry m.config.maxSteps m.state.stack.depth fuel (.enter a) m.count
        (m.state.enterScope forceScope m.state.env)).map
          (Prod.map id (Outcome.shows State.contents))).map
        fun seen => (oneValue seen.2.1, seen.1, seen.2.2) := by
  unfold force
  rw [m.runScoped_eq]
  cases follow m.registry m.config.maxSteps m.state.stack.depth fuel (.enter a) m.count
      (m.state.enterScope forceScope m.state.env) with
  | none => rfl
  | some ending =>
      obtain ⟨steps, ending⟩ := ending
      cases ending with
      | error e t => rfl
      | ok atoms t =>
          rcases atoms with _ | ⟨value, _ | ⟨other, rest⟩⟩
          · rfl
          · rfl
          · rfl

/-- Lexical scoping. Runs that enter the same atom or return the same values, in states that agree outside
the scopes, take as many transitions, give the same values or fail for the same cause, and leave the same
heap, literals and object spaces behind. In particular, what forcing an atom does does not depend on the
scope that it is called in. -/
theorem Machine.noninterference :
    (∀ (s t : State) (code : Code), s.SameButScopes t → (∀ e, code ≠ .eval e) →
      ∀ (budget : Option Nat) (base fuel steps : Nat),
        (follow (.standard host) budget base fuel code steps s).map
            (Prod.map id (Outcome.shows State.contents)) =
          (follow (.standard host) budget base fuel code steps t).map
            (Prod.map id (Outcome.shows State.contents))) ∧
    ∀ (m : Machine) (env : Env) (trace : List Ident), m.registry = .standard host →
      ∀ (fuel : Nat) (a : Atom),
        (m.force fuel a).map (Outcome.shows fun m' => (m'.steps, m'.state.contents)) =
          ((m.inScope env trace).force fuel a).map
            (Outcome.shows fun m' => (m'.steps, m'.state.contents)) := by
  constructor
  · intro s t code h hcode budget base fuel steps
    exact follow_of_sameButScopes h code hcode host budget base fuel steps
  · intro m env trace hregistry fuel a
    have hstates : (m.state.enterScope forceScope m.state.env).SameButScopes
        ((m.inScope env trace).state.enterScope forceScope env) :=
      ⟨rfl, rfl, rfl, rfl, rfl, rfl, rfl, List.forall₂_same.2 fun f _ => .refl f⟩
    have hruns := follow_of_sameButScopes hstates (.enter a) (fun e h => nomatch h) host
      m.config.maxSteps m.state.stack.depth fuel m.count
    rw [← hregistry] at hruns
    rw [m.shows_force, (m.inScope env trace).shows_force, hruns]
    rfl

/-- Two closures that captured an `x`, while another `x` is in scope: a function of `y` that gives its `x`
back and is about to be applied, and a thunk that puts its `x` into a box. -/
def clash (n : Int64) : State :=
  let captured := Env.empty.bind (.ofName "x") (.int 1)
  let giveX := Closure.ofLambda (.ofName "giveX") ⟨[.ofName "y"], .app (.ofName "x") []⟩ captured
  let boxX := Closure.ofLambda (.ofName "boxX") ⟨[], .conApp ⟨"Box", 0, 1⟩ [.var (.ofName "x")]⟩ captured
  let s := (State.ofConfig {}).grow [some (.closure giveX), some (.closure boxX)]
  (s.bind (.ofName "x") (.int n)).pushed (.apply [.int 5])

/-- Whatever `x` is in scope, the function gives back the one that it captured, and the thunk boxes the one
that it captured. -/
theorem Machine.noninterference_clash :
    (clash 2).SameButScopes (clash 3) ∧ (clash 2).env.get? (.ofName "x") = some (.int 2) ∧
      (clash 3).env.get? (.ofName "x") = some (.int 3) ∧
      (∃ steps contents,
        (follow .standard none 0 9 (.enter (.ptr 0)) 0 (clash 3)).map
            (Prod.map id (Outcome.shows State.contents)) = some (steps, .ok [.int 1], contents)) ∧
      ∃ steps contents,
        ((({ Machine.new {} with state := clash 2 } : Machine).inScope (clash 3).env []).force 9 (.ptr 1)).map
            (Outcome.shows fun m' => (m'.steps, m'.state.contents)) = some (.ok (.ptr 2), steps, contents) ∧
          contents.heap[2]? = some (some (.con ⟨"Box", 0, 1⟩ [.int 1])) := by
  have hsame : (clash 2).SameButScopes (clash 3) :=
    ⟨rfl, rfl, rfl, rfl, rfl, rfl, rfl, .cons ⟨rfl, by rintro _ _ _ ⟨⟩⟩ .nil⟩
  have hregistry : ({ Machine.new {} with state := clash 2 } : Machine).registry = .standard := by
    rw [Machine.new, Machine.withRegistry]
  refine ⟨hsame, rfl, rfl, ?_, ?_⟩
  · rw [← Machine.noninterference.1 (clash 2) (clash 3) (.enter (.ptr 0)) hsame
      (by rintro e ⟨⟩) none 0 9 0]
    exact ⟨_, _, rfl⟩
  · rw [← Machine.noninterference.2 _ (clash 3).env [] hregistry 9 (.ptr 1)]
    exact ⟨_, _, rfl, rfl⟩

end Spineless
