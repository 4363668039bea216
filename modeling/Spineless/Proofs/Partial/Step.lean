import Spineless.Proofs.Allocation
import Spineless.Proofs.Offsets
import Spineless.Proofs.Partial.Registry

/-!
# Transitions with partial operations

One transition again, with partial operations where it drops the oldest binder of a trace, shows a closure
in a log, subtracts supplied arguments from missing ones, splits arguments, or calls a primitive operation.

`Partial.step_agrees` says that it does what the transition does. Traces and arguments are tested before
they are taken apart. A primitive operation gets its pointers from the state, so they are bounded there. The
number of arguments that a closure shows is the number of its parameters, which is a machine word.
-/

namespace Spineless

variable {host : Host}

/-- The arguments of a closure, supplied and missing, make up its parameters, and their number is a machine
word. -/
structure Closure.Counted (c : Closure) : Prop where
  total : c.args.length + c.missing = c.lambda.arity
  word : c.lambda.arity < Bound.word

/-- The arguments of all closures in a state make up their parameters. -/
def State.Counted (s : State) : Prop := ∀ a c, s.object? a = some (.closure c) → c.Counted

theorem Exec.heap_of_popFrame? {s t : State} {top : Option Frame} (h : popFrame? s = .ok top t) :
    t.heap = s.heap := by
  rw [popFrame?, modifyGet_apply] at h
  cases hpop : s.stack.pop? with
  | none | some =>
      simp only [hpop] at h
      cases h
      rfl

namespace Partial

variable {fits : Prop} {s : State}

/-! ## Traces and texts -/

/-- A trace with one more binder; beyond the limit the outermost one is dropped. -/
def extendTrace (limit : Nat) (trace : List Ident) (x : Ident) : Partial (List Ident) :=
  if limit = 0 then pure trace
  else if limit ≤ trace.length then do return (← dropFirst trace) ++ [x]
  else pure (trace ++ [x])

/-- Puts one more binder in the trace. -/
def pushTrace (x : Ident) : Partial Unit := do
  let s ← get
  let trace ← extendTrace s.traceLimit s.trace x
  modify (·.restoreScope s.env trace)

/-- Enters the scope of a closure: its environment and a trace that names it. -/
def enterScope (name : Ident) (env : Env) : Partial Unit := do
  let s ← get
  let trace ← extendTrace s.traceLimit [] name
  modify (·.restoreScope env trace)

/-- The text of an object; that of a closure says how many arguments it has and how many it takes. -/
def text (o : Object) : Partial String :=
  match o with
  | .closure c => do
    let all ← addSize c.args.length c.missing
    return "<" ++ c.shape.text ++ " " ++ c.name.name ++ " " ++ toString c.args.length ++ "/" ++
      toString all ++ ">"
  | o => return o.text

/-- A full trace that has a limit is not empty. -/
theorem extendTrace_eq (limit : Nat) (trace : List Ident) (x : Ident) :
    extendTrace limit trace x = pure (State.extendTrace limit trace x) := by
  unfold extendTrace State.extendTrace
  split
  · rfl
  · next hlimit =>
      split
      · next hfull =>
          have hsome : 0 < trace.length := by omega
          rw [dropFirst, onlyIf_of hsome, pure_bind]
      · rfl

theorem pushTrace_agrees (x : Ident) :
    Agrees fits (pushTrace x) (modify (·.pushTrace x)) s := by
  refine .of_eq ?_
  rw [pushTrace, get_bind, extendTrace_eq]
  rfl

theorem enterScope_agrees (name : Ident) (env : Env) :
    Agrees fits (enterScope name env) (modify (·.enterScope name env)) s := by
  refine .of_eq ?_
  rw [enterScope, get_bind, extendTrace_eq]
  rfl

theorem text_eq {o : Object} (h : ∀ c, o = .closure c → c.Counted) : text o = pure o.text := by
  cases o with
  | con | blackhole => rfl
  | closure c =>
      have hcounted := h c rfl
      have hword : c.args.length + c.missing < Bound.word := hcounted.total ▸ hcounted.word
      rw [text, addSize, onlyIf_of hword, pure_bind]
      rfl

/-! ## Transitions -/

/-- Evaluates an expression by one transition. -/
def eval (host : Host) : Expr → Partial Code
  | .opApp op args resultType resultTyCon => do
    let atoms ← Exec.arguments args
    return .ret (← evaluate host ⟨op, atoms, resultType, resultTyCon⟩)
  | .case scrutinee binder altType alts => do
    Exec.pushFrame (.caseOf binder altType alts)
    pushTrace binder
    return .eval scrutinee
  | e => Exec.eval (.standard host) e

/-- Enters an atom. -/
def enter (a : Atom) : Partial Code :=
  match a with
  | .ptr addr => do
    match ← Exec.read addr with
    | .con _ _ => return .ret [.ptr addr]
    | .blackhole _ => Exec.fail (.blackholeEntered addr)
    | .closure c =>
      if c.isThunk then
        Exec.store addr (.blackhole (.closure c))
        Exec.pushFrame (.update addr)
        enterScope c.name c.env
        return .eval c.lambda.body
      else return .ret [.ptr addr]
  | _ => return .ret [a]

/-- Overwrites a thunk with the object of its result, which is shown in a log, and passes the result on. -/
def update (target : Addr) (atoms : List Atom) : Partial Code :=
  match atoms with
  | [.ptr result] => do
    let object ← Exec.read result
    let _ ← text object
    Exec.store target object
    return .ret atoms
  | _ => Exec.fail (.invalidUpdate target atoms)

/-- Applies the closure at an address. -/
def apply (addr : Addr) (args : List Atom) : Partial Code := do
  match ← Exec.read addr with
  | .closure c =>
    if c.missing = 0 then Exec.fail (.notAFunction (.object (Object.closure c).shape addr))
    else if args.length < c.missing then
      let missing ← subSize c.missing args.length
      let pap : Closure := { c with args := c.args ++ args, missing }
      return .ret [.ptr (← Exec.allocate (.closure pap))]
    else
      let (now, extra) ← splitAt args c.missing
      if !extra.isEmpty then Exec.pushFrame (.apply extra)
      enterScope c.name (c.env.extend (c.lambda.params.zip (c.args ++ now)))
      return .eval c.lambda.body
  | object => Exec.fail (.notAFunction (.object object.shape addr))

/-- Applies the closure that values refer to, if they are one reference. -/
def applyValues (atoms args : List Atom) : Partial Code :=
  match atoms with
  | [.ptr addr] => apply addr args
  | _ => Exec.fail (.notAFunction (.values atoms))

/-- Hands values to a frame, in the frame's scope. -/
def resume (frame : Frame) (atoms : List Atom) : Partial Code := do
  modify (·.restoreScope frame.env frame.trace)
  match frame.cont with
  | .update target => update target atoms
  | .apply args => applyValues atoms args
  | .caseOf binder altType alts => Exec.select binder altType alts atoms

/-- One transition of a run that started with `base` frames on the stack. -/
def step (host : Host) (base : Nat) : Code → Partial Next
  | .eval e => do return .code (← eval host e)
  | .enter a => do return .code (← enter a)
  | .ret atoms => do
    if (← get).stack.depth ≤ base then return .done atoms
    else
      match ← Exec.popFrame? with
      | some frame => return .code (← resume frame atoms)
      | none => return .done atoms

/-! ## Agreement -/

theorem eval_agrees (hstate : s.Bounded) (e : Expr) :
    Agrees s.spaces.Fits (eval host e) (Exec.eval (.standard host) e) s := by
  fun_cases eval host e with
  | case1 op args resultType resultTyCon =>
      refine .bind (.lift _) fun atoms t hargs => ?_
      have hatoms := ((Exec.arguments_bounds args).ok hstate hargs).1
      have hoffsets : Call.Offsets ⟨op, atoms, resultType, resultTyCon⟩ :=
        fun p hp => Atom.bounded_str.1 (hatoms _ hp)
      obtain ⟨strings, rfl⟩ := (Exec.arguments_eq_ok hargs).1
      exact .bind (evaluate_agrees hoffsets id) fun _ _ _ => .pure _
  | case2 scrutinee binder altType alts =>
      exact .bind (.lift _) fun _ _ _ => .bind (pushTrace_agrees binder) fun _ _ _ => .pure _
  | case3 => exact .lift _

theorem enter_agrees (a : Atom) : Agrees fits (enter a) (Exec.enter a) s := by
  cases a with
  | ptr addr =>
      refine .bind (.lift _) fun o t _ => ?_
      cases o with
      | con => exact .pure _
      | blackhole => exact .lift _
      | closure c =>
          dsimp only
          split
          · exact .bind (.lift _) fun _ _ _ => .bind (.lift _) fun _ _ _ =>
              .bind (enterScope_agrees c.name c.env) fun _ _ _ => .pure _
          · exact .pure _
  | _ => exact .pure _

theorem update_agrees (hcounted : s.Counted) (target : Addr) (atoms : List Atom) :
    Agrees fits (update target atoms) (Exec.update target atoms) s := by
  fun_cases update target atoms with
  | case1 result =>
      refine .bind (.lift _) fun o t hread => ?_
      obtain ⟨ho, rfl⟩ := Exec.read_eq_ok.1 hread
      rw [text_eq fun c hc => hcounted result c (hc ▸ ho), pure_bind]
      exact .bind (.lift _) fun _ _ _ => .pure _
  | case2 _ hother =>
      rw [Exec.update]
      · exact .lift _
      · exact hother

theorem apply_agrees (addr : Addr) (args : List Atom) :
    Agrees fits (apply addr args) (Exec.apply addr args) s := by
  refine .bind (.lift _) fun o t _ => ?_
  cases o with
  | con | blackhole => exact .lift _
  | closure c =>
      dsimp only
      split
      · exact .lift _
      · split
        · next hfew =>
            exact .defined_bind (Nat.le_of_lt hfew) (.bind (.lift _) fun _ _ _ => .pure _)
        · next henough =>
            refine .defined_bind (Nat.le_of_not_lt henough) ?_
            dsimp only
            split
            · exact .bind (.lift _) fun _ _ _ => .bind (enterScope_agrees c.name _) fun _ _ _ => .pure _
            · exact .bind (enterScope_agrees c.name _) fun _ _ _ => .pure _

theorem resume_agrees (hcounted : s.Counted) (frame : Frame) (atoms : List Atom) :
    Agrees fits (resume frame atoms) (Exec.resume frame atoms) s := by
  refine .bind (.of_eq rfl) fun _ t hrestore => ?_
  obtain rfl : s.restoreScope frame.env frame.trace = t := by
    cases hrestore
    rfl
  have hrestored : (s.restoreScope frame.env frame.trace).Counted := hcounted
  cases frame.cont with
  | update target => exact update_agrees hrestored target atoms
  | caseOf => exact .lift _
  | apply args =>
      dsimp only
      split
      · exact apply_agrees _ args
      · next hother =>
          rw [applyValues]
          · exact .lift _
          · exact hother

/-- A transition of a bounded state with counted closures uses partial operations only where they are
defined. -/
theorem step_agrees (hstate : s.Bounded) (hcounted : s.Counted) (base : Nat) (code : Code) :
    Agrees s.spaces.Fits (step host base code) (Spineless.step (.standard host) base code) s := by
  cases code with
  | eval e => exact .bind (eval_agrees hstate e) fun _ _ _ => .pure _
  | enter a => exact .bind (enter_agrees a) fun _ _ _ => .pure _
  | ret atoms =>
      refine .bind (.of_eq rfl) fun t u hget => ?_
      cases hget
      split
      · exact .pure _
      · refine .bind (.lift _) fun top t hpop => ?_
        have hpopped : t.Counted := by
          unfold State.Counted State.object?
          rw [Exec.heap_of_popFrame? hpop]
          exact hcounted
        cases top with
        | none => exact .pure _
        | some frame => exact .bind (resume_agrees hpopped frame atoms) fun _ _ _ => .pure _

end Partial

end Spineless
