import Spineless.Machine.Match
import Spineless.PrimOp.Registry

/-!
# Transitions

One transition takes a piece of work and gives the next one. An expression is evaluated in the
current scope; entering a thunk puts a blackhole over it and an update frame on the stack; returned
values go to the topmost frame, whose scope is restored first.
-/

namespace Spineless

namespace Exec

/-- Evaluates an expression by one transition. -/
def eval (r : Registry) : Expr → Exec Code
  | .app callee args => do
    let f ← resolve callee
    let atoms ← arguments args
    if !atoms.isEmpty then pushFrame (.apply atoms)
    return .enter f
  | .lit l => do return .ret [← literal l]
  | .conApp con args => do
    let addr ← allocate (.con con (← arguments args))
    return .ret [.ptr addr]
  | .multiVal args => do return .ret (← arguments args)
  | .opApp op args resultType resultTyCon => do
    let atoms ← arguments args
    return .ret (← r.evaluate ⟨op, atoms, resultType, resultTyCon⟩)
  | .case scrutinee binder altType alts => do
    pushFrame (.caseOf binder altType alts)
    modify (·.pushTrace binder)
    return .eval scrutinee
  | .letIn binding body => do
    allocateBinding binding
    return .eval body

/-- Enters an atom. A value comes back as it is; a thunk is covered by a blackhole and its code runs
in its own scope; a blackhole means that a thunk needs its own value. -/
def enter (a : Atom) : Exec Code :=
  match a with
  | .ptr addr => do
    match ← read addr with
    | .con _ _ => return .ret [.ptr addr]
    | .blackhole _ => fail (.blackholeEntered addr)
    | .closure c =>
      if c.isThunk then
        store addr (.blackhole (.closure c))
        pushFrame (.update addr)
        modify (·.enterScope c.name c.env)
        return .eval c.lambda.body
      else return .ret [.ptr addr]
  | _ => return .ret [a]

/-- Overwrites a thunk with the object of its result and passes the result on. -/
def update (target : Addr) (atoms : List Atom) : Exec Code :=
  match atoms with
  | [.ptr result] => do
    store target (← read result)
    return .ret atoms
  | _ => fail (.invalidUpdate target atoms)

/-- Applies the closure at an address. Too few arguments make a partial application; with enough of
them the code runs, and those left over wait in a frame for its result. -/
def apply (addr : Addr) (args : List Atom) : Exec Code := do
  match ← read addr with
  | .closure c =>
    if c.missing = 0 then fail (.notAFunction (.object (Object.closure c).shape addr))
    else if args.length < c.missing then
      let pap : Closure :=
        { c with args := c.args ++ args, missing := c.missing - args.length }
      return .ret [.ptr (← allocate (.closure pap))]
    else
      let extra := args.drop c.missing
      if !extra.isEmpty then pushFrame (.apply extra)
      let values := c.args ++ args.take c.missing
      modify (·.enterScope c.name (c.env.extend (c.lambda.params.zip values)))
      return .eval c.lambda.body
  | object => fail (.notAFunction (.object object.shape addr))

/-- Hands values to a frame, in the frame's scope. -/
def resume (frame : Frame) (atoms : List Atom) : Exec Code := do
  modify (·.restoreScope frame.env frame.trace)
  match frame.cont with
  | .update target => update target atoms
  | .apply args =>
    match atoms with
    | [.ptr addr] => apply addr args
    | _ => fail (.notAFunction (.values atoms))
  | .caseOf binder altType alts => select binder altType alts atoms

end Exec

/-- The outcome of a transition: more work, or the values of the run. -/
inductive Next where
  /-- The run goes on. -/
  | code (c : Code)
  /-- The run is over. -/
  | done (atoms : List Atom)

/-- One transition of a run that started with `base` frames on the stack. Values that return at that
depth are the run's result. -/
def step (r : Registry) (base : Nat) : Code → Exec Next
  | .eval e => do return .code (← Exec.eval r e)
  | .enter a => do return .code (← Exec.enter a)
  | .ret atoms => do
    if (← get).stack.depth ≤ base then return .done atoms
    else
      match ← Exec.popFrame? with
      | some frame => return .code (← Exec.resume frame atoms)
      | none => return .done atoms

end Spineless
