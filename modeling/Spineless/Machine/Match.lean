import Spineless.Machine.Allocate
import Spineless.Machine.Code

/-!
# The choice of an alternative

The value of a scrutinee is bound first. Then the first alternative that matches is taken: a default
matches anything, a constructor matches by name, a literal matches an equal atom.
-/

namespace Spineless

/-- Whether an alternative matches a constructor. -/
def Alt.isData (alt : Alt) : Bool :=
  match alt.con with
  | .data _ => true
  | _ => false

/-- Whether the scrutinee is an unboxed tuple. -/
def AltType.isMultiVal : AltType → Bool
  | .multiVal _ => true
  | _ => false

/-- The values for the binders of an alternative that matches; `none` if it does not. The
constructor behind a single returned reference is given as `scrutinee`. -/
def Alt.fields? (alt : Alt) (altType : AltType) (atoms : List Atom)
    (scrutinee : Option (DataCon × List Atom)) : Option (List Atom) :=
  match alt.con with
  | .default => some (if altType.isMultiVal then atoms else [])
  | .data con =>
    match scrutinee with
    | some (found, fields) => if found.name == con.name then some fields else none
    | none => none
  | .lit l =>
    match atoms, l.atom? with
    | [value], some expected => if value == expected then some [] else none
    | _, _ => none

/-- The first alternative that matches, with the values for its binders. -/
def Alt.first? (alts : List Alt) (altType : AltType) (atoms : List Atom)
    (scrutinee : Option (DataCon × List Atom)) : Option (Alt × List Atom) :=
  alts.findSome? fun alt => (alt.fields? altType atoms scrutinee).map (alt, ·)

namespace Exec

/-- Binds the value of a scrutinee, if there is exactly one. -/
def bindValue (binder : Ident) (atoms : List Atom) : Exec Unit :=
  match atoms with
  | [value] => modify (·.bind binder value)
  | _ => pure ()

/-- The constructor behind a single returned reference, read only if some alternative asks for a
constructor. -/
def scrutinee? (alts : List Alt) (atoms : List Atom) : Exec (Option (DataCon × List Atom)) :=
  match atoms with
  | [.ptr addr] => if alts.any Alt.isData then do return some (← readCon addr) else pure none
  | _ => pure none

/-- Chooses an alternative for returned values. -/
def select (binder : Ident) (altType : AltType) (alts : List Alt) (atoms : List Atom) :
    Exec Code := do
  bindValue binder atoms
  let scrutinee ← scrutinee? alts atoms
  match Alt.first? alts altType atoms scrutinee with
  | some (alt, fields) =>
    modify (·.bindAll (alt.binders.zip fields))
    return .eval alt.rhs
  | none =>
    let shown := match scrutinee with
      | some (con, _) => Unmatched.con con.name
      | none => .values atoms
    fail (.nonExhaustiveMatch binder shown)

end Exec

end Spineless
