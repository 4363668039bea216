import Spineless.State

/-!
# Calls of primitive operations

A call names an operation and carries evaluated arguments. A handler answers the operations of one
family. It declines a call, with `none`, when the arguments are not of the sorts that the operation
takes; arguments of the right sorts that the operation cannot accept are a failure.
-/

namespace Spineless

/-- A call of a primitive operation. -/
structure Call where
  /-- The name of the operation. -/
  name : String
  /-- The evaluated arguments. -/
  args : List Atom
  /-- The declared shape of the result. -/
  resultType : ResultType := .poly
  /-- The type of the result, where the operation needs it. -/
  resultTyCon : Option TyCon := none
deriving Inhabited

/-- The outcome of a handler: the result values, or nothing if it declines the call. -/
abbrev Answer := Option (List Atom)

/-- What the host can allocate. -/
structure Host where
  /-- Whether there is room for an array of so many atoms. -/
  atoms : Nat → Bool
  /-- Whether there is room for an array of so many bytes. -/
  bytes : Nat → Bool

/-- The host with room for arrays of fewer than 2^32 elements. -/
def Host.usual : Host where
  atoms size := size < 4294967296
  bytes size := size < 4294967296

/-- A family of primitive operations. -/
structure Handler where
  /-- The name of the family. -/
  family : String
  /-- The names of its operations. -/
  operations : List String
  /-- Answers a call. -/
  evaluate : Call → Exec Answer

/-- The handler that lists some names and, apart from that, matches the name of a call with an
operation. It declines a name that it matches with none. -/
def Handler.ofNames {Op : Type} (family : String) (names : List String)
    (ofName? : String → Option Op) (run : Op → Call → Exec Answer) : Handler where
  family := family
  operations := names
  evaluate call :=
    match ofName? call.name with
    | none => pure none
    | some op => run op call

namespace Call

/-- Refuses the arguments of a call. -/
def refuse {α : Type} (call : Call) (misfit : Misfit) : Exec α :=
  Exec.fail (.primOpShape call.name misfit)

/-- An index or a size; a negative one is refused. -/
def index (call : Call) (n : Int64) : Exec Nat :=
  if n < 0 then call.refuse (.negative n.toInt) else pure n.toNatClampNeg

/-- An array of equal elements; one that there is no room for is refused. -/
def filled {α : Type} (call : Call) (fits : Nat → Bool) (value : α) (size : Nat) :
    Exec (Array α) :=
  if fits size then pure (Array.replicate size value) else call.refuse (.tooLarge size)

end Call

/-- The answer of one value. -/
def Exec.answer (a : Atom) : Exec Answer := pure (some [a])

/-- The answer without values. -/
def Exec.noValues : Exec Answer := pure (some [])

/-- The refusal to answer arguments of these sorts. -/
def Exec.declined : Exec Answer := pure none

end Spineless
