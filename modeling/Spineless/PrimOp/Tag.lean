import Spineless.PrimOp.Call

/-!
# Constructor tags

The tag of a constructor, and the constructor without fields that has a tag.
-/

namespace Spineless.PrimOp

/-- The operations on tags. -/
inductive TagOp where
  | ofData | toEnum

namespace TagOp

/-- The names that the family lists. -/
def names : List String := ["dataToTag#", "tagToEnum#"]

/-- The operation that a name is matched with. -/
def ofName? : String → Option TagOp
  | "dataToTag#" => some ofData
  | "tagToEnum#" => some toEnum
  | _ => none

/-- The constructor without fields that has a tag. -/
def nullaryCon? (tycon : TyCon) (tag : Int64) : Option DataCon :=
  if tag < 0 then none else (tycon.conByTag? tag.toNatClampNeg).filter (·.arity == 0)

/-- Answers a call. -/
def run (op : TagOp) (call : Call) : Exec Answer :=
  match op, call.args with
  | ofData, [.ptr addr] => do
    let (con, _) ← Exec.readCon addr
    .answer (.int (Int64.ofNat con.tag))
  | toEnum, [.int tag] =>
    match call.resultTyCon with
    | none => call.refuse .unknownTyCon
    | some tycon =>
      match nullaryCon? tycon tag with
      | none => call.refuse (.noNullaryCon tycon.name tag.toInt)
      | some con => do .answer (.ptr (← Exec.allocate (.con con [])))
  | _, _ => .declined

end TagOp

/-- The family of operations on tags. -/
def tagHandler : Handler := .ofNames "Tags" TagOp.names TagOp.ofName? TagOp.run

end Spineless.PrimOp
