import Spineless.Json.Value
import Spineless.Program

/-!
# Programs as JSON

A record is an object with its fields in a fixed order; a choice is an object with one member, named
for the choice, or only that name if nothing belongs to it. How floating-point literals are written
is a parameter.
-/

namespace Spineless

open Json (Value)

/-- How floating-point literals are written. -/
structure FloatEncoding where
  /-- A single-precision literal. -/
  single : Float32 → Value
  /-- A double-precision literal. -/
  double : Float → Value

/-- The value that a text of a number denotes; `null` without a text. -/
def numberValue (text : Option String) : Value := (text.bind Value.parse?).getD .null

/-- Floating-point literals as the shortest numbers that read back; `null` for those that are no
numbers. -/
def FloatEncoding.decimal : FloatEncoding where
  single x := numberValue (Json.ofFloat32? x)
  double x := numberValue (Json.ofFloat? x)

namespace Encode

/-- A choice with its content. -/
def variant (name : String) (content : Value) : Value := .ofMembers [(name, content)]

/-- An identifier. -/
def ident (x : Ident) : Value := .ofMembers [("name", .ofString x.name), ("key", .ofString x.key)]

/-- Several identifiers. -/
def idents (xs : List Ident) : Value := .array (xs.map ident)

/-- A literal. -/
def lit (fe : FloatEncoding) : Lit → Value
  | .int n => variant "Int" (.ofInt n.toInt)
  | .word n => variant "Word" (.ofNat n.toNat)
  | .char c => variant "Char" (.ofString (String.singleton c))
  | .float x => variant "Float" (fe.single x)
  | .double x => variant "Double" (fe.double x)
  | .nullAddr => .ofString "NullAddr"
  | .string bytes => variant "String" (.array (bytes.map fun b => .ofNat b.toNat))

/-- An argument. -/
def arg (fe : FloatEncoding) : Arg → Value
  | .var x => variant "Var" (ident x)
  | .lit l => variant "Lit" (lit fe l)

/-- Several arguments. -/
def args (fe : FloatEncoding) (xs : List Arg) : Value := .array (xs.map (arg fe))

/-- A data constructor. -/
def dataCon (c : DataCon) : Value :=
  .ofMembers [("name", .ofString c.name), ("tag", .ofNat c.tag), ("arity", .ofNat c.arity)]

/-- A type constructor. -/
def tyCon (t : TyCon) : Value :=
  .ofMembers [("name", .ofString t.name), ("data_cons", .array (t.dataCons.map dataCon))]

/-- The name of a representation. -/
def repName : Rep → String
  | .void => "Void"
  | .lifted => "Lifted"
  | .unlifted => "Unlifted"
  | .int => "Int"
  | .word => "Word"
  | .char => "Char"
  | .addr => "Addr"
  | .float => "Float"
  | .double => "Double"

/-- A representation. -/
def rep (r : Rep) : Value := .ofString (repName r)

/-- The shape of a result. -/
def resultType : ResultType → Value
  | .single r => variant "Single" (rep r)
  | .unboxedTuple rs => variant "UnboxedTuple" (.array (rs.map rep))
  | .poly => .ofString "Poly"

/-- The sort of a scrutinee. -/
def altType : AltType → Value
  | .poly => .ofString "Poly"
  | .multiVal n => variant "MultiVal" (.ofNat n)
  | .prim r => variant "Prim" (rep r)
  | .alg t => variant "Alg" (tyCon t)

/-- What an alternative matches. -/
def altCon (fe : FloatEncoding) : AltCon → Value
  | .data c => variant "Data" (dataCon c)
  | .lit l => variant "Lit" (lit fe l)
  | .default => .ofString "Default"

/-- A type constructor that may be absent. -/
def optionalTyCon : Option TyCon → Value
  | some t => tyCon t
  | none => .null

mutual

/-- An expression. -/
def expr (fe : FloatEncoding) : Expr → Value
  | .app callee xs => variant "App" (.ofMembers [("fun", ident callee), ("args", args fe xs)])
  | .lit l => variant "Lit" (lit fe l)
  | .conApp c xs => variant "ConApp" (.ofMembers [("con", dataCon c), ("args", args fe xs)])
  | .multiVal xs => variant "MultiVal" (.ofMembers [("args", args fe xs)])
  | .opApp op xs result tycon =>
    variant "OpApp" (.ofMembers [("op", .ofString op), ("args", args fe xs),
      ("result_type", resultType result), ("result_tycon", optionalTyCon tycon)])
  | .case scrutinee binder ty alternatives =>
    variant "Case" (.ofMembers [("scrutinee", expr fe scrutinee), ("binder", ident binder),
      ("alt_type", altType ty), ("alts", .array (alts fe alternatives))])
  | .letIn b body =>
    variant "Let" (.ofMembers [("binding", binding fe b), ("body", expr fe body)])

/-- An alternative. -/
def alt (fe : FloatEncoding) : Alt → Value
  | ⟨con, binders, rhs⟩ =>
    .ofMembers [("con", altCon fe con), ("binders", idents binders), ("rhs", expr fe rhs)]

/-- Several alternatives. -/
def alts (fe : FloatEncoding) : List Alt → List Value
  | [] => []
  | a :: rest => alt fe a :: alts fe rest

/-- Parameters and code of a closure. -/
def lambda (fe : FloatEncoding) : Lambda → Value
  | ⟨params, body⟩ => .ofMembers [("params", idents params), ("body", expr fe body)]

/-- A right-hand side. -/
def rhs (fe : FloatEncoding) : Rhs → Value
  | .closure freeVars l =>
    variant "Closure" (.ofMembers [("free_vars", idents freeVars), ("lambda", lambda fe l)])
  | .con c xs => variant "Con" (.ofMembers [("con", dataCon c), ("args", args fe xs)])

/-- A binding. -/
def binding (fe : FloatEncoding) : Binding → Value
  | .nonRec x r => variant "NonRec" (.array [ident x, rhs fe r])
  | .group xs => variant "Rec" (.array (pairs fe xs))

/-- The members of a recursive group. -/
def pairs (fe : FloatEncoding) : List (Ident × Rhs) → List Value
  | [] => []
  | (x, r) :: rest => .array [ident x, rhs fe r] :: pairs fe rest

end

end Encode

/-- A program as a JSON value. -/
def Program.encode (p : Program) (fe : FloatEncoding) : Value :=
  .ofMembers [
    ("bindings", .array (p.bindings.map (Encode.binding fe))), ("entry", Encode.ident p.entry)]

/-- The text of a program. -/
def Program.render (p : Program) : String := (p.encode .decimal).render

end Spineless
