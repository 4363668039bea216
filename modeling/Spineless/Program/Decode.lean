import Spineless.Bound
import Spineless.Json.Value
import Spineless.Program

/-!
# Reading programs

A record is an object with its fields in any order and each at most once, other members being
ignored, or an array of all its fields. A choice is an object with one member, or a string if
nothing belongs to it. Arrays and objects may be nested to a certain depth, ignored members apart;
the readers count the levels left, and that is also what their recursion ends by.
-/

namespace Spineless

open Json (Value Content)

namespace Decode

/-- Arrays and objects may be nested this deep. -/
def maxDepth : Nat := 127

/-! ## Scalars -/

/-- A string. -/
def string : Value → Option String
  | .string s => s
  | _ => none

/-- An integer in a range. -/
def intIn (low high : Int) : Value → Option Int
  | .number n => n.int?.filter fun i => low ≤ i && i ≤ high
  | _ => none

/-- A natural number below a bound. -/
def natBelow (bound : Nat) (v : Value) : Option Nat := (intIn 0 (bound - 1) v).map Int.toNat

/-- A character: a string of just one. -/
def char (v : Value) : Option Char := do
  match (← string v).toList with
  | [c] => some c
  | _ => none

/-- A double-precision number. Integers are rounded from their exact value. -/
def double : Value → Option Float
  | .number n =>
    match n.int? with
    | some i =>
      some (if 0 ≤ i then (UInt64.ofNat i.toNat).toFloat else (Int64.ofInt i).toFloat)
    | none => n.float?
  | _ => none

/-- A single-precision number. Integers are rounded from their exact value, other numbers from
double precision. -/
def single : Value → Option Float32
  | .number n =>
    match n.int? with
    | some i =>
      some (if 0 ≤ i then (UInt64.ofNat i.toNat).toFloat32 else (Int64.ofInt i).toFloat32)
    | none => n.float?.map Float.toFloat32
  | _ => none

/-! ## Containers -/

/-- The items of an array. -/
def items : Value → Option (List Value)
  | .array items => some items
  | _ => none

/-- The items of an array, each read inside one level. -/
def list {α : Type} (depth : Nat) (item : Nat → Value → Option α) (v : Value) :
    Option (List α) :=
  match depth with
  | 0 => none
  | depth + 1 => do (← items v).mapM (item depth)

/-- The member with a key, which may be absent but not repeated. -/
def member? (members : List (Content × Value)) (key : String) : Option (Option Value) :=
  match members.filter fun m => m.1 == some key with
  | [] => some none
  | [m] => some (some m.2)
  | _ => none

/-- The fields of a record, of which some may be absent. -/
def fields? (names : List String) : Value → Option (List (Option Value))
  | .object members =>
    if members.all (·.1.isSome) then names.mapM (member? members) else none
  | .array items => if items.length = names.length then some (items.map some) else none
  | _ => none

/-- The fields of a record, all present. -/
def fields (names : List String) (v : Value) : Option (List Value) := do
  (← fields? names v).mapM id

/-- A choice: its name and its content, if it has one. -/
inductive Choice where
  /-- A name alone. -/
  | bare (name : String)
  /-- A name with a content. -/
  | of (name : String) (content : Value)

/-- Reads a choice. -/
def choice : Value → Option Choice
  | .string (some name) => some (.bare name)
  | .object [(some name, content)] => some (.of name content)
  | _ => none

/-- The name of a choice without content, inside a number of levels. The content may be written as
`null`. -/
def bareName (depth : Nat) (v : Value) : Option String :=
  match choice v with
  | some (.bare name) => some name
  | some (.of name .null) => if depth = 0 then none else some name
  | _ => none

/-! ## The parts of a program without nested expressions -/

/-- An identifier. -/
def ident (depth : Nat) (v : Value) : Option Ident :=
  match depth, fields ["name", "key"] v with
  | _ + 1, some [name, key] => do return ⟨← string name, ← string key⟩
  | _, _ => none

/-- Several identifiers. -/
def idents (depth : Nat) (v : Value) : Option (List Ident) := list depth ident v

/-- A byte. -/
def byte (_ : Nat) (v : Value) : Option UInt8 := (natBelow Bound.byte v).map UInt8.ofNat

/-- A literal. -/
def lit (depth : Nat) (v : Value) : Option Lit :=
  match depth, choice v with
  | _ + 1, some (.of "Int" x) => do
    return .int (Int64.ofInt (← intIn (-Bound.int) (Bound.int - 1) x))
  | _ + 1, some (.of "Word" x) => do return .word (UInt64.ofNat (← natBelow Bound.word x))
  | _ + 1, some (.of "Char" x) => do return .char (← char x)
  | _ + 1, some (.of "Float" x) => do return .float (← single x)
  | _ + 1, some (.of "Double" x) => do return .double (← double x)
  | depth + 1, some (.of "String" x) => do return .string (← list depth byte x)
  | depth, _ => if bareName depth v = some "NullAddr" then some .nullAddr else none

/-- An argument. -/
def arg (depth : Nat) (v : Value) : Option Arg :=
  match depth, choice v with
  | depth + 1, some (.of "Var" x) => do return .var (← ident depth x)
  | depth + 1, some (.of "Lit" x) => do return .lit (← lit depth x)
  | _, _ => none

/-- Several arguments. -/
def args (depth : Nat) (v : Value) : Option (List Arg) := list depth arg v

/-- A data constructor. -/
def dataCon (depth : Nat) (v : Value) : Option DataCon :=
  match depth, fields ["name", "tag", "arity"] v with
  | _ + 1, some [name, tag, arity] => do
    return ⟨← string name, ← natBelow Bound.tag tag, ← natBelow Bound.word arity⟩
  | _, _ => none

/-- A type constructor. -/
def tyCon (depth : Nat) (v : Value) : Option TyCon :=
  match depth, fields ["name", "data_cons"] v with
  | depth + 1, some [name, dataCons] => do return ⟨← string name, ← list depth dataCon dataCons⟩
  | _, _ => none

/-- A type constructor that may be absent or `null`. -/
def optionalTyCon (depth : Nat) : Option Value → Option (Option TyCon)
  | none | some .null => some none
  | some v => (tyCon depth v).map some

/-- The representation with a name. -/
def repOfName : String → Option Rep
  | "Void" => some .void
  | "Lifted" => some .lifted
  | "Unlifted" => some .unlifted
  | "Int" => some .int
  | "Word" => some .word
  | "Char" => some .char
  | "Addr" => some .addr
  | "Float" => some .float
  | "Double" => some .double
  | _ => none

/-- A representation. -/
def rep (depth : Nat) (v : Value) : Option Rep := (bareName depth v).bind repOfName

/-- The shape of a result. -/
def resultType (depth : Nat) (v : Value) : Option ResultType :=
  match depth, choice v with
  | depth + 1, some (.of "Single" x) => do return .single (← rep depth x)
  | depth + 1, some (.of "UnboxedTuple" x) => do return .unboxedTuple (← list depth rep x)
  | depth, _ => if bareName depth v = some "Poly" then some .poly else none

/-- The sort of a scrutinee. -/
def altType (depth : Nat) (v : Value) : Option AltType :=
  match depth, choice v with
  | _ + 1, some (.of "MultiVal" x) => do return .multiVal (← natBelow Bound.word x)
  | depth + 1, some (.of "Prim" x) => do return .prim (← rep depth x)
  | depth + 1, some (.of "Alg" x) => do return .alg (← tyCon depth x)
  | depth, _ => if bareName depth v = some "Poly" then some .poly else none

/-- What an alternative matches. -/
def altCon (depth : Nat) (v : Value) : Option AltCon :=
  match depth, choice v with
  | depth + 1, some (.of "Data" x) => do return .data (← dataCon depth x)
  | depth + 1, some (.of "Lit" x) => do return .lit (← lit depth x)
  | depth, _ => if bareName depth v = some "Default" then some .default else none

/-! ## Expressions -/

mutual

/-- An expression. -/
def expr : Nat → Value → Option Expr
  | depth + 2, v =>
    match choice v with
    | some (.of "App" x) =>
      match fields ["fun", "args"] x with
      | some [callee, xs] => do return .app (← ident depth callee) (← args depth xs)
      | _ => none
    | some (.of "Lit" x) => do return .lit (← lit (depth + 1) x)
    | some (.of "ConApp" x) =>
      match fields ["con", "args"] x with
      | some [c, xs] => do return .conApp (← dataCon depth c) (← args depth xs)
      | _ => none
    | some (.of "MultiVal" x) =>
      match fields ["args"] x with
      | some [xs] => do return .multiVal (← args depth xs)
      | _ => none
    | some (.of "OpApp" x) =>
      match fields? ["op", "args", "result_type", "result_tycon"] x with
      | some [some op, some xs, some result, tycon] => do
        return .opApp (← string op) (← args depth xs) (← resultType depth result)
          (← optionalTyCon depth tycon)
      | _ => none
    | some (.of "Case" x) =>
      match fields ["scrutinee", "binder", "alt_type", "alts"] x with
      | some [scrutinee, binder, ty, alternatives] => do
        return .case (← expr depth scrutinee) (← ident depth binder) (← altType depth ty)
          (← alts depth alternatives)
      | _ => none
    | some (.of "Let" x) =>
      match fields ["binding", "body"] x with
      | some [b, body] => do return .letIn (← binding depth b) (← expr depth body)
      | _ => none
    | _ => none
  | 1, v =>
    match choice v with
    | some (.of "Lit" x) => do return .lit (← lit 0 x)
    | _ => none
  | 0, _ => none

/-- Several alternatives. -/
def alts : Nat → Value → Option (List Alt)
  | depth + 2, v => do
    (← items v).mapM fun v =>
      match fields ["con", "binders", "rhs"] v with
      | some [con, binders, rhs] => do
        return ⟨← altCon depth con, ← idents depth binders, ← expr depth rhs⟩
      | _ => none
  | 1, .array [] => some []
  | _, _ => none

/-- A right-hand side. -/
def rhs : Nat → Value → Option Rhs
  | depth + 3, v =>
    match choice v with
    | some (.of "Closure" x) =>
      match fields ["free_vars", "lambda"] x with
      | some [freeVars, l] =>
        match fields ["params", "body"] l with
        | some [params, body] => do
          return .closure (← idents (depth + 1) freeVars)
            ⟨← idents depth params, ← expr depth body⟩
        | _ => none
      | _ => none
    | some (.of "Con" x) =>
      match fields ["con", "args"] x with
      | some [c, xs] => do return .con (← dataCon (depth + 1) c) (← args (depth + 1) xs)
      | _ => none
    | _ => none
  | _, _ => none

/-- A binding. -/
def binding : Nat → Value → Option Binding
  | depth + 3, v =>
    match choice v with
    | some (.of "NonRec" (.array [x, r])) => do
      return .nonRec (← ident (depth + 1) x) (← rhs (depth + 1) r)
    | some (.of "Rec" (.array pairs)) => do
      return .group (← pairs.mapM fun pair =>
        match pair with
        | .array [x, r] => do return (← ident depth x, ← rhs depth r)
        | _ => none)
    | _ => none
  | 2, v =>
    match choice v with
    | some (.of "Rec" (.array [])) => some (.group [])
    | _ => none
  | _, _ => none

end

/-- A program; its entry need not be bound. -/
def program (v : Value) : Option Program :=
  match fields ["bindings", "entry"] v with
  | some [bindings, entry] => do
    return ⟨← list (maxDepth - 1) binding bindings, ← ident (maxDepth - 1) entry⟩
  | _ => none

end Decode

/-- Why a text is no program. -/
inductive ProgramError where
  /-- The text is not a program. -/
  | malformed
  /-- The entry is not bound at top level. -/
  | missingEntry (key : String)
deriving DecidableEq

/-- The wording of the error. -/
def ProgramError.message : ProgramError → String
  | .malformed => "malformed program"
  | .missingEntry key => "entry binder " ++ key ++ " is not bound at top level"

/-- The program that a text denotes. -/
def Program.parse (text : String) : Except ProgramError Program :=
  match (Json.Value.parse? text).bind Decode.program with
  | none => .error .malformed
  | some p => if p.definesEntry then .ok p else .error (.missingEntry p.entry.key)

end Spineless
