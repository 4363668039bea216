import Spineless.Proofs.Partial.ByteArray
import Spineless.Proofs.Partial.Scalar

/-!
# The standard operations with partial operations

The thirteen families again, those with partial operations among them, and the dispatch to them by the
position that the registry has for a name, which is one more index. `Partial.evaluate_agrees` says that a call
does what it does with the chain of the standard families.
-/

namespace Spineless

open PrimOp

namespace Partial

variable {fits : Prop} {host : Host} {call : Call} {s : State}

/-- Matches the name of a call with an operation and declines names that it matches with none. -/
def ofNames {Op : Type} (ofName? : String → Option Op) (run : Op → Call → Partial Answer) (call : Call) :
    Partial Answer :=
  match ofName? call.name with
  | none => pure none
  | some op => run op call

/-- The thirteen families in the order of registration. -/
def standardHandlers (host : Host) : List (Call → Partial Answer) := [
  fun call => floatHandler.evaluate call,
  fun call => doubleHandler.evaluate call,
  ofNames IntOp.ofName? intRun,
  ofNames WordOp.ofName? wordRun,
  fun call => charHandler.evaluate call,
  ofNames MutVarOp.ofName? mutVarRun,
  ofNames MVarOp.ofName? mvarRun,
  ofNames (ArrayOp.largeTable.lookup ·) (arrayRun host .large),
  ofNames (ArrayOp.smallTable.lookup ·) (arrayRun host .small),
  ofNames ByteOp.ofName? (byteRun host),
  ofNames AddrOp.ofName? addrRun,
  fun call => tagHandler.evaluate call,
  fun call => concurrencyHandler.evaluate call]

/-- Evaluates a call by the handler at the position that a registry has for its name. -/
def evaluateBy (r : Registry) (handlers : List (Call → Partial Answer)) (call : Call) :
    Partial (List Atom) := do
  match r.owners.lookup call.name with
  | some i =>
    let handler ← entry handlers[i]?
    match ← handler call with
    | some atoms => pure atoms
    | none => Registry.unknown call
  | none => Registry.unknown call

/-- Evaluates a call of a standard operation. -/
def evaluate (host : Host) (call : Call) : Partial (List Atom) :=
  evaluateBy (.standard host) (standardHandlers host) call

/-- A family with partial operations does what the family does. -/
def Serves (handler : Handler) (answer : Call → Partial Answer) : Prop :=
  ∀ (call : Call) (s : State) (fits : Prop), call.Offsets → (fits → s.spaces.Fits) →
    Agrees fits (answer call) (handler.evaluate call) s

theorem serves_total (handler : Handler) : Serves handler fun call => handler.evaluate call :=
  fun _ _ _ _ _ => .lift _

theorem serves_ofNames {Op : Type} {family : String} {names : List String} {ofName? : String → Option Op}
    {run : Op → Call → Exec Answer} {run' : Op → Call → Partial Answer}
    (h : ∀ (op : Op) (call : Call) (s : State) (fits : Prop), call.Offsets → (fits → s.spaces.Fits) →
      Agrees fits (run' op call) (run op call) s) :
    Serves (.ofNames family names ofName? run) (ofNames ofName? run') := by
  intro call s fits hoffsets hfits
  rw [ofNames]
  cases hop : ofName? call.name with
  | none =>
      rw [Handler.evaluate_ofNames_of_none hop]
      exact .pure _
  | some op =>
      rw [Handler.evaluate_ofNames_of_some hop]
      exact h op call s fits hoffsets hfits

/-- Every family with partial operations does what the family at its position does. -/
theorem serves_standard : List.Forall₂ Serves (PrimOp.standardHandlers host) (standardHandlers host) := by
  refine .cons (serves_total _) <| .cons (serves_total _) <| .cons (serves_ofNames ?int) <|
    .cons (serves_ofNames ?word) <| .cons (serves_total _) <| .cons (serves_ofNames ?mutVar) <|
    .cons (serves_ofNames ?mvar) <| .cons (serves_ofNames ?array) <| .cons (serves_ofNames ?smallArray) <|
    .cons (serves_ofNames ?byteArray) <| .cons (serves_ofNames ?addr) <| .cons (serves_total _) <|
    .cons (serves_total _) .nil
  case int => exact fun op _ _ _ _ _ => intRun_agrees op
  case word => exact fun op _ _ _ _ _ => wordRun_agrees op
  case mutVar => exact fun op _ _ _ _ _ => mutVarRun_agrees op
  case mvar => exact fun op _ _ _ _ _ => mvarRun_agrees op
  case array => exact fun op _ _ _ _ _ => arrayRun_agrees .large op
  case smallArray => exact fun op _ _ _ _ _ => arrayRun_agrees .small op
  case byteArray => exact fun op _ _ _ _ hfits => byteRun_agrees hfits op
  case addr => exact fun op _ _ _ hoffsets _ => addrRun_agrees hoffsets op

/-- The position that a registry has for a name is that of a handler, and the handler there does what its
partial counterpart does. -/
theorem evaluateBy_agrees {r : Registry} {handlers : List Handler} {answers : List (Call → Partial Answer)}
    (hserves : r.Serves handlers) (hanswers : List.Forall₂ Serves handlers answers)
    (hoffsets : call.Offsets) (hfits : fits → s.spaces.Fits) :
    Agrees fits (evaluateBy r answers call) (r.evaluate call) s := by
  rw [Registry.evaluate]
  cases hi : r.owners.lookup call.name with
  | none =>
      have howner : r.owner? call.name = none := by rw [Registry.owner?, hi, Option.bind_none]
      rw [Registry.evaluateWith_of_owner?_eq_none howner, evaluateBy, hi]
      exact .lift _
  | some i =>
      have hlt : i < handlers.length := by
        rw [← hserves.handlers_eq, Array.length_toList]
        exact hserves.owners_lt hi
      have hlt' : i < answers.length := hanswers.length_eq ▸ hlt
      have howner : r.owner? call.name = some handlers[i] := by
        rw [Registry.owner?, hi, Option.bind_some, ← Array.getElem?_toList, hserves.handlers_eq]
        exact List.getElem?_eq_getElem hlt
      rw [Registry.evaluateWith_of_owner? howner, evaluateBy, hi]
      refine .entry_bind (List.getElem?_eq_getElem hlt') ?_
      refine .bind (hanswers.get hlt hlt' call s fits hoffsets hfits) fun answer t _ => ?_
      cases answer with
      | none => exact .lift _
      | some atoms => exact .pure _

/-- A call of a standard operation uses partial operations only where they are defined. -/
theorem evaluate_agrees (hoffsets : call.Offsets) (hfits : fits → s.spaces.Fits) :
    Agrees fits (evaluate host call) ((Registry.standard host).evaluate call) s :=
  evaluateBy_agrees Registry.serves_standard serves_standard hoffsets hfits

end Partial

end Spineless
