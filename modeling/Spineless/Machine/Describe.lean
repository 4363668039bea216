import Spineless.Machine

/-!
# The text of a machine

A one-line account of a machine for a log: sizes, families, limits, entry and steps, each a record
with named fields.
-/

namespace Spineless

/-- A record with named fields. -/
def recordText (name : String) (fields : List (String × String)) : String :=
  name ++ " \x7b " ++ ", ".intercalate (fields.map fun (field, value) => field ++ ": " ++ value) ++
    " \x7d"

/-- A value that may be absent. -/
def optionalText : Option String → String
  | some text => "Some(" ++ text ++ ")"
  | none => "None"

/-- The sizes of a state by name. -/
def Stats.fields (s : Stats) : List (String × Nat) := [
  ("heap_objects", s.heapObjects), ("next_addr", s.nextAddr), ("stack_depth", s.stackDepth),
  ("mvars", s.mvars), ("arrays", s.arrays), ("mutable_arrays", s.mutableArrays),
  ("small_arrays", s.smallArrays), ("small_mutable_arrays", s.smallMutableArrays),
  ("mutvars", s.mutVars), ("byte_arrays", s.byteArrays)]

/-- The text of the sizes of a state. -/
def Stats.text (s : Stats) : String :=
  recordText "StateStats" (s.fields.map fun (field, n) => (field, toString n))

/-- The text of a registry: its families and the number of its operations. -/
def Registry.text (r : Registry) : String :=
  let families := r.handlers.toList.map fun handler => "\"" ++ handler.family ++ "\""
  recordText "PrimOpChain" [
    ("families", "[" ++ ", ".intercalate families ++ "]"), ("operations", toString r.size)]

/-- The text of the limits of a machine. -/
def Config.text (c : Config) : String :=
  recordText "MachineConfig" [
    ("max_steps", optionalText (c.maxSteps.map toString)),
    ("max_stack_depth", toString c.maxStackDepth),
    ("eval_stack_limit", toString c.traceLimit)]

/-- The text of a machine. -/
def Machine.text (m : Machine) : String :=
  recordText "Machine" [
    ("stats", m.state.stats.text), ("primops", m.registry.text), ("config", m.config.text),
    ("entry", optionalText (m.entry.map Ident.key)), ("steps", toString m.steps)]

end Spineless
