/-!
# Limits of a machine

Three numbers bound a machine: how many transitions a run may take, how deep the control stack may
grow, and how many binders the diagnostic trace keeps.
-/

namespace Spineless

/-- The limits of a machine. -/
structure Config where
  /-- The most transitions of one run; without a limit if absent. -/
  maxSteps : Option Nat := none
  /-- The most frames on the control stack. -/
  maxStackDepth : Nat := 1048576
  /-- The most binders in the diagnostic trace. -/
  traceLimit : Nat := 64
deriving DecidableEq, Inhabited

end Spineless
