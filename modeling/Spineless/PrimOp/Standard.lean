import Spineless.PrimOp.Address
import Spineless.PrimOp.Boxed
import Spineless.PrimOp.ByteArray
import Spineless.PrimOp.Concurrency
import Spineless.PrimOp.Floating
import Spineless.PrimOp.Integer
import Spineless.PrimOp.Registry
import Spineless.PrimOp.Tag
import Spineless.PrimOp.Variable
import Spineless.PrimOp.Word

/-!
# The standard families

All families of primitive operations, in the order in which they are registered.
-/

namespace Spineless

/-- The thirteen families, on a host. -/
def PrimOp.standardHandlers (host : Host := .usual) : List Handler := [
  floatHandler, doubleHandler, intHandler, wordHandler, charHandler, mutVarHandler, mvarHandler,
  arrayHandler host, smallArrayHandler host, byteArrayHandler host, addrHandler, tagHandler,
  concurrencyHandler]

/-- A standard family by name. -/
def PrimOp.standardHandler? (family : String) (host : Host := .usual) : Option Handler :=
  (standardHandlers host).find? (·.family == family)

/-- The registry of all families. -/
def Registry.standard (host : Host := .usual) : Registry :=
  .ofHandlers (PrimOp.standardHandlers host)

end Spineless
