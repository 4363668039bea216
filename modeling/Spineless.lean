import Spineless.Atom
import Spineless.Bound
import Spineless.CommandLine
import Spineless.Config
import Spineless.Config.Load
import Spineless.Decimal.Binary
import Spineless.Decimal.Shortest
import Spineless.Decimal.Written
import Spineless.Env
import Spineless.Fault
import Spineless.Files
import Spineless.Ident
import Spineless.Json.Numeral
import Spineless.Json.Token
import Spineless.Json.Value
import Spineless.Machine
import Spineless.Machine.Allocate
import Spineless.Machine.Code
import Spineless.Machine.Describe
import Spineless.Machine.Match
import Spineless.Machine.Run
import Spineless.Machine.Step
import Spineless.Main
import Spineless.Object
import Spineless.Path
import Spineless.PrimOp.Address
import Spineless.PrimOp.Boxed
import Spineless.PrimOp.ByteArray
import Spineless.PrimOp.Call
import Spineless.PrimOp.Concurrency
import Spineless.PrimOp.Floating
import Spineless.PrimOp.Integer
import Spineless.PrimOp.Registry
import Spineless.PrimOp.Standard
import Spineless.PrimOp.Tag
import Spineless.PrimOp.Variable
import Spineless.PrimOp.Word
import Spineless.Program
import Spineless.Program.Build
import Spineless.Program.Decode
import Spineless.Program.Encode
import Spineless.Runner
import Spineless.Stack
import Spineless.State
import Spineless.StringTable
import Spineless.Text.Printable
import Spineless.Text.Quoted
import Spineless.Toml.Document
import Spineless.Toml.Scalar
import Spineless.Toml.Table
import Spineless.Proofs.Action
import Spineless.Proofs.Allocation
import Spineless.Proofs.PrimOp.Answer
import Spineless.Proofs.PrimOp.Names
import Spineless.Proofs.PrimOp.Standard
import Spineless.Proofs.PrimOp.Dispatch
import Spineless.Proofs.PrimOp.Footprint
import Spineless.Proofs.PrimOp.Writers
import Spineless.Proofs.PrimOp.Buffer
import Spineless.Proofs.Step
import Spineless.Proofs.Run
import Spineless.Proofs.Session
import Spineless.Proofs.Dangling
import Spineless.Proofs.Scoping
import Spineless.Proofs.Blackhole
import Spineless.Proofs.Provenance
import Spineless.Proofs.Sharing
import Spineless.Proofs.Lifecycle
import Spineless.Proofs.Reentrancy
import Spineless.Proofs.WeakHead
import Spineless.Proofs.SingleValue
import Spineless.Proofs.Alternatives
import Spineless.Proofs.Application
import Spineless.Proofs.Coupling
import Spineless.Proofs.PrimOp.Equivariant
import Spineless.Proofs.Simulation
import Spineless.Proofs.Noninterference
import Spineless.Proofs.Locality
import Spineless.Proofs.Budget
import Spineless.Proofs.Loading
import Spineless.Proofs.LoadOrder
import Spineless.Proofs.Matching
import Spineless.Proofs.PrimOp.Parametric
import Spineless.Proofs.MatchedRuns
import Spineless.Proofs.FailedLoad
import Spineless.Proofs.CallSimulation
import Spineless.Proofs.Diagnostics
import Spineless.Proofs.BinderRenaming
import Spineless.Proofs.Closures
import Spineless.Proofs.Json.Lexing
import Spineless.Proofs.Json.Reading
import Spineless.Proofs.ProgramText
import Spineless.Proofs.PrimOp.Ranges
import Spineless.Proofs.FrozenArrays
import Spineless.Proofs.PrimOp.ElementViews
import Spineless.Proofs.PrimOp.Modular
import Spineless.Proofs.PrimOp.Registration
import Spineless.Proofs.PrimOp.Pointers
import Spineless.Proofs.Partial.Defined
import Spineless.Proofs.Interning
import Spineless.Proofs.Ancestors
import Spineless.Proofs.Configuration
