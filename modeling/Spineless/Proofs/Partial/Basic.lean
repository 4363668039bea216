import Spineless.Bound
import Spineless.Proofs.Action

/-!
# Partial operations

Indexing, slicing, copying between stretches of different lengths and machine arithmetic that does not
wrap are not defined everywhere. `Partial` is the monad of actions that may use such operations: an
action ends with a value, with a fault, or undefined. Every partial operation is an `onlyIf`, which names
the condition under which it is defined; what is checked by a program before it uses one is an ordinary
condition of the program.

`Partial.Agrees` says that a partial action does what a total one does, so that every condition was
established before it was needed. It is proved part by part: `Agrees.bind` goes on from the outcomes of
the total action, of which the laws of `Exec` say what they establish.
-/

namespace Spineless

/-- Why an action ends without a value. -/
inductive Halt where
  /-- It fails. -/
  | fault (e : Fault)
  /-- It uses an operation where the operation is not defined. -/
  | undefined

/-- An action on the state that may fail and may be undefined. -/
abbrev Partial := EStateM Halt State

namespace Partial

variable {α β : Type}

/-- An action without partial operations. -/
def lift (x : Exec α) : Partial α := fun s =>
  match x s with
  | .ok a t => .ok a t
  | .error e t => .error (.fault e) t

instance : MonadLift Exec Partial := ⟨lift⟩

/-- A value that is defined under a condition. -/
def onlyIf (defined : Prop) [Decidable defined] (value : α) : Partial α := fun s =>
  if defined then .ok value s else .error .undefined s

/-! ## Arithmetic -/

/-- What a division by `divisor` gives; there is no division by zero. -/
def dividedBy {N : Type} [DecidableEq N] [OfNat N 0] (divisor result : N) : Partial N :=
  onlyIf (divisor ≠ 0) result

/-- What a shift of a machine word by `amount` gives; the amount is below the size of the word. -/
def shiftedBy {N : Type} (amount : Nat) (result : N) : Partial N := onlyIf (amount < 64) result

/-- The difference of two signed integers that does not wrap around. -/
def subInt (a b : Int64) : Partial Int64 :=
  onlyIf (-(Bound.int : Int) ≤ a.toInt - b.toInt ∧ a.toInt - b.toInt < Bound.int) (a - b)

/-- The sum of two sizes that does not wrap around. -/
def addSize (a b : Nat) : Partial Nat := onlyIf (a + b < Bound.word) (a + b)

/-- The difference of two sizes that does not wrap around. -/
def subSize (a b : Nat) : Partial Nat := onlyIf (b ≤ a) (a - b)

/-- The sum of two sizes, if it is a size. -/
def sum? (a b : Nat) : Option Nat := if a + b < Bound.word then some (a + b) else none

/-- The product of two sizes, if it is a size. -/
def product? (a b : Nat) : Option Nat := if a * b < Bound.word then some (a * b) else none

/-! ## Sequences -/

/-- The entry that is found at an index; an index outside finds none. -/
def entry (found : Option α) : Partial α := fun s =>
  match found with
  | some a => .ok a s
  | none => .error .undefined s

/-- An array with another entry at an index. -/
def setEntry (xs : Array α) (i : Nat) (a : α) : Partial (Array α) :=
  onlyIf (i < xs.size) (xs.setIfInBounds i a)

/-- The entries of an array from `start` up to `stop`. -/
def stretch (xs : Array α) (start stop : Nat) : Partial (Array α) :=
  onlyIf (start ≤ stop ∧ stop ≤ xs.size) (xs.extract start stop)

/-- An array with its entries from `start` up to `stop` overwritten by as many others. -/
def overwrite (xs : Array α) (start stop : Nat) (new : Array α) : Partial (Array α) :=
  onlyIf (start ≤ stop ∧ stop ≤ xs.size ∧ new.size = stop - start)
    (xs.extract 0 start ++ new ++ xs.extract stop xs.size)

/-- A list without its first entry. -/
def dropFirst (xs : List α) : Partial (List α) := onlyIf (0 < xs.length) (xs.drop 1)

/-- The entries of a list before an index, and those from there on. -/
def splitAt (xs : List α) (i : Nat) : Partial (List α × List α) :=
  onlyIf (i ≤ xs.length) (xs.take i, xs.drop i)

/-! ## Agreement -/

/-- An action is defined in a state: it may fail there, but no operation on the way is undefined. -/
def Defined (x : Partial α) (s : State) : Prop := ∀ t, x s ≠ .error .undefined t

/-- A partial action does what a total one does. Where sizes do not `fit` into a machine word it may fail
instead, but it is defined. -/
def Agrees (fits : Prop) (x : Partial α) (y : Exec α) (s : State) : Prop :=
  x s = lift y s ∨ ¬ fits ∧ ∃ e t, x s = .error (.fault e) t

section Laws

variable {fits : Prop} {x : Partial α} {y : Exec α} {s t : State} {a : α} {f : α → Partial β}

/-- What is defined is its value. -/
theorem onlyIf_of {defined : Prop} [Decidable defined] (h : defined) : onlyIf defined a = pure a := by
  funext s
  rw [onlyIf, if_pos h]
  rfl

theorem get_bind {f : State → Partial β} : ((get : Partial State) >>= f) s = f s s := rfl

namespace Agrees

/-- A partial action that agrees with a total one is defined. -/
theorem defined (h : Agrees fits x y s) : x.Defined s := by
  intro t hundefined
  rcases h with heq | ⟨-, e, u, heq⟩
  · rw [hundefined, lift] at heq
    cases hy : y s with
    | ok a u => rw [hy] at heq; cases heq
    | error e u => rw [hy] at heq; cases heq
  · rw [hundefined] at heq
    cases heq

/-- Where sizes fit, there is no other outcome than that of the total action. -/
theorem eq_lift (h : Agrees fits x y s) (hfits : fits) : x s = lift y s :=
  h.resolve_right fun hno => hno.1 hfits

theorem of_eq (h : x s = lift y s) : Agrees fits x y s := .inl h

/-- Only what an action does in the state matters. -/
theorem congr {x' : Partial α} (h : x s = x' s) (hx : Agrees fits x' y s) : Agrees fits x y s := by
  rwa [Agrees, h]

theorem lift (y : Exec α) : Agrees fits (liftM y) y s := .inl rfl

theorem lift_congr {y' : Exec α} (h : y' s = y s) : Agrees fits (liftM y') y s := by
  refine .inl ?_
  change Partial.lift y' s = _
  rw [Partial.lift, Partial.lift, h]

theorem pure (a : α) : Agrees fits (Pure.pure a) (Pure.pure a) s := .inl rfl

/-- Two actions one after the other agree, if the second ones agree on what the first ones lead to. -/
theorem bind {g : α → Exec β} (hx : Agrees fits x y s)
    (hf : ∀ a t, y s = .ok a t → Agrees fits (f a) (g a) t) :
    Agrees fits (x >>= f) (y >>= g) s := by
  rcases hx with hx | ⟨hno, e, t, hx⟩
  · cases hy : y s with
    | ok a t =>
        have hxok : x s = .ok a t := by rw [hx, Partial.lift, hy]
        have hleft : (x >>= f) s = f a t := by
          change EStateM.bind x f s = _
          rw [EStateM.bind, hxok]
        have hright : Partial.lift (y >>= g) s = Partial.lift (g a) t := by
          rw [Partial.lift, Partial.lift, Exec.bind_of_ok hy]
        rw [Agrees, hleft, hright]
        exact hf a t hy
    | error e t =>
        refine .inl ?_
        have hxerror : x s = .error (.fault e) t := by rw [hx, Partial.lift, hy]
        have hleft : (x >>= f) s = .error (.fault e) t := by
          change EStateM.bind x f s = _
          rw [EStateM.bind, hxerror]
        rw [hleft, Partial.lift, Exec.bind_eq_error.2 (.inl hy)]
  · refine .inr ⟨hno, e, t, ?_⟩
    change EStateM.bind x f s = _
    rw [EStateM.bind, hx]

/-- A partial operation on the way is passed where it is defined. -/
theorem defined_bind {defined : Prop} [Decidable defined] {z : Exec β} (h : defined)
    (hf : Agrees fits (f a) z s) : Agrees fits (onlyIf defined a >>= f) z s := by
  rwa [onlyIf_of h, pure_bind]

/-- An index inside finds its entry. -/
theorem entry_bind {found : Option α} {z : Exec β} (h : found = some a) (hf : Agrees fits (f a) z s) :
    Agrees fits (entry found >>= f) z s := by
  rw [h]
  exact hf

end Agrees

end Laws

end Partial

end Spineless
