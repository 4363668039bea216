import Spineless.Atom
import Spineless.Ident

/-!
# Environments

A finite map from keys to atoms. The entries are a list without repeated keys; binding a key drops
its earlier entry, so the last write wins and the number of entries is the number of bound keys.
-/

namespace Spineless

/-- A finite map from the keys of binders to atoms. -/
structure Env where
  /-- The bindings, the most recent first. -/
  entries : List (String × Atom) := []
  /-- No key is bound twice. -/
  nodup : (entries.map Prod.fst).Nodup := by simp

namespace Env

/-- The environment that binds nothing. -/
def empty : Env := {}

instance : Inhabited Env := ⟨empty⟩

instance : EmptyCollection Env := ⟨empty⟩

/-- The atom bound to a key. -/
def find? (e : Env) (key : String) : Option Atom := e.entries.lookup key

/-- Binds a key, in place of any earlier binding. -/
def insert (e : Env) (key : String) (atom : Atom) : Env where
  entries := (key, atom) :: e.entries.filter (fun entry => entry.1 != key)
  nodup := by
    rw [List.map_cons, List.nodup_cons]
    refine ⟨by simp, ?_⟩
    exact List.Sublist.nodup (List.filter_sublist.map _) e.nodup

/-- The atom bound to a variable. -/
def get? (e : Env) (x : Ident) : Option Atom := e.find? x.key

/-- Whether a variable is bound. -/
def contains (e : Env) (x : Ident) : Bool := (e.get? x).isSome

/-- Binds a variable; the last write wins. -/
def bind (e : Env) (x : Ident) (atom : Atom) : Env := e.insert x.key atom

/-- Binds several variables in order. -/
def extend (e : Env) (pairs : List (Ident × Atom)) : Env :=
  pairs.foldl (fun e pair => e.bind pair.1 pair.2) e

/-- The environment of a list of bindings, of which later ones win. -/
def ofList (pairs : List (Ident × Atom)) : Env := empty.extend pairs

/-- How many variables are bound. -/
def size (e : Env) : Nat := e.entries.length

/-- Whether nothing is bound. -/
def isEmpty (e : Env) : Bool := e.entries.isEmpty

/-- The bindings in the order of their keys. -/
def sorted (e : Env) : List (String × Atom) := e.entries.mergeSort fun a b => !decide (b.1 < a.1)

/-- Whether two environments bind the same keys to equal atoms. -/
def beq (e f : Env) : Bool :=
  e.size == f.size && e.entries.all fun (key, atom) =>
    match f.find? key with
    | some other => atom == other
    | none => false

instance : BEq Env := ⟨beq⟩

/-! ## Look-up after a write -/

/-- Dropping the entries of a key does not change what another key is bound to. -/
theorem lookup_filter_ne {key other : String} (h : other ≠ key) (entries : List (String × Atom)) :
    (entries.filter fun entry => entry.1 != key).lookup other = entries.lookup other := by
  induction entries with
  | nil => rfl
  | cons entry rest ih =>
    obtain ⟨k, a⟩ := entry
    by_cases hk : k = key
    · subst hk
      simp [List.lookup_cons, ih, beq_false_of_ne h]
    · simp [hk, List.lookup_cons, ih]

/-- The key that is written has its new atom, and other keys keep theirs. -/
@[simp]
theorem find?_insert (e : Env) (key other : String) (atom : Atom) :
    (e.insert key atom).find? other = if other = key then some atom else e.find? other := by
  by_cases h : other = key
  · simp [find?, insert, h]
  · simp [find?, insert, List.lookup_cons, beq_false_of_ne h, lookup_filter_ne h, h]

/-- The variable that is bound has its new atom, and other variables keep theirs. -/
@[simp]
theorem get?_bind (e : Env) (x y : Ident) (atom : Atom) :
    (e.bind x atom).get? y = if y.key = x.key then some atom else e.get? y :=
  find?_insert e x.key y.key atom

end Env

end Spineless
