import Mathlib.Data.List.Nodup
import Spineless.Proofs.Coupling
import Spineless.Proofs.Scoping

/-!
# What loading leaves behind

A program can be loaded into a fresh machine exactly if its right-hand sides mention only tokens and
top-level variables (`Program.load_eq_ok_iff`). What is then in the heap does not depend on how loading
goes: the object at an address is a function of its right-hand side, of what the top-level variables denote
and of the numbers of the literals (`Rhs.object?`), since a literal keeps the number that it was given.
-/

namespace Spineless

variable {host : Host}

/-! ## Tables of literals -/

namespace StringTable

variable {t : StringTable} {bytes new : List UInt8} {literals : List (List UInt8)}

/-- The table after some literals were entered, in order. -/
def internAll (t : StringTable) (literals : List (List UInt8)) : StringTable :=
  literals.foldl (fun t bytes => (t.intern bytes).2) t

theorem internAll_append (t : StringTable) (xs ys : List (List UInt8)) :
    t.internAll (xs ++ ys) = (t.internAll xs).internAll ys :=
  List.foldl_append

/-- A literal is in a table exactly if it has a number. -/
theorem number?_eq_none : t.number? bytes = none ↔ bytes ∉ t.literals := by
  rw [number?, Array.findIdx?_eq_none_iff]
  constructor
  · intro h hmem
    exact absurd (h bytes hmem) (by simp)
  · intro h other hother
    exact beq_false_of_ne fun heq => h (heq ▸ hother)

/-- A literal that was seen keeps its number, and a new one is entered behind the others. -/
theorem intern_cases (t : StringTable) (bytes : List UInt8) :
    (∃ id, t.number? bytes = some id ∧ t.intern bytes = (⟨id, 0⟩, t)) ∨
      t.number? bytes = none ∧ t.intern bytes = (⟨t.size, 0⟩, ⟨t.literals.push bytes⟩) := by
  unfold intern number?
  cases t.literals.findIdx? (· == bytes) with
  | some id => exact .inl ⟨id, rfl, rfl⟩
  | none => exact .inr ⟨rfl, rfl⟩

/-- The pointer to a literal has the literal's number. -/
theorem exists_number?_intern (t : StringTable) (bytes : List UInt8) :
    ∃ id, (t.intern bytes).1 = ⟨id, 0⟩ ∧ (t.intern bytes).2.number? bytes = some id := by
  rcases t.intern_cases bytes with ⟨id, hnumber, hintern⟩ | ⟨hnumber, hintern⟩
  · rw [hintern]
    exact ⟨id, rfl, hnumber⟩
  · refine ⟨t.size, by rw [hintern], ?_⟩
    rw [hintern, Renamed.number?_push, hnumber, if_pos rfl, Option.none_or]

/-- A literal keeps its number when another one is entered. -/
theorem number?_intern {id : Nat} (h : t.number? bytes = some id) :
    (t.intern new).2.number? bytes = some id := by
  rcases t.intern_cases new with ⟨_, -, hintern⟩ | ⟨-, hintern⟩
  · rw [hintern, h]
  · rw [hintern, Renamed.number?_push, h, Option.some_or]

/-- A literal keeps its number when others are entered. -/
theorem number?_internAll {id : Nat} (h : t.number? bytes = some id) :
    (t.internAll literals).number? bytes = some id := by
  induction literals generalizing t with
  | nil => exact h
  | cons new literals ih => exact ih (number?_intern h)

theorem mem_intern : bytes ∈ (t.intern new).2.literals ↔ bytes ∈ t.literals ∨ bytes = new := by
  rcases t.intern_cases new with ⟨_, hnumber, hintern⟩ | ⟨-, hintern⟩
  · have hmem : new ∈ t.literals := by
      by_contra hnot
      rw [number?_eq_none.2 hnot] at hnumber
      cases hnumber
    rw [hintern]
    exact ⟨.inl, fun h => h.elim id fun heq => heq ▸ hmem⟩
  · rw [hintern, Array.mem_push]

/-- The table holds the literals that were in it and those that were entered. -/
theorem mem_internAll :
    bytes ∈ (t.internAll literals).literals ↔ bytes ∈ t.literals ∨ bytes ∈ literals := by
  induction literals generalizing t with
  | nil => simp [internAll]
  | cons new literals ih =>
      have hcons : t.internAll (new :: literals) = (t.intern new).2.internAll literals := rfl
      rw [hcons, ih, mem_intern, List.mem_cons, or_assoc]

/-- No literal is entered twice. -/
theorem nodup_internAll (h : t.literals.toList.Nodup) : (t.internAll literals).literals.toList.Nodup := by
  induction literals generalizing t with
  | nil => exact h
  | cons new literals ih =>
      refine ih (t := (t.intern new).2) ?_
      rcases t.intern_cases new with ⟨_, -, hintern⟩ | ⟨hnumber, hintern⟩
      · rw [hintern]
        exact h
      · rw [hintern, Array.toList_push, ← List.concat_eq_append]
        exact h.concat (by rw [Array.mem_toList_iff]; exact number?_eq_none.1 hnumber)

/-- Without repetitions, the number of a literal is the place where it stands. -/
theorem number?_eq_some_iff (h : t.literals.toList.Nodup) {id : Nat} :
    t.number? bytes = some id ↔ t.resolve? id = some bytes := by
  rw [number?, resolve?, Array.findIdx?_eq_some_iff_getElem, Array.getElem?_eq_some_iff]
  constructor
  · rintro ⟨hlt, heq, -⟩
    exact ⟨hlt, by simpa using heq⟩
  · rintro ⟨hlt, heq⟩
    refine ⟨hlt, by simpa using heq, fun j hj hbeq => ?_⟩
    have hsame : t.literals[j] = t.literals[id] := by
      rw [heq]
      exact by simpa using hbeq
    rw [← Array.getElem_toList, ← Array.getElem_toList, h.getElem_inj_iff] at hsame
    omega

end StringTable

/-! ## Objects as functions of their right-hand sides -/

/-- A list is mapped by a partial function exactly if each of its entries is. -/
theorem mapM_eq_some {α β : Type} {f : α → Option β} {xs : List α} {ys : List β} :
    xs.mapM f = some ys ↔ List.Forall₂ (fun x y => f x = some y) xs ys := by
  induction xs generalizing ys with
  | nil => simp [eq_comm]
  | cons x xs ih =>
      simp only [List.mapM_cons, Option.bind_eq_bind, Option.bind_eq_some_iff, Option.pure_def, ih,
        List.forall₂_cons_left_iff, Option.some.injEq]
      constructor
      · rintro ⟨y, hy, ys, hys, rfl⟩
        exact ⟨y, ys, hy, hys, rfl⟩
      · rintro ⟨y, ys, hy, hys, rfl⟩
        exact ⟨y, hy, ys, hys, rfl⟩

/-- What a variable denotes at top level. -/
def Env.topLevel? (globals : Env) (x : Ident) : Option Atom :=
  if x.isToken then some .void else globals.get? x

/-- The bytes of an argument that is a string. -/
def Arg.bytes? : Arg → Option (List UInt8)
  | .lit (.string bytes) => some bytes
  | _ => none

/-- The strings that are entered when a right-hand side is built, in order. -/
def Rhs.literals : Rhs → List (List UInt8)
  | .closure _ _ => []
  | .con _ args => args.filterMap Arg.bytes?

/-- The atom of an argument, given what variables denote and the numbers of the literals. -/
def Arg.atom? (lookup : Ident → Option Atom) (number : List UInt8 → Option Nat) : Arg → Option Atom
  | .var x => lookup x
  | .lit (.string bytes) => (number bytes).map fun id => .str ⟨id, 0⟩
  | .lit l => l.atom?

/-- The object of a right-hand side, given what variables denote and the numbers of the literals. -/
def Rhs.object? (lookup : Ident → Option Atom) (number : List UInt8 → Option Nat) (name : Ident) :
    Rhs → Option Object
  | .closure freeVars lambda =>
    (freeVars.mapM lookup).map fun atoms =>
      .closure (.ofLambda name lambda (.ofList (freeVars.zip atoms)))
  | .con k args => (args.mapM (Arg.atom? lookup number)).map (.con k)

section Numbers

variable {lookup : Ident → Option Atom} {number number' : List UInt8 → Option Nat}
  (h : ∀ bytes id, number bytes = some id → number' bytes = some id)
include h

/-- An atom stays the same when more literals have numbers. -/
theorem Arg.atom?_mono {arg : Arg} {a : Atom} (ha : arg.atom? lookup number = some a) :
    arg.atom? lookup number' = some a := by
  cases arg with
  | var x => exact ha
  | lit l =>
      cases l with
      | string bytes =>
          obtain ⟨id, hid, rfl⟩ := Option.map_eq_some_iff.1 ha
          exact Option.map_eq_some_iff.2 ⟨id, h bytes id hid, rfl⟩
      | int | word | char | float | double | nullAddr => exact ha

/-- An object stays the same when more literals have numbers. -/
theorem Rhs.object?_mono {name : Ident} {rhs : Rhs} {o : Object}
    (ho : rhs.object? lookup number name = some o) : rhs.object? lookup number' name = some o := by
  cases rhs with
  | closure freeVars lambda => exact ho
  | con k args =>
      obtain ⟨atoms, hatoms, rfl⟩ := Option.map_eq_some_iff.1 ho
      have hatoms' := (mapM_eq_some.1 hatoms).imp fun _ _ ha => Arg.atom?_mono h ha
      exact Option.map_eq_some_iff.2 ⟨atoms, mapM_eq_some.2 hatoms', rfl⟩

end Numbers

/-! ## Loading -/

/-- The literals of some bindings, in order. -/
def literalsOf (pairs : List (Ident × Rhs)) : List (List UInt8) := pairs.flatMap fun pair => pair.2.literals

/-- The objects of some bindings, given what top-level variables denote and the numbers of the literals. -/
def objectsOf (globals : Env) (strings : StringTable) (pairs : List (Ident × Rhs)) : List (Option Object) :=
  pairs.map fun pair => pair.2.object? globals.topLevel? strings.number? pair.1

namespace Exec

variable {s t : State}

/-- An argument becomes the atom that it has in the table afterwards. -/
theorem argument_eq_ok_atom? {arg : Arg} {a : Atom} (h : argument arg s = .ok a t) :
    t = s.withStrings (s.strings.internAll arg.bytes?.toList) ∧
      arg.atom? s.lookup? t.strings.number? = some a := by
  cases arg with
  | var x =>
      obtain ⟨hx, rfl⟩ := resolve_eq_ok.1 h
      exact ⟨rfl, hx⟩
  | lit l =>
      cases l with
      | string bytes =>
          obtain ⟨p, u, hp, hu⟩ := bind_eq_ok.1 h
          obtain ⟨rfl, rfl⟩ := pure_eq_ok.1 hu
          obtain ⟨rfl, rfl⟩ : p = (s.strings.intern bytes).1 ∧
              u = s.withStrings (s.strings.intern bytes).2 := by
            cases hp
            exact ⟨rfl, rfl⟩
          obtain ⟨id, hptr, hnumber⟩ := s.strings.exists_number?_intern bytes
          refine ⟨rfl, Option.map_eq_some_iff.2 ⟨id, hnumber, ?_⟩⟩
          rw [hptr]
      | int | word | char | float | double | nullAddr =>
          obtain ⟨rfl, rfl⟩ := pure_eq_ok.1 h
          exact ⟨rfl, rfl⟩

/-- Arguments become the atoms that they have in the table afterwards. -/
theorem arguments_eq_ok_atom? {args : List Arg} {atoms : List Atom}
    (h : arguments args s = .ok atoms t) :
    t = s.withStrings (s.strings.internAll (args.filterMap Arg.bytes?)) ∧
      args.mapM (Arg.atom? s.lookup? t.strings.number?) = some atoms := by
  rw [mapM_eq_some]
  induction args generalizing s atoms with
  | nil =>
      obtain ⟨rfl, rfl⟩ := pure_eq_ok.1 h
      exact ⟨rfl, .nil⟩
  | cons arg args ih =>
      rw [arguments_cons, bind_eq_ok] at h
      obtain ⟨a, u, ha, h⟩ := h
      obtain ⟨rest, v, hrest, h⟩ := bind_eq_ok.1 h
      obtain ⟨rfl, rfl⟩ := pure_eq_ok.1 h
      obtain ⟨rfl, hatom⟩ := argument_eq_ok_atom? ha
      obtain ⟨rfl, hatoms⟩ := ih hrest
      have hstrings : (s.strings.internAll arg.bytes?.toList).internAll (args.filterMap Arg.bytes?) =
          s.strings.internAll ((arg :: args).filterMap Arg.bytes?) := by
        rw [← StringTable.internAll_append, List.filterMap_cons]
        cases arg.bytes? with
        | none => rfl
        | some bytes => rfl
      refine ⟨?_, .cons ?_ hatoms⟩
      · exact congrArg s.withStrings hstrings
      · exact Arg.atom?_mono (fun _ _ => StringTable.number?_internAll) hatom

/-- A right-hand side becomes the object that it has in the table afterwards. -/
theorem build_eq_ok_object? {name : Ident} {rhs : Rhs} {o : Object} (h : build name rhs s = .ok o t) :
    t = s.withStrings (s.strings.internAll rhs.literals) ∧
      rhs.object? s.lookup? t.strings.number? name = some o := by
  cases rhs with
  | closure freeVars lambda =>
      obtain ⟨env, u, henv, h⟩ := bind_eq_ok.1 h
      obtain ⟨rfl, rfl⟩ := pure_eq_ok.1 h
      obtain ⟨rfl, atoms, hatoms, rfl⟩ := capture_eq_ok henv
      exact ⟨rfl, Option.map_eq_some_iff.2 ⟨atoms, mapM_eq_some.2 hatoms, rfl⟩⟩
  | con k args =>
      obtain ⟨atoms, u, hatoms, h⟩ := bind_eq_ok.1 h
      obtain ⟨rfl, rfl⟩ := pure_eq_ok.1 h
      obtain ⟨ht, hall⟩ := arguments_eq_ok_atom? hatoms
      exact ⟨ht, Option.map_eq_some_iff.2 ⟨atoms, hall, rfl⟩⟩

/-- The members of a program that is declared become the objects that they have in the table afterwards. -/
theorem define_eq_ok_objectsOf {pairs : List (Ident × Rhs)} {u : Unit}
    (h : define (fun x rhs => within x .empty (build x rhs)) (numbered s.heap.size pairs)
      (s.grow (List.replicate pairs.length none)) = .ok u t) :
    t = (s.withStrings (s.strings.internAll (literalsOf pairs))).grow
      (objectsOf s.globals (s.strings.internAll (literalsOf pairs)) pairs) := by
  induction pairs generalizing s with
  | nil =>
      obtain ⟨-, rfl⟩ := pure_eq_ok.1 h
      rfl
  | cons pair rest ih =>
      obtain ⟨x, rhs⟩ := pair
      rw [define_cons, bind_eq_ok] at h
      obtain ⟨o, _, ho, h⟩ := h
      obtain ⟨v, hv, rfl⟩ := within_eq_ok ho
      obtain ⟨rfl, hobject⟩ := build_eq_ok_object? hv
      have hstrings : s.strings.internAll (literalsOf ((x, rhs) :: rest)) =
          (s.strings.internAll rhs.literals).internAll (literalsOf rest) :=
        StringTable.internAll_append ..
      rw [hstrings]
      -- The literals of the first member keep their numbers while the others are built.
      have hhead : rhs.object? s.globals.topLevel?
          ((s.strings.internAll rhs.literals).internAll (literalsOf rest)).number? x = some o :=
        Rhs.object?_mono (fun _ _ => StringTable.number?_internAll) hobject
      have hstored := store_member s (s.strings.internAll rhs.literals) o rest.length
      have hrest := (bind_of_ok hstored).symm.trans h
      have htail := ih (s := (s.withStrings (s.strings.internAll rhs.literals)).grow [some o])
        (by rw [State.heap_size_grow]; exact hrest)
      rw [objectsOf, List.map_cons, hhead, ← List.singleton_append, ← State.grow_grow]
      exact htail

/-- Top-level bindings become the objects that they have in the table afterwards. -/
theorem allocateGlobals_eq_ok_objectsOf {pairs : List (Ident × Rhs)} {u : Unit}
    (h : allocateGlobals pairs s = .ok u t) :
    t = ((declared s pairs).withStrings (s.strings.internAll (literalsOf pairs))).grow
      (objectsOf (declared s pairs).globals (s.strings.internAll (literalsOf pairs)) pairs) := by
  rw [allocateGlobals, bind_of_ok (declare_global pairs s)] at h
  exact define_eq_ok_objectsOf (s := declared s pairs) h

end Exec

/-- Every entry of the first of two related lists has its partner in the second. -/
theorem exists_right_of_forall₂ {α β : Type} {R : α → β → Prop} {xs : List α} {ys : List β}
    (h : List.Forall₂ R xs ys) {x : α} (hx : x ∈ xs) : ∃ y, R x y := by
  obtain ⟨y, -, hy⟩ := exists_mem_of_forall₂ h.flip x hx
  exact ⟨y, hy⟩

/-- A right-hand side is built only if its variables denote something. -/
theorem Rhs.Builds.isSome_lookup {lookup : Ident → Option Atom} {name : Ident} {rhs : Rhs} {o : Object}
    (h : rhs.Builds lookup name o) {x : Ident} (hx : x ∈ rhs.vars) : (lookup x).isSome := by
  cases rhs with
  | closure freeVars lambda =>
      obtain ⟨env, ⟨atoms, hatoms, -⟩, -⟩ := h
      obtain ⟨a, ha⟩ := exists_right_of_forall₂ hatoms hx
      exact Option.isSome_of_eq_some ha
  | con k args =>
      obtain ⟨atoms, hatoms, -⟩ := h
      obtain ⟨arg, harg, hvar⟩ := List.mem_filterMap.1 hx
      obtain ⟨a, ha⟩ := exists_right_of_forall₂ hatoms harg
      cases arg with
      | lit l => cases hvar
      | var y =>
          cases hvar
          exact Option.isSome_of_eq_some ha

/-- Every variable that a top-level right-hand side captures or passes to its constructor is a token or
bound at top level. -/
def Program.Closed (p : Program) : Prop :=
  ∀ pair ∈ p.pairs, ∀ x ∈ pair.2.vars, x.isToken ∨ x.key ∈ p.tops

/-- A variable denotes something where a program is declared exactly if it is a token or bound by it. -/
theorem Program.isSome_lookup?_declared (p : Program) (config : Config) (host : Host) (name x : Ident) :
    (((Exec.declared (Machine.new config host).state p.pairs).enterScope name .empty).lookup? x).isSome ↔
      x.isToken ∨ x.key ∈ p.tops := by
  have hglobals : ((Exec.declared (Machine.new config host).state p.pairs).globals.find? x.key).isSome ↔
      x.key ∈ p.tops := by
    rw [Exec.declared, Env.isSome_find?_extend, map_fst_references]
    refine or_iff_left fun hfound => ?_
    cases hfound
  rw [← hglobals, State.lookup?]
  split
  · next htoken => simp [htoken]
  · next htoken =>
    rw [or_iff_right htoken]
    rfl

/-- A program can be loaded into a fresh machine exactly if it is closed. -/
theorem Program.load_eq_ok_iff (p : Program) (config : Config) (host : Host) :
    (∃ m, Machine.load p (.new config host) = .ok () m) ↔ p.Closed := by
  cases hallocates : Exec.allocateGlobals p.pairs (Machine.new config host).state with
  | ok u t =>
      refine ⟨fun _ => ?_, fun _ => ⟨_, Machine.load_of_ok hallocates⟩⟩
      intro pair hpair x hx
      obtain ⟨_, _, hbuilds, -⟩ := Exec.allocateGlobals_eq_ok hallocates
      obtain ⟨o, ho⟩ := exists_right_of_forall₂ hbuilds hpair
      exact (p.isSome_lookup?_declared config host pair.1 x).1 (ho.isSome_lookup hx)
  | error e t =>
      constructor
      · rintro ⟨m, hload⟩
        rw [Machine.load_of_error hallocates] at hload
        cases hload
      · intro hclosed
        obtain ⟨_, done, x, rhs, rest, _, hpairs, _, _, y, hy, hmissing, _⟩ :=
          Exec.allocateGlobals_eq_error hallocates
        have hbound := (p.isSome_lookup?_declared config host x y).2
          (hclosed (x, rhs) (by simp [hpairs]) y hy)
        rw [hmissing] at hbound
        cases hbound

/-- The table of literals that a program leaves behind in a fresh machine. -/
def Program.strings (p : Program) : StringTable := StringTable.internAll {} (literalsOf p.pairs)

/-- The top-level environment that a program leaves behind in a fresh machine. -/
def Program.globals (p : Program) : Env := .ofList (references 0 p.pairs)

/-- The state that a program leaves behind in a fresh machine. -/
def Program.loaded (p : Program) (config : Config) : State :=
  { State.ofConfig config with globals := p.globals, strings := p.strings }.grow
    (objectsOf p.globals p.strings p.pairs)

/-- The heap of the loaded state holds the objects of the bindings, in order. -/
theorem Program.heap_loaded (p : Program) (config : Config) :
    (p.loaded config).heap = (objectsOf p.globals p.strings p.pairs).toArray :=
  Array.empty_append

/-- Loading a program into a fresh machine leaves the loaded state behind. -/
theorem Program.eq_of_load {p : Program} {config : Config} {host : Host} {m : Machine}
    (h : Machine.load p (.new config host) = .ok () m) :
    m = { Machine.new config host with state := p.loaded config, entry := some p.entry } := by
  cases hallocates : Exec.allocateGlobals p.pairs (Machine.new config host).state with
  | error e t =>
      rw [Machine.load_of_error hallocates] at h
      cases h
  | ok u t =>
      have hfresh : (Machine.new config host).state = .ofConfig config := by
        rw [Machine.new, Machine.withRegistry]
      have hstate : t = p.loaded config := by
        rw [Exec.allocateGlobals_eq_ok_objectsOf hallocates, hfresh]
        rfl
      rw [Machine.load_of_ok hallocates, hstate] at h
      exact (EStateM.Result.ok.inj h).2.symm

end Spineless
