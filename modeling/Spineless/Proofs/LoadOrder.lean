import Mathlib.Logic.Equiv.Basic
import Spineless.Proofs.Loading
import Spineless.Proofs.Simulation

/-!
# The order of top-level bindings

Programs with the same top-level bindings in another order, grouped in whatever way, are loaded into states
that differ in names only: the bindings have other addresses and the literals other numbers. From there on
the two machines run alike, so the order does not matter (`Program.order_irrelevant`).
-/

namespace Spineless

variable {host : Host}

/-! ## Places in a list -/

/-- Moves every number but 0, as the number before it is moved. -/
def permSucc (π : Equiv.Perm Nat) : Equiv.Perm Nat where
  toFun
    | 0 => 0
    | i + 1 => π i + 1
  invFun
    | 0 => 0
    | i + 1 => π.symm i + 1
  left_inv i := by cases i <;> simp
  right_inv i := by cases i <;> simp

/-- The entries of a list in another order are at other places; places behind the list stay. -/
theorem exists_perm_of_perm {α : Type} {xs ys : List α} (h : xs.Perm ys) :
    ∃ π : Equiv.Perm Nat, (∀ i, ys[π i]? = xs[i]?) ∧ ∀ i, xs.length ≤ i → π i = i := by
  induction h with
  | nil => exact ⟨.refl Nat, fun _ => rfl, fun _ _ => rfl⟩
  | cons x _ ih =>
      obtain ⟨π, hentry, hbehind⟩ := ih
      refine ⟨permSucc π, fun i => ?_, fun i hi => ?_⟩
      · cases i with
        | zero => rfl
        | succ i => exact hentry i
      · cases i with
        | zero => rfl
        | succ i => exact congrArg (· + 1) (hbehind i (Nat.le_of_succ_le_succ hi))
  | swap x y rest =>
      refine ⟨Equiv.swap 0 1, fun i => ?_, fun i hi => ?_⟩
      · rcases i with _ | _ | i
        · rfl
        · rfl
        · rw [Equiv.swap_apply_of_ne_of_ne (by omega) (by omega)]
          rfl
      · rw [List.length_cons, List.length_cons] at hi
        exact Equiv.swap_apply_of_ne_of_ne (by omega) (by omega)
  | trans hfirst _ ih₁ ih₂ =>
      obtain ⟨π₁, hentry₁, hbehind₁⟩ := ih₁
      obtain ⟨π₂, hentry₂, hbehind₂⟩ := ih₂
      refine ⟨π₁.trans π₂, fun i => (hentry₂ (π₁ i)).trans (hentry₁ i), fun i hi => ?_⟩
      rw [Equiv.trans_apply, hbehind₁ i hi, hbehind₂ i (hfirst.length_eq ▸ hi)]

/-- Tables with the same literals differ in the numbers. -/
theorem StringTable.exists_renamed {t u : StringTable} (ht : t.literals.toList.Nodup)
    (hu : u.literals.toList.Nodup) (hmem : ∀ bytes, bytes ∈ t.literals ↔ bytes ∈ u.literals) :
    ∃ σ, t.Renamed σ u := by
  have hperm : t.literals.toList.Perm u.literals.toList := by
    rw [List.perm_ext_iff_of_nodup ht hu]
    intro bytes
    rw [Array.mem_toList_iff, Array.mem_toList_iff]
    exact hmem bytes
  obtain ⟨σ, hentry, hbehind⟩ := exists_perm_of_perm hperm
  have hresolve : ∀ i, u.resolve? (σ i) = t.resolve? i := fun i => by
    rw [resolve?, resolve?, ← Array.getElem?_toList, ← Array.getElem?_toList]
    exact hentry i
  refine ⟨σ, hperm.length_eq.symm, hresolve, fun bytes => ?_, hbehind⟩
  refine Option.ext fun j => ?_
  rw [number?_eq_some_iff hu, Option.map_eq_some_iff]
  constructor
  · intro hj
    refine ⟨σ.symm j, ?_, σ.apply_symm_apply j⟩
    rw [number?_eq_some_iff ht, ← hresolve, σ.apply_symm_apply, hj]
  · rintro ⟨i, hi, rfl⟩
    rw [hresolve, ← number?_eq_some_iff ht, hi]

/-! ## What variables denote -/

theorem getElem?_references (start : Addr) (pairs : List (Ident × Rhs)) (i : Nat) :
    (references start pairs)[i]? = (pairs[i]?).map fun pair => (pair.1, .ptr (start + i)) := by
  induction pairs generalizing start i with
  | nil => rfl
  | cons pair rest ih =>
      cases i with
      | zero => rfl
      | succ i =>
          rw [references, List.getElem?_cons_succ, ih, List.getElem?_cons_succ, Nat.add_assoc,
            Nat.add_comm 1 i]

/-- Variables with different keys are bound to their atoms, in whatever order they are bound. -/
theorem Env.find?_extend_of_mem {e : Env} {pairs : List (Ident × Atom)} {pair : Ident × Atom}
    (hkeys : (keys (pairs.map Prod.fst)).Nodup) (h : pair ∈ pairs) :
    (e.extend pairs).find? pair.1.key = some pair.2 := by
  induction pairs generalizing e with
  | nil => exact absurd h List.not_mem_nil
  | cons first rest ih =>
      obtain ⟨hfirst, hrest⟩ := List.nodup_cons.1 hkeys
      have hextend : e.extend (first :: rest) = (e.bind first.1 first.2).extend rest := rfl
      rw [hextend]
      rcases List.mem_cons.1 h with rfl | h
      · rw [Env.find?_extend_of_notMem hfirst, Env.bind, Env.find?_insert, if_pos rfl]
      · exact ih hrest h

/-! ## Objects under other names -/

/-- Mapping a list by a partial function and then by a total one. -/
theorem mapM_map {α β γ : Type} (f : α → Option β) (g : β → γ) (xs : List α) :
    (xs.mapM fun x => (f x).map g) = (xs.mapM f).map (List.map g) := by
  induction xs with
  | nil => rfl
  | cons x xs ih =>
      rw [List.mapM_cons, List.mapM_cons, ih]
      cases f x with
      | none => rfl
      | some y =>
          cases xs.mapM f with
          | none => rfl
          | some ys => rfl

/-- A closure captures the new names of what it captured. -/
theorem Renaming.closure_ofPerms (π σ : Equiv.Perm Nat) (name : Ident) (lambda : Lambda)
    (freeVars : List Ident) (atoms : List Atom) :
    (ofPerms π σ).closure (.ofLambda name lambda (.ofList (freeVars.zip atoms))) =
      .ofLambda name lambda (.ofList (freeVars.zip (atoms.map (ofPerms π σ).atom))) := by
  obtain ⟨params, body⟩ := lambda
  have hlambda : (ofPerms π σ).lambda ⟨params, body⟩ = ⟨params, body⟩ := by
    rw [Renaming.lambda, map_ident_eq_self rfl, expr_eq_self rfl]
  have hzip : freeVars.zip (atoms.map (ofPerms π σ).atom) =
      (freeVars.zip atoms).map fun pair => (pair.1, (ofPerms π σ).atom pair.2) :=
    List.zip_map_right ..
  rw [closure, Closure.ofLambda, Closure.ofLambda, hlambda, Env.ofList, Env.ofList, env_extend, hzip]
  rfl

section Renamed

variable {π σ : Equiv.Perm Nat} {lookup lookup' : Ident → Option Atom}
  {number number' : List UInt8 → Option Nat}
  (hlookup : ∀ x, lookup' x = (lookup x).map (Renaming.ofPerms π σ).atom)
  (hnumber : ∀ bytes, number' bytes = (number bytes).map σ)
include hlookup hnumber

/-- Where variables and literals have other names, so have arguments. -/
theorem Arg.atom?_renamed (arg : Arg) :
    arg.atom? lookup' number' = (arg.atom? lookup number).map (Renaming.ofPerms π σ).atom := by
  cases arg with
  | var x => exact hlookup x
  | lit l =>
      cases l with
      | string bytes =>
          rw [atom?, atom?, hnumber, Option.map_map, Option.map_map]
          rfl
      | int | word | char | float | double | nullAddr => rfl

/-- Where variables and literals have other names, so have objects. -/
theorem Rhs.object?_renamed (name : Ident) (rhs : Rhs) :
    rhs.object? lookup' number' name =
      (rhs.object? lookup number name).map (Renaming.ofPerms π σ).object := by
  cases rhs with
  | closure freeVars lambda =>
      rw [object?, object?, funext hlookup, mapM_map, Option.map_map, Option.map_map]
      refine congrFun (congrArg Option.map (funext fun atoms => ?_)) _
      exact congrArg Object.closure (Renaming.closure_ofPerms π σ name lambda freeVars atoms).symm
  | con k args =>
      rw [object?, object?, funext (Arg.atom?_renamed hlookup hnumber), mapM_map, Option.map_map,
        Option.map_map]
      rfl

end Renamed

/-- Empty spaces hold nothing that could have another name. -/
theorem Renaming.spaces_empty (ρ : Renaming) : ρ.spaces {} = {} := by
  simp [spaces]

/-! ## Loaded states -/

section Perm

variable {p q : Program} (hpairs : p.pairs.Perm q.pairs)
include hpairs

theorem Program.tops_perm : p.tops.Perm q.tops := (hpairs.map Prod.fst).map Ident.key

/-- Programs with the same bindings are closed or not together. -/
theorem Program.closed_of_perm (h : p.Closed) : q.Closed := by
  intro pair hpair x hx
  exact (h pair (hpairs.mem_iff.2 hpair) x hx).imp_right (tops_perm hpairs).mem_iff.1

/-- Programs with the same bindings have the same literals. -/
theorem Program.exists_strings_renamed : ∃ σ, p.strings.Renamed σ q.strings := by
  refine StringTable.exists_renamed (StringTable.nodup_internAll .nil)
    (StringTable.nodup_internAll .nil) fun bytes => ?_
  rw [strings, strings, StringTable.mem_internAll, StringTable.mem_internAll, literalsOf, literalsOf,
    (hpairs.flatMap_right _).mem_iff]

end Perm

/-- A top-level variable is bound to the place of its binding. -/
theorem Program.find?_globals {p : Program} (hkeys : p.tops.Nodup) {i : Nat} {pair : Ident × Rhs}
    (h : p.pairs[i]? = some pair) : p.globals.find? pair.1.key = some (.ptr i) := by
  have hrefs : (references 0 p.pairs)[i]? = some (pair.1, .ptr i) := by
    rw [getElem?_references, h, Nat.zero_add]
    rfl
  have hkeys' : (keys ((references 0 p.pairs).map Prod.fst)).Nodup := by
    rw [map_fst_references]
    exact hkeys
  exact Env.find?_extend_of_mem hkeys' (List.mem_of_getElem? hrefs)

theorem Program.find?_globals_of_notMem {p : Program} {key : String} (h : key ∉ p.tops) :
    p.globals.find? key = none := by
  have hkey : key ∉ keys ((references 0 p.pairs).map Prod.fst) := by
    rw [map_fst_references]
    exact h
  exact Env.find?_extend_of_notMem hkey

/-- A top-level variable is bound in both programs to the place of its binding, or in neither. -/
theorem Program.find?_globals_of_perm {p q : Program} (hpairs : p.pairs.Perm q.pairs)
    (hkeys : p.tops.Nodup) {π σ : Equiv.Perm Nat} (hplace : ∀ i, q.pairs[π i]? = p.pairs[i]?)
    (key : String) :
    q.globals.find? key = (p.globals.find? key).map (Renaming.ofPerms π σ).atom := by
  have hkeys' : q.tops.Nodup := (tops_perm hpairs).nodup_iff.1 hkeys
  by_cases htop : key ∈ p.tops
  · obtain ⟨x, hx, rfl⟩ := List.mem_map.1 htop
    obtain ⟨pair, hpair, rfl⟩ := List.mem_map.1 hx
    obtain ⟨i, hi⟩ := List.mem_iff_getElem?.1 hpair
    rw [find?_globals hkeys hi, find?_globals hkeys' ((hplace i).trans hi)]
    rfl
  · rw [find?_globals_of_notMem htop,
      find?_globals_of_notMem (mt (tops_perm hpairs).mem_iff.2 htop), Option.map_none]

/-- Programs with the same bindings, no two of them with the same key, in whatever order, leave states
behind that differ in names only. -/
theorem Program.exists_loaded_renamed {p q : Program} (hpairs : p.pairs.Perm q.pairs)
    (hkeys : p.tops.Nodup) (config : Config) :
    ∃ π σ, (p.loaded config).Renamed (.ofPerms π σ) (q.loaded config) := by
  obtain ⟨π, hplace, hbehind⟩ := exists_perm_of_perm hpairs
  obtain ⟨σ, hstrings⟩ := exists_strings_renamed hpairs
  have hglobals : ∀ key, q.globals.find? key =
      (p.globals.find? key).map (Renaming.ofPerms π σ).atom :=
    find?_globals_of_perm hpairs hkeys hplace
  have htopLevel : ∀ x, q.globals.topLevel? x =
      (p.globals.topLevel? x).map (Renaming.ofPerms π σ).atom := by
    intro x
    rw [Env.topLevel?, Env.topLevel?, Env.get?, Env.get?, hglobals]
    split
    · rfl
    · rfl
  have hsize : ∀ r : Program, (r.loaded config).heap.size = r.pairs.length := by
    intro r
    rw [heap_loaded, List.size_toArray, objectsOf, List.length_map]
  have hobject : ∀ pair : Ident × Rhs,
      pair.2.object? q.globals.topLevel? q.strings.number? pair.1 =
        (pair.2.object? p.globals.topLevel? p.strings.number? pair.1).map
          (Renaming.ofPerms π σ).object :=
    fun pair => Rhs.object?_renamed htopLevel hstrings.number? pair.1 pair.2
  refine ⟨π, σ, ?_⟩
  exact {
    heap_size := by rw [hsize, hsize, hpairs.length_eq]
    slot := fun a => by
      -- The binding that moves from one place to another has the same object there, under new names.
      rw [heap_loaded, heap_loaded, List.getElem?_toArray, List.getElem?_toArray, objectsOf, objectsOf,
        List.getElem?_map, List.getElem?_map, Option.map_map]
      exact (congrArg _ (hplace a)).trans (congrFun (congrArg Option.map (funext hobject)) _)
    fresh := fun a ha => hbehind a (hsize p ▸ ha)
    globals := hglobals
    strings := hstrings
    spaces := (Renaming.ofPerms π σ).spaces_empty.symm
    thread := rfl }

/-! ## Running -/

/-- Outcomes that are the same up to names: both calls are still going, or both came back after as many
transitions with the same values or with the same cause and trace, and left the same behind. -/
inductive Outcome.Renamed (ρ : Renaming) :
    Option (Outcome Machine (List Atom)) → Option (Outcome Machine (List Atom)) → Prop
  /-- Both are still going. -/
  | running : Renamed ρ none none
  /-- Both return. -/
  | returned {atoms : List Atom} {m n : Machine} (steps : n.steps = m.steps)
      (store : m.state.Renamed ρ n.state) :
      Renamed ρ (some (.ok atoms m)) (some (.ok (atoms.map ρ.atom) n))
  /-- Both fail. -/
  | failed {e f : Fault} {m n : Machine} (cause : f.cause = ρ.cause e.cause) (trace : f.trace = e.trace)
      (steps : n.steps = m.steps) (store : m.state.Renamed ρ n.state) :
      Renamed ρ (some (.error e m)) (some (.error f n))

/-- Two returns that are the same up to names. -/
theorem Outcome.Renamed.of_returned {ρ : Renaming} {atoms atoms' : List Atom} {m n : Machine}
    (h : Outcome.Renamed ρ (some (.ok atoms m)) (some (.ok atoms' n))) :
    atoms' = atoms.map ρ.atom ∧ n.steps = m.steps ∧ m.state.Renamed ρ n.state := by
  cases h with
  | returned hsteps hstore => exact ⟨rfl, hsteps, hstore⟩

/-- Calls on machines that counted alike. -/
theorem Coupling.Calls.renamed {π σ : Equiv.Perm Nat} {limit : Nat} {m n : Machine}
    {x y : Option (Outcome Machine (List Atom))}
    (h : (ofPerms π σ [] 0 limit).Calls (List.map (Renaming.ofPerms π σ).atom) m n x y)
    (hsteps : n.steps = m.steps) (hcount : n.count = m.count) :
    Outcome.Renamed (.ofPerms π σ) x y := by
  cases h with
  | running => exact .running
  | refused hstore hfaults =>
      exact .failed (hfaults.cause.trans (cause_eq _ rfl _)) hfaults.trace hsteps hstore
  | returned k hstore =>
      refine .returned ?_ { hstore with }
      change tick^[k] n.count = tick^[k] m.count
      rw [hcount]
  | failed k hstore hfaults =>
      refine .failed (hfaults.cause.trans (cause_eq _ rfl _)) hfaults.trace ?_ { hstore with }
      change tick^[k] n.count = tick^[k] m.count
      rw [hcount]
  | overflow hspare => exact absurd hspare (Nat.lt_irrefl 0)

/-- Machines in loaded states that differ in names only, with corresponding entries. -/
theorem Coupling.loaded_machines {p q : Program} {config : Config} {π σ : Equiv.Perm Nat}
    (h : (p.loaded config).Renamed (.ofPerms π σ) (q.loaded config)) (hentry : q.entry = p.entry)
    {m : Machine} (hregistry : m.registry = .standard host) :
    (ofPerms π σ [] 0 config.traceLimit).Machines
      { m with state := p.loaded config, entry := some p.entry }
      { m with state := q.loaded config, entry := some q.entry } where
  states := {
    store := h
    limit := rfl
    limit' := rfl
    depth := rfl
    frames := .bottom
    trace := rfl
    scope := fun _ => ⟨rfl, rfl⟩ }
  entry := congrArg some hentry
  registry := ⟨host, hregistry⟩
  registry' := rfl
  budget := rfl
  count := .inl rfl

section Order

variable {p q : Program} {config : Config}

/-- Machines that loaded the same bindings run the same entry alike. -/
theorem Program.exists_runEntry_renamed (hpairs : p.pairs.Perm q.pairs) (hkeys : p.tops.Nodup)
    (hentry : q.entry = p.entry) {m n : Machine} (hp : Machine.load p (.new config host) = .ok () m)
    (hq : Machine.load q (.new config host) = .ok () n) :
    ∃ π σ, m.state.Renamed (.ofPerms π σ) n.state ∧
      ∀ fuel, Outcome.Renamed (.ofPerms π σ) (m.runEntry fuel) (n.runEntry fuel) := by
  obtain ⟨π, σ, hstore⟩ := exists_loaded_renamed hpairs hkeys config
  have hregistry : (Machine.new config host).registry = .standard host := by
    rw [Machine.new, Machine.withRegistry]
  rw [eq_of_load hp, eq_of_load hq]
  -- Only the primitive operations of the fresh machine matter, and that they are the same.
  generalize Machine.new config host = fresh at hregistry
  have hmachines := Coupling.loaded_machines hstore hentry hregistry
  exact ⟨π, σ, hstore, fun fuel => (hmachines.runEntry fuel).renamed rfl rfl⟩

/-- The order of top-level bindings does not matter. Take two programs with the same entry and the same
bindings, no two of them with the same key, in another order and grouped in another way. Both can be loaded
into a fresh machine if the variables that they mention are tokens or bound at top level, and neither can
otherwise. Once loaded, they run alike up to the addresses of objects and the numbers of literals. -/
theorem Program.order_irrelevant (hpairs : p.pairs.Perm q.pairs) (hkeys : p.tops.Nodup)
    (hentry : q.entry = p.entry) (config : Config) (host : Host) :
    ((∃ m, Machine.load p (.new config host) = .ok () m) ↔ p.Closed) ∧
    ((∃ n, Machine.load q (.new config host) = .ok () n) ↔ p.Closed) ∧
    ∀ m n, Machine.load p (.new config host) = .ok () m → Machine.load q (.new config host) = .ok () n →
      ∃ π σ, m.state.Renamed (.ofPerms π σ) n.state ∧
        ∀ fuel, Outcome.Renamed (.ofPerms π σ) (m.runEntry fuel) (n.runEntry fuel) := by
  refine ⟨p.load_eq_ok_iff config host, ?_, fun m n hp hq => ?_⟩
  · rw [q.load_eq_ok_iff config host]
    exact ⟨closed_of_perm hpairs.symm, closed_of_perm hpairs⟩
  · exact exists_runEntry_renamed hpairs hkeys hentry hp hq

end Order

/-- Two constructors that hold different strings, and an entry that gives the second one back. -/
def forwards : Program :=
  let main : Ident := .ofName "main"
  let box : Ident := .ofName "box"
  let pair : Ident := .ofName "pair"
  { bindings := [
      .nonRec main (.closure [pair] ⟨[], .app pair []⟩),
      .nonRec box (.con ⟨"Box", 0, 1⟩ [.lit (.string [1])]),
      .nonRec pair (.con ⟨"Pair", 0, 2⟩ [.lit (.string [2]), .var box])]
    entry := main }

/-- The same bindings, last one first, in one group. -/
def backwards : Program := ⟨[.group forwards.pairs.reverse], forwards.entry⟩

/-- Whether an outcome is the return of one reference. -/
def Outcome.returns (a : Addr) : Outcome Machine (List Atom) → Bool
  | .ok [.ptr b] _ => b == a
  | _ => false

theorem Machine.exists_runEntry_of_runProgram {p : Program} {fresh m : Machine} {fuel : Nat} {a : Addr}
    (hload : Machine.load p fresh = .ok () m) (h : (runProgram fuel p fresh).any (Outcome.returns a)) :
    ∃ m', m.runEntry fuel = some (.ok [.ptr a] m') := by
  rw [runProgram, hload] at h
  obtain ⟨outcome, hrun, hreturns⟩ := (Option.any_eq_true _ _).1 h
  unfold Outcome.returns at hreturns
  split at hreturns
  · next b m' =>
    rw [beq_iff_eq.1 hreturns] at hrun
    exact ⟨m', hrun⟩
  · cases hreturns

/-- Both programs give the pair back, which has address 2 in one and address 0 in the other. -/
theorem Program.order_irrelevant_backwards :
    forwards.pairs.Perm backwards.pairs ∧ forwards.tops.Nodup ∧ backwards.entry = forwards.entry ∧
      ∃ m n, Machine.load forwards (.new {}) = .ok () m ∧ Machine.load backwards (.new {}) = .ok () n ∧
        ∃ π σ m' n', m.runEntry 9 = some (.ok [.ptr 2] m') ∧ n.runEntry 9 = some (.ok [.ptr 0] n') ∧
          π 2 = 0 ∧ n'.steps = m'.steps ∧ m'.state.Renamed (.ofPerms π σ) n'.state := by
  have hpairs : forwards.pairs.Perm backwards.pairs := (List.reverse_perm forwards.pairs).symm
  have hkeys : forwards.tops.Nodup := by decide +kernel
  have hclosed : forwards.Closed := by
    unfold Program.Closed
    decide +kernel
  obtain ⟨hforwards, hbackwards, hruns⟩ := Program.order_irrelevant hpairs hkeys rfl {} .usual
  obtain ⟨m, hm⟩ := hforwards.2 hclosed
  obtain ⟨n, hn⟩ := hbackwards.2 hclosed
  obtain ⟨π, σ, -, hrun⟩ := hruns m n hm hn
  have hreturns : (Machine.runProgram 9 forwards (.new {})).any (Outcome.returns 2) := by decide +kernel
  have hreturns' : (Machine.runProgram 9 backwards (.new {})).any (Outcome.returns 0) := by decide +kernel
  obtain ⟨m', hm'⟩ := Machine.exists_runEntry_of_runProgram hm hreturns
  obtain ⟨n', hn'⟩ := Machine.exists_runEntry_of_runProgram hn hreturns'
  have hrenamed := hrun 9
  rw [hm', hn'] at hrenamed
  obtain ⟨hatoms, hsteps, hstore⟩ := hrenamed.of_returned
  have hplace : Atom.ptr 0 = .ptr (π 2) := (List.cons.inj hatoms).1
  exact ⟨hpairs, hkeys, rfl, m, n, hm, hn, π, σ, m', n', hm', hn', (Atom.ptr.inj hplace).symm, hsteps, hstore⟩

end Spineless
