import Mathlib.Data.List.Induction
import Spineless.Proofs.PrimOp.Standard

/-!
# The registry and the chain

Operations can be dispatched in two ways. A registry looks the name up and asks the one handler that
claims it. A chain asks the handlers one after the other, each on the state that the one before it
left, until one does not decline. `Registry.evaluateWith_ofHandlers` says that the two agree, in
whatever order the chain asks, for handlers that have no operation in common and decline the
operations they do not list.

`Registry.Serves` is what registration keeps: the handlers in order, and for every name the first
handler that lists it. Of any handlers that are offered, `accepted` are those that get in.
-/

namespace Spineless

variable {host : Host}

namespace Handler

/-- Two handlers that list no common operation. -/
def Separate (a b : Handler) : Prop := ∀ name ∈ a.operations, name ∉ b.operations

instance (a b : Handler) : Decidable (a.Separate b) :=
  inferInstanceAs (Decidable (∀ name ∈ a.operations, name ∉ b.operations))

/-- The handlers that are registered of those that are offered in this order: each that has no operation
in common with an earlier one of them. -/
def accepted (offered : List Handler) : List Handler :=
  offered.foldl (fun before handler =>
    if ∀ other ∈ before, other.Separate handler then before ++ [handler] else before) []

/-- The handler neither answers the call nor refuses it. -/
def Declines (handler : Handler) (call : Call) (s : State) : Prop :=
  ∃ t, handler.evaluate call s = .ok none t

/-- The handler has nothing to do with operations that it does not list. -/
def Modest (handler : Handler) : Prop :=
  ∀ call s, call.name ∉ handler.operations → handler.evaluate call s = .ok none s

/-- The values of a handler; if it declines, another action goes on from the state that it left. -/
def orElse (handler : Handler) (call : Call) (next : Exec (List Atom)) : Exec (List Atom) := do
  match ← handler.evaluate call with
  | some atoms => pure atoms
  | none => next

/-- Asks handlers in order, and the fallback when all of them have declined. -/
def tryInOrder (call : Call) (fallback : Call → Exec (List Atom)) : List Handler → Exec (List Atom)
  | [] => fallback call
  | handler :: rest => handler.orElse call (tryInOrder call fallback rest)

variable {handler : Handler} {chain : List Handler} {call : Call} {fallback : Call → Exec (List Atom)}

theorem Separate.symm {a b : Handler} (h : a.Separate b) : b.Separate a :=
  fun name hb ha => h name ha hb

/-- One more handler is accepted if it is separate from those accepted before. -/
theorem accepted_concat (offered : List Handler) (handler : Handler) :
    accepted (offered ++ [handler]) =
      if ∀ other ∈ accepted offered, other.Separate handler then accepted offered ++ [handler]
      else accepted offered :=
  List.foldl_append

/-- Accepted handlers are separate. -/
theorem pairwise_accepted (offered : List Handler) : (accepted offered).Pairwise Separate := by
  induction offered using List.reverseRecOn with
  | nil => exact .nil
  | append_singleton offered handler ih =>
      rw [accepted_concat]
      split
      · next hseparate =>
          refine List.pairwise_append.2 ⟨ih, List.pairwise_singleton _ _, fun other hother last hlast => ?_⟩
          rw [List.mem_singleton.1 hlast]
          exact hseparate other hother
      · exact ih

/-- Of separate handlers all are accepted. -/
theorem accepted_of_pairwise {offered : List Handler} (h : offered.Pairwise Separate) :
    accepted offered = offered := by
  induction offered using List.reverseRecOn with
  | nil => rfl
  | append_singleton offered handler ih =>
      obtain ⟨hoffered, -, hlast⟩ := List.pairwise_append.1 h
      rw [accepted_concat, ih hoffered, if_pos fun other hother => hlast other hother handler (by simp)]

/-- A handler that does not list the operation passes the call on as it is. -/
theorem orElse_of_notMem (hmodest : handler.Modest) (hname : call.name ∉ handler.operations)
    (next : Exec (List Atom)) : handler.orElse call next = next := by
  funext s
  rw [orElse, Exec.bind_of_ok (hmodest call s hname)]

/-- A chain without a handler for the operation is its fallback. -/
theorem tryInOrder_of_notMem (hmodest : ∀ handler ∈ chain, handler.Modest)
    (hname : ∀ handler ∈ chain, call.name ∉ handler.operations) :
    tryInOrder call fallback chain = fallback call := by
  induction chain with
  | nil => rfl
  | cons first rest ih =>
      obtain ⟨hfirst, hrest⟩ := List.forall_mem_cons.1 hmodest
      obtain ⟨hnotFirst, hnotRest⟩ := List.forall_mem_cons.1 hname
      rw [tryInOrder, orElse_of_notMem hfirst hnotFirst, ih hrest hnotRest]

/-- A chain of separate handlers is the one handler that lists the operation, then the fallback. -/
theorem tryInOrder_of_mem (hmodest : ∀ handler ∈ chain, handler.Modest)
    (hseparate : chain.Pairwise Separate) (hmem : handler ∈ chain)
    (hname : call.name ∈ handler.operations) :
    tryInOrder call fallback chain = handler.orElse call (fallback call) := by
  induction chain with
  | nil => cases hmem
  | cons first rest ih =>
      obtain ⟨hfirst, hrest⟩ := List.forall_mem_cons.1 hmodest
      obtain ⟨hapart, hpairs⟩ := List.pairwise_cons.1 hseparate
      rw [tryInOrder]
      cases hmem with
      | head =>
          have hnotRest : ∀ other ∈ rest, call.name ∉ other.operations :=
            fun other hother => hapart other hother _ hname
          rw [tryInOrder_of_notMem hrest hnotRest]
      | tail _ hmem =>
          have hnotFirst : call.name ∉ first.operations :=
            fun hlisted => hapart handler hmem _ hlisted hname
          rw [orElse_of_notMem hfirst hnotFirst, ih hrest hpairs hmem]

/-- A handler that matches no names but those that it lists has nothing to do with the others. -/
theorem modest_ofNames {Op : Type} {family : String} {names : List String} {ofName? : String → Option Op}
    {run : Op → Call → Exec Answer} (hlisted : ∀ name, (ofName? name).isSome → name ∈ names) :
    (ofNames family names ofName? run).Modest := by
  intro call s hname
  have hnone : ofName? call.name = none :=
    Option.not_isSome_iff_eq_none.1 fun hmatched => hname (hlisted call.name hmatched)
  rw [evaluate_ofNames_of_none hnone]
  rfl

end Handler

/-! ## Registration -/

namespace Registry

variable {r : Registry} {handlers : List Handler} {handler : Handler} {name : String}

/-- A registry holds handlers in their order, and the owner of a name is the first that lists it. -/
structure Serves (r : Registry) (handlers : List Handler) : Prop where
  handlers_eq : r.handlers.toList = handlers
  owner?_eq : ∀ name, r.owner? name = handlers.find? (·.operations.contains name)
  owners_lt : ∀ {name i}, r.owners.lookup name = some i → i < r.handlers.size

/-- The empty registry serves nobody. -/
theorem serves_empty : empty.Serves [] where
  handlers_eq := rfl
  owner?_eq _ := rfl
  owners_lt h := by cases h

/-- A name is claimed exactly when some handler lists it. -/
theorem Serves.claims_eq (h : r.Serves handlers) (name : String) :
    r.claims name = (handlers.find? (·.operations.contains name)).isSome := by
  rw [← h.owner?_eq, claims, owner?]
  cases hi : r.owners.lookup name with
  | none => rfl
  | some i => simp [h.owners_lt hi]

/-- The names of a handler are looked up at its position. -/
private theorem lookup_map_const (names : List String) (name : String) (i : Nat) :
    (names.map (·, i)).lookup name = if name ∈ names then some i else none := by
  induction names with
  | nil => rfl
  | cons first rest ih =>
      rw [List.map_cons, List.lookup_cons, ih]
      by_cases hfirst : name = first
      · simp [hfirst]
      · simp [hfirst, beq_false_of_ne hfirst]

/-- A handler that is separate from those registered is registered behind them. -/
theorem Serves.offer (h : r.Serves handlers) (hseparate : ∀ other ∈ handlers, other.Separate handler) :
    offer handler r = .ok () (r.enter handler) ∧ (r.enter handler).Serves (handlers ++ [handler]) := by
  have hfresh : handler.operations.find? r.claims = none := by
    refine List.find?_eq_none.2 fun name hname hclaims => ?_
    rw [h.claims_eq, List.find?_isSome] at hclaims
    obtain ⟨other, hother, hlisted⟩ := hclaims
    exact hseparate other hother name (by simpa using hlisted) hname
  refine ⟨by rw [offer_apply, hfresh], ?_, fun name => ?_, fun {name i} hi => ?_⟩
  · rw [enter, Array.toList_push, h.handlers_eq]
  · -- Names that were claimed keep their owner; of the others, the new handler owns those it lists.
    have hold := h.owner?_eq name
    simp only [owner?, enter, List.lookup_append, lookup_map_const, List.mem_eraseDups] at hold ⊢
    rw [List.find?_append, ← hold]
    cases hi : r.owners.lookup name with
    | some i =>
        have hlt := h.owners_lt hi
        simp [Array.getElem?_push, Nat.ne_of_lt hlt, hlt]
    | none =>
        by_cases hlisted : name ∈ handler.operations
        · simp [hlisted]
        · simp [hlisted]
  · rw [enter, Array.size_push]
    rw [enter, List.lookup_append, lookup_map_const] at hi
    cases hj : r.owners.lookup name with
    | some j =>
        have hlt := h.owners_lt hj
        simp only [hj, Option.some_or, Option.some.injEq] at hi
        omega
    | none =>
        simp only [hj, Option.none_or, Option.ite_none_right_eq_some, Option.some.injEq] at hi
        omega

/-- A handler that lists an operation of those registered is refused, for the first such operation, and
the registry stays as it is. -/
theorem Serves.offer_eq_error (h : r.Serves handlers)
    (hshared : ¬ ∀ other ∈ handlers, other.Separate handler) :
    ∃ before name after, handler.operations = before ++ name :: after ∧
      (∃ other ∈ handlers, name ∈ other.operations) ∧
      (∀ earlier ∈ before, ∀ other ∈ handlers, earlier ∉ other.operations) ∧
      Registry.offer handler r = .error { cause := .duplicatePrimOp name } r := by
  have hclaims : ∀ name, r.claims name = true ↔ ∃ other ∈ handlers, name ∈ other.operations := by
    intro name
    rw [h.claims_eq, List.find?_isSome]
    simp
  cases hfind : handler.operations.find? r.claims with
  | none =>
      refine absurd (fun other hother name hname hlisted => ?_) hshared
      exact List.find?_eq_none.1 hfind name hlisted ((hclaims name).2 ⟨other, hother, hname⟩)
  | some name =>
      obtain ⟨hclaimed, before, after, hoperations, hbefore⟩ := List.find?_eq_some_iff_append.1 hfind
      refine ⟨before, name, after, hoperations, (hclaims name).1 hclaimed, ?_, by rw [offer_apply, hfind]⟩
      intro earlier hearlier other hother hlisted
      have hfree := hbefore earlier hearlier
      rw [(hclaims earlier).2 ⟨other, hother, hlisted⟩] at hfree
      cases hfree

/-- One more handler is offered after the others. -/
theorem ofHandlers_concat (offered : List Handler) (handler : Handler) :
    ofHandlers (offered ++ [handler]) = (ofHandlers offered).afterOffer handler :=
  List.foldl_append

/-- The registry of several handlers serves those that are accepted. -/
theorem serves_accepted (offered : List Handler) :
    (ofHandlers offered).Serves (Handler.accepted offered) := by
  induction offered using List.reverseRecOn with
  | nil => exact serves_empty
  | append_singleton offered handler ih =>
      rw [ofHandlers_concat, Handler.accepted_concat]
      split
      · next hseparate =>
          obtain ⟨hoffer, hserves⟩ := ih.offer hseparate
          rw [afterOffer, hoffer]
          exact hserves
      · next hshared =>
          obtain ⟨_, _, _, _, _, _, hoffer⟩ := ih.offer_eq_error hshared
          rw [afterOffer, hoffer]
          exact ih

/-- The registry of separate handlers serves all of them. -/
theorem serves_ofHandlers (hseparate : handlers.Pairwise Handler.Separate) :
    (ofHandlers handlers).Serves handlers := by
  have hserves := serves_accepted handlers
  rwa [Handler.accepted_of_pairwise hseparate] at hserves

/-- The owner of an operation is the handler that lists it. -/
theorem Serves.owner?_of_mem (h : r.Serves handlers) (hseparate : handlers.Pairwise Handler.Separate)
    (hmem : handler ∈ handlers) (hname : name ∈ handler.operations) : r.owner? name = some handler := by
  obtain ⟨before, after, rfl⟩ := List.append_of_mem hmem
  have hbefore : before.find? (·.operations.contains name) = none := by
    refine List.find?_eq_none.2 fun other hother hlisted => ?_
    have hapart := (List.pairwise_append.1 hseparate).2.2 other hother handler List.mem_cons_self
    exact hapart name (by simpa using hlisted) hname
  rw [h.owner?_eq, List.find?_append, hbefore, List.find?_cons_of_pos (by simpa using hname)]
  rfl

/-- An operation that no handler lists has no owner. -/
theorem Serves.owner?_of_notMem (h : r.Serves handlers)
    (hname : ∀ handler ∈ handlers, name ∉ handler.operations) : r.owner? name = none := by
  rw [h.owner?_eq]
  exact List.find?_eq_none.2 fun handler hmem hlisted => hname handler hmem (by simpa using hlisted)

/-! ## The two ways to dispatch -/

variable {call : Call} {fallback : Call → Exec (List Atom)}

theorem evaluateWith_of_owner? (h : r.owner? call.name = some handler) :
    r.evaluateWith call fallback = handler.orElse call (fallback call) := by
  rw [evaluateWith, answer, h]
  rfl

theorem evaluateWith_of_owner?_eq_none (h : r.owner? call.name = none) :
    r.evaluateWith call fallback = fallback call := by
  rw [evaluateWith, answer, h]
  rfl

/-- The registry of separate and modest handlers does what every chain of them does. -/
theorem evaluateWith_ofHandlers (hmodest : ∀ handler ∈ handlers, handler.Modest)
    (hseparate : handlers.Pairwise Handler.Separate) {chain : List Handler}
    (hperm : chain.Perm handlers) :
    (ofHandlers handlers).evaluateWith call fallback = Handler.tryInOrder call fallback chain := by
  have hserves := serves_ofHandlers hseparate
  have hmodest' : ∀ handler ∈ chain, handler.Modest := fun handler hmem =>
    hmodest handler (hperm.mem_iff.1 hmem)
  by_cases hlisted : ∃ handler ∈ handlers, call.name ∈ handler.operations
  · obtain ⟨handler, hmem, hname⟩ := hlisted
    have hseparate' : chain.Pairwise Handler.Separate :=
      (hperm.pairwise_iff Handler.Separate.symm).2 hseparate
    rw [evaluateWith_of_owner? (hserves.owner?_of_mem hseparate hmem hname),
      Handler.tryInOrder_of_mem hmodest' hseparate' (hperm.mem_iff.2 hmem) hname]
  · have hname : ∀ handler ∈ handlers, call.name ∉ handler.operations := fun handler hmem hop =>
      hlisted ⟨handler, hmem, hop⟩
    rw [evaluateWith_of_owner?_eq_none (hserves.owner?_of_notMem hname),
      Handler.tryInOrder_of_notMem hmodest' fun handler hmem => hname handler (hperm.mem_iff.1 hmem)]

end Registry

/-! ## The standard families -/

namespace PrimOp

/-- No two standard families have an operation in common. -/
theorem separate_standardHandlers (host : Host) : (standardHandlers host).Pairwise Handler.Separate := by
  -- Most names differ in their size already, which is quicker to compare.
  have hnames : (standardHandlers.map Handler.operations).Pairwise fun xs ys => xs.all fun x => ys.all fun y =>
      x.utf8ByteSize != y.utf8ByteSize || x != y := by
    decide +kernel
  have hsame : standardHandlers.map Handler.operations = (standardHandlers host).map Handler.operations := rfl
  rw [hsame, List.pairwise_map] at hnames
  refine hnames.imp fun h name ha hb => ?_
  simpa using List.all_eq_true.1 (List.all_eq_true.1 h name ha) name hb

/-- A standard family declines the operations of the others. Four families match names in the table from
which they list them; the others match just what they list. -/
theorem modest_of_mem_standardHandlers {handler : Handler} (h : handler ∈ standardHandlers host) :
    handler.Modest := by
  simp only [standardHandlers, List.mem_cons, List.not_mem_nil, or_false] at h
  rcases h with rfl | rfl | rfl | rfl | rfl | rfl | rfl | rfl | rfl | rfl | rfl | rfl | rfl
  · exact Handler.modest_ofNames fun _ => Handler.mem_fst_of_isSome_lookup
  · exact Handler.modest_ofNames fun _ => Handler.mem_fst_of_isSome_lookup
  · exact Handler.modest_ofNames fun _ => IntOp.isSome_ofName?_iff.1
  · exact Handler.modest_ofNames fun _ => WordOp.isSome_ofName?_iff.1
  · exact Handler.modest_ofNames fun _ => CharOp.isSome_ofName?_iff.1
  · exact Handler.modest_ofNames fun _ => MutVarOp.isSome_ofName?_iff.1
  · exact Handler.modest_ofNames fun _ => MVarOp.isSome_ofName?_iff.1
  · exact Handler.modest_ofNames fun _ => Handler.mem_fst_of_isSome_lookup
  · exact Handler.modest_ofNames fun _ => Handler.mem_fst_of_isSome_lookup
  · exact Handler.modest_ofNames fun _ => ByteOp.isSome_ofName?_iff.1
  · exact Handler.modest_ofNames fun _ => AddrOp.isSome_ofName?_iff.1
  · exact Handler.modest_ofNames fun _ => TagOp.isSome_ofName?_iff.1
  · exact Handler.modest_ofNames fun _ => ConcurrencyOp.isSome_ofName?_iff.1

/-- A standard family that declines a call leaves the state as it is. -/
theorem eq_of_declines {handler : Handler} (h : handler ∈ standardHandlers host) {call : Call} {s t : State}
    (hdeclines : handler.evaluate call s = .ok none t) : t = s := by
  have hlawful : Lawful call s (handler.evaluate call s) := lawful_of_mem_standardHandlers h
  rw [hdeclines] at hlawful
  cases hlawful
  rfl

end PrimOp

namespace Registry

/-- The standard registry serves every standard family. -/
theorem serves_standard : (standard host).Serves (PrimOp.standardHandlers host) :=
  serves_ofHandlers (PrimOp.separate_standardHandlers host)

/-- The owner of a standard operation is the family that lists it. -/
theorem standard_owner? {handler : Handler} (hmem : handler ∈ PrimOp.standardHandlers host) {name : String}
    (hname : name ∈ handler.operations) : (standard host).owner? name = some handler :=
  serves_standard.owner?_of_mem (PrimOp.separate_standardHandlers host) hmem hname

/-- The owner of an operation is a standard family. -/
theorem mem_of_standard_owner? {handler : Handler} {name : String}
    (howner : (standard host).owner? name = some handler) : handler ∈ PrimOp.standardHandlers host := by
  rw [serves_standard.owner?_eq] at howner
  exact List.mem_of_find?_eq_some howner

/-- A standard family has nothing to do with the operations of the others, so at most one does not
decline a call. All thirteen are registered, and own what they list. Whatever the order of a chain of
them, the registry does what the chain does; when all decline, that is the fallback on the state and
the call as they were. -/
theorem standard_refines_chain :
    (∀ handler ∈ PrimOp.standardHandlers host, ∀ call s,
      ¬ handler.Declines call s → call.name ∈ handler.operations) ∧
    ((PrimOp.standardHandlers host).Pairwise fun a b => ∀ call s, a.Declines call s ∨ b.Declines call s) ∧
    ((PrimOp.standardHandlers host).length = 13 ∧
      (standard host).handlers.toList = PrimOp.standardHandlers host ∧
      ∀ handler ∈ PrimOp.standardHandlers host, ∀ name ∈ handler.operations,
        (standard host).owner? name = some handler) ∧
    ∀ chain : List Handler, chain.Perm (PrimOp.standardHandlers host) → ∀ call fallback s,
      (standard host).evaluateWith call fallback s = Handler.tryInOrder call fallback chain s ∧
      ((∀ handler ∈ chain, handler.Declines call s) →
        (standard host).evaluateWith call fallback s = fallback call s) := by
  have hmodest : ∀ handler ∈ PrimOp.standardHandlers host, handler.Modest :=
    fun _ => PrimOp.modest_of_mem_standardHandlers
  have hseparate := PrimOp.separate_standardHandlers host
  refine ⟨fun handler hmem call s hanswers => ?_, ?_, ⟨rfl, serves_standard.handlers_eq, ?_⟩, ?_⟩
  · by_contra hname
    exact hanswers ⟨s, hmodest handler hmem call s hname⟩
  · refine hseparate.imp_of_mem fun {a b} ha hb hapart call s => ?_
    by_cases hname : call.name ∈ a.operations
    · exact .inr ⟨s, hmodest b hb call s (hapart _ hname)⟩
    · exact .inl ⟨s, hmodest a ha call s hname⟩
  · exact fun handler hmem name hname => standard_owner? hmem hname
  · intro chain hperm call fallback s
    refine ⟨by rw [standard, evaluateWith_ofHandlers hmodest hseparate hperm], fun hdeclines => ?_⟩
    cases howner : (standard host).owner? call.name with
    | none => rw [evaluateWith_of_owner?_eq_none howner]
    | some handler =>
        have hmem := mem_of_standard_owner? howner
        obtain ⟨t, ht⟩ := hdeclines handler (hperm.mem_iff.2 hmem)
        rw [evaluateWith_of_owner? howner, Handler.orElse, Exec.bind_of_ok ht,
          PrimOp.eq_of_declines hmem ht]

/-- A character is written into an array of integers. -/
def charAmongInts : Call where
  name := "writeIntArray#"
  args := [.byteArray 0, .int 0, .char 'a', .void]

/-- A state with one byte array, of the size of an integer. -/
def eightBytes : State where
  traceLimit := 0
  maxStackDepth := 0
  spaces := { byteArrays := #[⟨.replicate 8 0, false⟩] }

/-- The family of byte arrays declines a value of the wrong sort when it has checked the index, and a
chain that asks the families backwards comes to the fallback as well. -/
theorem standard_refines_chain_backwards :
    PrimOp.standardHandlers.reverse.Perm PrimOp.standardHandlers ∧
    (∀ handler ∈ PrimOp.standardHandlers.reverse, handler.Declines charAmongInts eightBytes) ∧
    standard.evaluateWith charAmongInts (fun call => pure call.args) eightBytes =
      Handler.tryInOrder charAmongInts (fun call => pure call.args) PrimOp.standardHandlers.reverse
        eightBytes ∧
    standard.evaluateWith charAmongInts (fun call => pure call.args) eightBytes =
      .ok charAmongInts.args eightBytes := by
  have hdeclines : ∀ handler ∈ PrimOp.standardHandlers.reverse,
      handler.Declines charAmongInts eightBytes := by
    intro handler hmem
    rw [List.mem_reverse] at hmem
    simp only [PrimOp.standardHandlers, List.mem_cons, List.not_mem_nil, or_false] at hmem
    rcases hmem with rfl | rfl | rfl | rfl | rfl | rfl | rfl | rfl | rfl | rfl | rfl | rfl | rfl
    all_goals exact ⟨eightBytes, rfl⟩
  have hperm := List.reverse_perm PrimOp.standardHandlers
  obtain ⟨hchain, hfallback⟩ := standard_refines_chain.2.2.2 _ hperm charAmongInts
    (fun call => pure call.args) eightBytes
  exact ⟨hperm, hdeclines, hchain, hfallback hdeclines⟩

end Registry

end Spineless
