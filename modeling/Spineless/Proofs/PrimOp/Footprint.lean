import Spineless.Proofs.PrimOp.Dispatch

/-!
# What a primitive operation leaves behind

A call that fails, or that its family declines, leaves the state as it was (`standard_atomic`). A call
that is answered leaves all but one thing as it was: it allocates one constructor, counts one weak
pointer, or changes one cell of one space (`standard_confined`). It forges no reference: what its
values refer to was reached from its arguments or is what it created.

Both follow from `Answered` and `Refused`, which say what a family may do. What these leave open is
settled here: `tagToEnum#` and `mkWeakNoFinalizer#` never answer without their effect.
-/

namespace Spineless

variable {host : Host}

/-- A reference that has nothing behind it in one state and something in the other. -/
def State.Creates (s t : State) : Ref → Prop
  | .addr a => s.object? a = none ∧ (t.object? a).isSome
  | .cell space h => s.spaces.cell? space h = none ∧ (t.spaces.cell? space h).isSome

/-- What an answered call leaves behind. -/
structure Confined (call : Call) (s : State) (atoms : List Atom) (t : State) : Prop where
  /-- Environments, trace, frames, literals, limits and the current thread stay as they are. -/
  rest : t = { s with heap := t.heap, spaces := t.spaces }
  /-- Only `tagToEnum#` touches the heap: it puts a constructor without fields at its end. -/
  heap : if call.name = "tagToEnum#" then
      ∃ con : DataCon, con.arity = 0 ∧ t.heap = s.heap.push (some (.con con []))
    else t.heap = s.heap
  /-- At most one space changes: by one cell at its end, or in one cell whose handle is an argument. -/
  spaces : (∀ space h, t.spaces.cell? space h = s.spaces.cell? space h) ∨
    (∃ space cell, s.spaces.Appends t.spaces space cell) ∨
    ∃ space h cell, space.handle h ∈ call.args ∧ s.spaces.Overwrites t.spaces space h cell
  /-- Only `mkWeakNoFinalizer#` counts a weak pointer. -/
  weakPointers : t.spaces.weakPointers =
    s.spaces.weakPointers + if call.name = "mkWeakNoFinalizer#" then 1 else 0
  /-- Every reference in the values was supplied to the call or is new. -/
  refs : ∀ a ∈ atoms, ∀ ref, a.ref? = some ref → call.Supplies s.spaces ref ∨ s.Creates t ref

/-- There is no cell behind the last one. -/
theorem Spaces.cell?_count (sp : Spaces) (space : Space) : sp.cell? space (sp.count space) = none := by
  cases space <;> simp [Spaces.cell?, count]

section Answers

variable {call : Call} {s t : State} {atoms : List Atom}

/-- The references in the values of an answered call were supplied or are new. -/
theorem Answered.supplies_or_creates (h : Answered call s atoms t) :
    ∀ a ∈ atoms, ∀ ref, a.ref? = some ref → call.Supplies s.spaces ref ∨ s.Creates t ref := by
  intro a ha ref href
  cases h with
  | reply hcovers => exact .inl (hcovers a ha ref href)
  | overwritten _ _ _ hresults => exact .inl (hresults a ha ref href)
  | counted =>
      rw [List.mem_singleton.1 ha] at href
      cases href
  | allocated con =>
      rw [List.mem_singleton.1 ha] at href
      cases href
      refine .inr ⟨?_, ?_⟩
      · simp [State.object?]
      · rw [State.object?_grow_size]
        rfl
  | @appended space cell sp b happends _ hfresh =>
      rw [List.mem_singleton.1 ha, hfresh] at href
      cases href
      refine .inr ⟨s.spaces.cell?_count space, ?_⟩
      change (sp.cell? space (s.spaces.count space)).isSome
      rw [happends.cell?, if_pos ⟨rfl, rfl⟩]
      rfl

/-- An answered call changes cells in at most one place. -/
theorem Answered.spaces_cases (h : Answered call s atoms t) :
    (∀ space h, t.spaces.cell? space h = s.spaces.cell? space h) ∨
    (∃ space cell, s.spaces.Appends t.spaces space cell) ∨
    ∃ space h cell, space.handle h ∈ call.args ∧ s.spaces.Overwrites t.spaces space h cell := by
  cases h with
  | reply | counted | allocated => exact .inl fun space h => by cases space <;> rfl
  | appended happends => exact .inr (.inl ⟨_, _, happends⟩)
  | overwritten harg hover => exact .inr (.inr ⟨_, _, _, harg, hover⟩)

/-- Only one operation counts weak pointers. -/
theorem Answered.weakPointers_eq (h : Answered call s atoms t) (hname : call.name ≠ "mkWeakNoFinalizer#") :
    t.spaces.weakPointers = s.spaces.weakPointers := by
  cases h with
  | reply | allocated => rfl
  | counted hcounted => exact absurd hcounted hname
  | appended happends => exact happends.weakPointers
  | overwritten _ hover => exact hover.weakPointers

/-- A constructor that is looked up by its tag has no fields. -/
theorem PrimOp.TagOp.arity_of_nullaryCon? {tycon : TyCon} {tag : Int64} {con : DataCon}
    (h : nullaryCon? tycon tag = some con) : con.arity = 0 := by
  unfold nullaryCon? at h
  split at h
  · cases h
  · simpa using (Option.filter_eq_some_iff.1 h).2

/-- An answered `tagToEnum#` puts a constructor without fields on the heap. -/
theorem PrimOp.TagOp.heap_of_toEnum (h : TagOp.run .toEnum call s = .ok (some atoms) t) :
    ∃ con : DataCon, con.arity = 0 ∧ t.heap = s.heap.push (some (.con con [])) := by
  generalize hop : TagOp.toEnum = op at h
  revert h
  fun_cases TagOp.run op call with
  | case1 => cases hop
  | case4 tag hargs tycon htycon con hcon =>
      rintro ⟨⟩
      exact ⟨con, arity_of_nullaryCon? hcon, rfl⟩
  | case2 | case3 | case5 =>
      intro h
      cases h

/-- An answered `mkWeakNoFinalizer#` counts a weak pointer. -/
theorem PrimOp.ConcurrencyOp.weakPointers_of_makeWeak
    (h : ConcurrencyOp.run .makeWeak call s = .ok (some atoms) t) :
    t.spaces.weakPointers = s.spaces.weakPointers + 1 := by
  generalize hop : ConcurrencyOp.makeWeak = op at h
  revert h
  fun_cases ConcurrencyOp.run op call with
  | case2 =>
      rintro ⟨⟩
      rfl
  | case6 =>
      intro h
      cases h
  | case1 | case3 | case4 | case5 => cases hop

end Answers

/-- A call of the operation of this name, with these arguments. -/
structure Call.Asks (call : Call) (name : String) (args : List Atom) : Prop where
  name : call.name = name
  args : call.args = args

namespace Registry

variable {call : Call} {s t : State} {atoms : List Atom}

/-- The standard registry evaluates a call by the family that lists the operation. -/
theorem standard_evaluate_of_mem {handler : Handler} (hmem : handler ∈ PrimOp.standardHandlers host)
    (hname : call.name ∈ handler.operations) :
    (standard host).evaluate call = handler.orElse call (unknown call) :=
  evaluateWith_of_owner? (standard_owner? hmem hname)

section Operations

variable {Op : Type} {family name : String} {names : List String} {ofName? : String → Option Op}
  {run : Op → Call → Exec Answer} {op : Op} {args : List Atom} {value : Atom} {e : Fault}

/-- A call is evaluated by the operation that a family matches its name with. -/
theorem standard_evaluate_of_matched
    (hmem : Handler.ofNames family names ofName? run ∈ PrimOp.standardHandlers host)
    (hname : call.name ∈ names) (hop : ofName? call.name = some op) :
    (standard host).evaluate call = run op call >>= fun answer =>
      match answer with
      | some atoms => pure atoms
      | none => unknown call := by
  rw [standard_evaluate_of_mem hmem hname, Handler.orElse]
  exact congrArg (· >>= _) (Handler.evaluate_ofNames_of_some hop)

/-- A call gives values exactly when its operation answers them. -/
theorem standard_evaluate_iff_run
    (hmem : Handler.ofNames family names ofName? run ∈ PrimOp.standardHandlers host)
    (hname : call.name ∈ names) (hop : ofName? call.name = some op) :
    (standard host).evaluate call s = .ok atoms t ↔ run op call s = .ok (some atoms) t := by
  rw [standard_evaluate_of_matched hmem hname hop, Exec.bind_eq_ok]
  constructor
  · rintro ⟨answer, u, hanswer, h⟩
    cases answer with
    | none => exact (Exec.fail_ne_ok.1 h).elim
    | some values =>
        obtain ⟨rfl, rfl⟩ := Exec.pure_eq_ok.1 h
        exact hanswer
  · exact fun h => ⟨some atoms, t, h, rfl⟩

/-- A call that its operation fails on fails in the same way. -/
theorem standard_evaluate_of_run_error
    (hmem : Handler.ofNames family names ofName? run ∈ PrimOp.standardHandlers host)
    (hname : call.name ∈ names) (hop : ofName? call.name = some op) (h : run op call s = .error e t) :
    (standard host).evaluate call s = .error e t := by
  rw [standard_evaluate_of_matched hmem hname hop]
  exact Exec.bind_eq_error.2 (.inl h)

/-- On every host, calls of an operation with these arguments have this one value and leave the state as
it is. -/
def Gives (s : State) (name : String) (args : List Atom) (value : Atom) : Prop :=
  ∀ (host : Host) (call : Call), call.Asks name args → (standard host).evaluate call s = .ok [value] s

/-- On every host, calls of an operation with these arguments fail and leave the state as it is. -/
def Refuses (s : State) (name : String) (args : List Atom) : Prop :=
  ∀ (host : Host) (call : Call), call.Asks name args → ∃ e, (standard host).evaluate call s = .error e s

/-- An operation has the value that its family answers. -/
theorem gives_of_run
    (hmem : ∀ host, Handler.ofNames family names ofName? run ∈ PrimOp.standardHandlers host)
    (hname : name ∈ names) (hop : ofName? name = some op)
    (hrun : ∀ type tycon, run op ⟨name, args, type, tycon⟩ s = .ok (some [value]) s) :
    Gives s name args value := by
  rintro host ⟨_, _, type, tycon⟩ ⟨rfl, rfl⟩
  exact (standard_evaluate_iff_run (hmem host) hname hop).2 (hrun type tycon)

/-- An operation refuses what its family fails on or declines. -/
theorem refuses_of_run
    (hmem : ∀ host, Handler.ofNames family names ofName? run ∈ PrimOp.standardHandlers host)
    (hname : name ∈ names) (hop : ofName? name = some op)
    (hrun : ∀ type tycon, run op ⟨name, args, type, tycon⟩ s = .ok none s ∨
      ∃ e, run op ⟨name, args, type, tycon⟩ s = .error e s) :
    Refuses s name args := by
  rintro host ⟨_, _, type, tycon⟩ ⟨rfl, rfl⟩
  rcases hrun type tycon with hdeclined | ⟨e, hfails⟩
  · rw [standard_evaluate_of_matched (hmem host) hname hop, Exec.bind_of_ok hdeclined]
    exact ⟨_, rfl⟩
  · exact ⟨e, standard_evaluate_of_run_error (hmem host) hname hop hfails⟩

/-- An operation has one value. -/
theorem Gives.unique {other : Atom} (h : Gives s name args value) (h' : Gives s name args other) :
    value = other := by
  have heq := (h .usual { name, args } ⟨rfl, rfl⟩).symm.trans (h' .usual { name, args } ⟨rfl, rfl⟩)
  injection heq with heq
  exact (List.cons.inj heq).1

/-- An operation that refuses its arguments has no value. -/
theorem Refuses.not_gives (h : Refuses s name args) : ¬ Gives s name args value := by
  intro h'
  obtain ⟨e, hfails⟩ := h .usual { name, args } ⟨rfl, rfl⟩
  cases (h' .usual { name, args } ⟨rfl, rfl⟩).symm.trans hfails

end Operations

/-- Of all operations, exactly `tagToEnum#` allocates. -/
theorem standard_evaluate_heap (h : (standard host).evaluate call s = .ok atoms t) :
    if call.name = "tagToEnum#" then
      ∃ con : DataCon, con.arity = 0 ∧ t.heap = s.heap.push (some (.con con []))
    else t.heap = s.heap := by
  split
  · next hname =>
      have hmem : PrimOp.tagHandler ∈ PrimOp.standardHandlers host := by simp [PrimOp.standardHandlers]
      have hlisted : call.name ∈ PrimOp.TagOp.names := by simp [hname, PrimOp.TagOp.names]
      have hop : PrimOp.TagOp.ofName? call.name = some .toEnum := by
        rw [hname]
        rfl
      exact PrimOp.TagOp.heap_of_toEnum ((standard_evaluate_iff_run hmem hlisted hop).1 h)
  · next hname =>
      rcases (standard_evaluate_eq_ok h).object?_cases with hheap | ⟨_, hname', _⟩
      · exact hheap
      · exact absurd hname' hname

/-- Of all operations, exactly `mkWeakNoFinalizer#` counts a weak pointer. -/
theorem standard_evaluate_weakPointers (h : (standard host).evaluate call s = .ok atoms t) :
    t.spaces.weakPointers =
      s.spaces.weakPointers + if call.name = "mkWeakNoFinalizer#" then 1 else 0 := by
  split
  · next hname =>
      have hmem : PrimOp.concurrencyHandler ∈ PrimOp.standardHandlers host := by
        simp [PrimOp.standardHandlers]
      have hlisted : call.name ∈ PrimOp.ConcurrencyOp.names := by
        simp [hname, PrimOp.ConcurrencyOp.names]
      have hop : PrimOp.ConcurrencyOp.ofName? call.name = some .makeWeak := by
        rw [hname]
        rfl
      exact PrimOp.ConcurrencyOp.weakPointers_of_makeWeak ((standard_evaluate_iff_run hmem hlisted hop).1 h)
  · next hname => exact (standard_evaluate_eq_ok h).weakPointers_eq hname

/-! ## Failures -/

/-- A call that fails leaves the whole state as it was, and so does one that its family declines. -/
theorem standard_atomic (call : Call) (s t : State) :
    (∀ e, (standard host).evaluate call s = .error e t → t = s) ∧
    ∀ handler, (standard host).owner? call.name = some handler →
      handler.evaluate call s = .ok none t → t = s := by
  constructor
  · intro e herror
    exact (standard_evaluate_eq_error herror).1
  · intro handler howner hdeclines
    exact PrimOp.eq_of_declines (mem_of_standard_owner? howner) hdeclines

/-- Two elements are copied over one. -/
def copyOverEnd : Call where
  name := "copyArray#"
  args := [.array 0, .int 0, .mutableArray 0, .int 0, .int 2, .void]

/-- A state with an array of two elements and a mutable array of one. -/
def twoAndOne : State where
  traceLimit := 0
  maxStackDepth := 0
  spaces := { arrays := #[#[.int 1, .int 2]], mutableArrays := #[#[.void]] }

/-- A copy fails at the last of its checks, with the source already read; and a write into a byte array
is declined after the check of its index. -/
theorem standard_atomic_lastCheck :
    (∃ t, standard.evaluate copyOverEnd twoAndOne =
        .error ⟨.primOpShape "copyArray#" (.rangeOutside 0 2 1), []⟩ t ∧ t = twoAndOne) ∧
    ∃ t, standard.owner? charAmongInts.name = some (PrimOp.byteArrayHandler .usual) ∧
      (PrimOp.byteArrayHandler .usual).evaluate charAmongInts eightBytes = .ok none t ∧ t = eightBytes := by
  have hmem : PrimOp.arrayHandler .usual ∈ PrimOp.standardHandlers := by simp [PrimOp.standardHandlers]
  have hfails : standard.evaluate copyOverEnd twoAndOne =
      .error ⟨.primOpShape "copyArray#" (.rangeOutside 0 2 1), []⟩ twoAndOne := by
    rw [standard_evaluate_of_mem hmem (by decide)]
    rfl
  have howner : standard.owner? charAmongInts.name = some (PrimOp.byteArrayHandler .usual) :=
    standard_owner? (by simp [PrimOp.standardHandlers]) (by decide)
  have hdeclines : (PrimOp.byteArrayHandler .usual).evaluate charAmongInts eightBytes =
      .ok none eightBytes := rfl
  exact ⟨⟨_, hfails, (standard_atomic copyOverEnd twoAndOne _).1 _ hfails⟩,
    ⟨_, howner, hdeclines, (standard_atomic charAmongInts eightBytes _).2 _ howner hdeclines⟩⟩

/-! ## Answers -/

/-- An answered call touches at most one thing, and forges no reference. -/
theorem standard_confined (call : Call) (s t : State) (atoms : List Atom)
    (h : (standard host).evaluate call s = .ok atoms t) : Confined call s atoms t := by
  have hanswered := standard_evaluate_eq_ok h
  refine ⟨?_, standard_evaluate_heap h, hanswered.spaces_cases, standard_evaluate_weakPointers h,
    hanswered.supplies_or_creates⟩
  cases hanswered with
  | reply | counted | allocated | appended | overwritten => rfl

/-- Taking the value out of a synchronising variable changes the one cell behind the argument, and hands
back the reference that was in it. -/
theorem standard_confined_takeMVar :
    let call : Call := { name := "takeMVar#", args := [.mvar 0, .void] }
    let s : State := { eightBytes with spaces := { mvars := #[some (.stable (.ptr 7))] } }
    let t : State := { eightBytes with spaces := { mvars := #[none] } }
    standard.evaluate call s = .ok [.stable (.ptr 7)] t ∧ Confined call s [.stable (.ptr 7)] t := by
  intro call s t
  have hmem : PrimOp.mvarHandler ∈ PrimOp.standardHandlers := by simp [PrimOp.standardHandlers]
  have htaken : standard.evaluate call s = .ok [.stable (.ptr 7)] t := by
    rw [standard_evaluate_of_mem hmem (by decide)]
    rfl
  exact ⟨htaken, standard_confined call s t _ htaken⟩

end Registry

end Spineless
