import Spineless.Proofs.Action
import Spineless.Proofs.Renaming

/-!
# Two runs side by side

A `Coupling` says how two runs are compared: how the second one names what the first one names, which
frames of a caller lie below the second one's own, how much deeper it may go, and how the traces compare.
`Coupling.Related` is the relation between the two states, and `Coupling.Outcomes` that between the two
outcomes of an action: both succeed, both fail for the same cause, or the first one, which has less room,
overflows its stack.

While an expression is evaluated the two environments correspond. When an atom is entered or values
return, the environment is that of a caller and will not be read again; the relation then says nothing
about it, nor about the environments saved with update and apply frames.

This module has one rule for each elementary action on a state. Later modules put them together with
`Outcomes.bind`.
-/

namespace Spineless

/-! ## States under other names -/

/-- The number of a literal that was seen. -/
def StringTable.number? (t : StringTable) (bytes : List UInt8) : Option Nat :=
  t.literals.findIdx? (· == bytes)

/-- Two tables with the same literals under other numbers. New literals get the same number in both. -/
structure StringTable.Renamed (π : Equiv.Perm Nat) (t u : StringTable) : Prop where
  size : u.size = t.size
  resolve? : ∀ i, u.resolve? (π i) = t.resolve? i
  number? : ∀ bytes, u.number? bytes = (t.number? bytes).map π
  fresh : ∀ i, t.size ≤ i → π i = i

/-- The second state holds what the first one holds, under other names. Addresses and numbers that are not
in use yet keep their names, so whatever is new gets the same name in both. -/
structure State.Renamed (ρ : Renaming) (s t : State) : Prop where
  heap_size : t.heap.size = s.heap.size
  slot : ∀ a, t.heap[ρ.addr a]? = (s.heap[a]?).map (Option.map ρ.object)
  fresh : ∀ a, s.heap.size ≤ a → ρ.addr a = a
  globals : ∀ key, t.globals.find? (ρ.key key) = (s.globals.find? key).map ρ.atom
  strings : s.strings.Renamed ρ.literal t.strings
  spaces : t.spaces = ρ.spaces s.spaces
  thread : t.thread = s.thread

/-- What a state holds besides scopes and frames. -/
structure Contents where
  /-- The heap. -/
  heap : Array (Option Object)
  /-- The string literals. -/
  strings : StringTable
  /-- The auxiliary object spaces. -/
  spaces : Spaces

/-- The contents of a state. -/
def State.contents (s : State) : Contents := ⟨s.heap, s.strings, s.spaces⟩

namespace StringTable.Renamed

variable {π : Equiv.Perm Nat} {t u : StringTable}

/-- A literal that is pushed behind the others is found under its number, unless it was there before. -/
theorem number?_push (t : StringTable) (new bytes : List UInt8) :
    (⟨t.literals.push new⟩ : StringTable).number? bytes =
      (t.number? bytes).or (if new = bytes then some t.size else none) := by
  simp only [StringTable.number?, Array.findIdx?_push, StringTable.size]
  by_cases h : new = bytes <;> simp [h]

/-- Interning the same literal gives corresponding pointers and tables. -/
theorem intern (h : t.Renamed π u) (bytes : List UInt8) :
    (u.intern bytes).1 = { (t.intern bytes).1 with id := π (t.intern bytes).1.id } ∧
      (t.intern bytes).2.Renamed π (u.intern bytes).2 := by
  have hnumber := h.number? bytes
  unfold StringTable.number? at hnumber
  unfold StringTable.intern
  cases hfound : t.literals.findIdx? (· == bytes) with
  | some id =>
      rw [hfound] at hnumber
      simp only [hnumber, Option.map_some]
      exact ⟨trivial, h⟩
  | none =>
      rw [hfound] at hnumber
      have hsize : u.literals.size = t.literals.size := h.size
      have hfresh : ∀ i, t.literals.size ≤ i → π i = i := h.fresh
      simp only [hnumber, Option.map_none, hsize, hfresh _ (Nat.le_refl _), true_and]
      refine ⟨?_, fun i => ?_, fun other => ?_, fun i hi => ?_⟩
      · simp [StringTable.size, hsize]
      · -- The old literals correspond, and the new one has the same number in both tables.
        have hold := h.resolve? i
        simp only [StringTable.resolve?] at hold ⊢
        rw [Array.getElem?_push, Array.getElem?_push, hold, hsize]
        by_cases hi : i = t.literals.size
        · rw [if_pos hi, hi, if_pos (hfresh _ (Nat.le_refl _))]
        · have hne : π i ≠ t.literals.size := by
            rw [← hfresh _ (Nat.le_refl _)]
            exact fun heq => hi (π.injective heq)
          rw [if_neg hi, if_neg hne]
      · rw [number?_push, number?_push, h.number? other, h.size]
        cases t.number? other with
        | some i => rfl
        | none =>
            simp only [Option.map_none, Option.none_or]
            split
            · rw [Option.map_some, h.fresh _ (Nat.le_refl _)]
            · rfl
      · rw [StringTable.size, Array.size_push] at hi
        exact hfresh i (by omega)

/-- A byte of a literal is the same under the literal's new number. -/
theorem byteAt? (h : t.Renamed π u) (p : StringPtr) : u.byteAt? { p with id := π p.id } = t.byteAt? p := by
  simp only [StringTable.byteAt?, h.resolve?]

theorem refl (t : StringTable) : t.Renamed (Equiv.refl Nat) t :=
  ⟨rfl, fun _ => rfl, fun _ => Option.map_id'.symm, fun _ _ => rfl⟩

theorem eq_of_refl (h : t.Renamed (Equiv.refl Nat) u) : u = t := by
  obtain ⟨ts⟩ := t
  obtain ⟨us⟩ := u
  congr 1
  exact Array.ext_getElem? h.resolve?

end StringTable.Renamed

namespace State.Renamed

variable {ρ : Renaming} {s t : State} {a : Addr}

/-- Corresponding addresses hold corresponding objects. -/
theorem object? (h : s.Renamed ρ t) (a : Addr) : t.object? (ρ.addr a) = (s.object? a).map ρ.object := by
  rw [State.object?, h.slot, State.object?]
  cases s.heap[a]? with
  | none => rfl
  | some slot => rfl

/-- The next address is the same in both. -/
theorem addr_size (h : s.Renamed ρ t) : ρ.addr s.heap.size = s.heap.size := h.fresh _ (Nat.le_refl _)

/-- An address was handed out exactly if the corresponding one was. -/
theorem addr_lt (h : s.Renamed ρ t) : ρ.addr a < s.heap.size ↔ a < s.heap.size := by
  have hslot := h.slot a
  rw [← h.heap_size]
  constructor
  · intro hlt
    by_contra hge
    rw [h.heap_size] at hge
    rw [Array.getElem?_eq_none (Nat.le_of_not_lt hge), Array.getElem?_eq_getElem hlt] at hslot
    cases hslot
  · intro hlt
    by_contra hge
    rw [h.heap_size] at hlt
    rw [Array.getElem?_eq_getElem hlt, Array.getElem?_eq_none (Nat.le_of_not_lt hge)] at hslot
    cases hslot

/-- More slots with corresponding contents. -/
theorem grow (h : s.Renamed ρ t) (slots : List (Option Object)) :
    (s.grow slots).Renamed ρ (t.grow (slots.map (Option.map ρ.object))) where
  heap_size := by simp [h.heap_size]
  fresh a ha := by
    rw [State.heap_size_grow] at ha
    exact h.fresh a (by omega)
  globals := h.globals
  strings := h.strings
  spaces := h.spaces
  thread := h.thread
  slot a := by
    simp only [State.grow, Array.getElem?_append, List.getElem?_toArray, h.heap_size, h.addr_lt]
    by_cases ha : a < s.heap.size
    · rw [if_pos ha, if_pos ha, h.slot]
    · rw [if_neg ha, if_neg ha, h.fresh a (Nat.le_of_not_lt ha), List.getElem?_map]

/-- Corresponding objects at corresponding addresses. -/
theorem overwrite (h : s.Renamed ρ t) (a : Addr) (o : Object) :
    (s.overwrite a o).Renamed ρ (t.overwrite (ρ.addr a) (ρ.object o)) where
  heap_size := by simp [State.overwrite, h.heap_size]
  fresh b hb := h.fresh b (by simpa [State.overwrite] using hb)
  globals := h.globals
  strings := h.strings
  spaces := h.spaces
  thread := h.thread
  slot b := by
    simp only [State.overwrite, Array.getElem?_setIfInBounds, EmbeddingLike.apply_eq_iff_eq,
      h.heap_size, h.addr_lt, h.slot b]
    split
    · split <;> rfl
    · rfl

/-- A variable denotes the new name of what it denoted, if the environments correspond. -/
theorem lookup? (h : s.Renamed ρ t) (henv : t.env = ρ.env s.env) (x : Ident) :
    t.lookup? (ρ.ident x) = (s.lookup? x).map ρ.atom := by
  simp only [State.lookup?, Env.get?, ρ.isToken_ident, ρ.key_ident, henv, ρ.find?_env, h.globals]
  split
  · rfl
  · cases s.env.find? x.key with
    | none => rfl
    | some a => rfl

/-- States that hold the same under the same names. -/
theorem of_eq (hheap : t.heap = s.heap) (hglobals : t.globals = s.globals)
    (hstrings : t.strings = s.strings) (hspaces : t.spaces = s.spaces) (hthread : t.thread = s.thread) :
    s.Renamed .refl t where
  heap_size := by rw [hheap]
  fresh _ _ := rfl
  globals key := by
    have hatom : Renaming.refl.atom = id := funext Renaming.atom_refl
    rw [hglobals, hatom, Option.map_id]
    rfl
  strings := by
    rw [hstrings]
    exact .refl _
  spaces := by rw [hspaces, Renaming.spaces_refl]
  thread := hthread
  slot a := by
    have hobject : Renaming.refl.object = id := funext Renaming.object_refl
    rw [hheap, hobject, Option.map_id, Option.map_id]
    rfl

/-- Under the same names the heaps are equal. -/
theorem heap_eq (h : s.Renamed .refl t) : t.heap = s.heap := by
  refine Array.ext_getElem? fun a => ?_
  have hobject : Renaming.refl.object = id := funext Renaming.object_refl
  have hslot := h.slot a
  rw [hobject, Option.map_id, Option.map_id] at hslot
  exact hslot

theorem strings_eq (h : s.Renamed .refl t) : t.strings = s.strings := h.strings.eq_of_refl

theorem spaces_eq (h : s.Renamed .refl t) : t.spaces = s.spaces := by
  rw [h.spaces, Renaming.spaces_refl]

theorem contents_eq (h : s.Renamed .refl t) : t.contents = s.contents := by
  rw [State.contents, h.heap_eq, h.strings_eq, h.spaces_eq, State.contents]

end State.Renamed

/-! ## Couplings -/

/-- The cause with a limit on the depth that is counted from further below. -/
def Cause.deeper (frames : Nat) : Cause → Cause
  | .stackOverflow limit => .stackOverflow (limit + frames)
  | cause => cause

theorem Cause.deeper_zero (c : Cause) : c.deeper 0 = c := by
  cases c with
  | stackOverflow limit => rfl
  | _ => rfl

/-- How two runs are compared. -/
structure Coupling where
  /-- How the second run names what the first one names. -/
  names : Renaming
  /-- The frames below the second run's own. -/
  below : List Frame
  /-- How much deeper the second run may go, beside those frames. -/
  spare : Nat
  /-- The trace limit of the first run. -/
  limit : Nat
  /-- The trace limit of the second run. -/
  limit' : Nat
  /-- How the traces compare while an expression is evaluated. -/
  inScope : List Ident → List Ident → Prop
  /-- How the traces compare at all times. -/
  always : List Ident → List Ident → Prop
  always_nil : always [] []
  always_of_inScope : ∀ {xs ys}, inScope xs ys → always xs ys
  inScope_enter : ∀ x, inScope (State.extendTrace limit [] x) (State.extendTrace limit' [] (names.ident x))
  inScope_extend : ∀ {xs ys} x, inScope xs ys →
    inScope (State.extendTrace limit xs x) (State.extendTrace limit' ys (names.ident x))

namespace Coupling

/-- Two runs that use the same variables and have equal traces. -/
def ofPerms (addr : Equiv.Perm Addr) (literal : Equiv.Perm Nat) (below : List Frame) (spare limit : Nat) :
    Coupling where
  names := .ofPerms addr literal
  below := below
  spare := spare
  limit := limit
  limit' := limit
  inScope xs ys := ys = xs
  always xs ys := ys = xs
  always_nil := rfl
  always_of_inScope h := h
  inScope_enter _ := rfl
  inScope_extend _ h := by
    rw [h]
    rfl

variable (C : Coupling)

/-- Corresponding causes. The second run counts its limit from below the frames below. -/
def cause (c : Cause) : Cause := (C.names.cause c).deeper C.below.length

/-- Without frames below, a cause is only renamed. -/
theorem cause_eq (h : C.below = []) (c : Cause) : C.cause c = C.names.cause c := by
  rw [cause, h, List.length_nil, Cause.deeper_zero]

/-- Corresponding faults. -/
structure Faults (e f : Fault) : Prop where
  cause : f.cause = C.cause e.cause
  trace : C.always e.trace f.trace

/-- Corresponding frames. Only a case reads the scope that was saved with it. -/
structure Frames (f g : Frame) : Prop where
  cont : g.cont = C.names.cont f.cont
  trace : C.always f.trace g.trace
  scope : ∀ binder altType alts, f.cont = .caseOf binder altType alts →
    g.env = C.names.env f.env ∧ C.inScope f.trace g.trace

/-- Corresponding stacks, frame by frame down to the frames below. -/
inductive Stacks : List Frame → List Frame → Prop
  /-- The first run has no frames of its own, and so has the second. -/
  | bottom : Stacks [] C.below
  /-- One more frame for each. -/
  | push {f g : Frame} {fs gs : List Frame} (frames : C.Frames f g) (rest : Stacks fs gs) :
      Stacks (f :: fs) (g :: gs)

/-- Corresponding states, while an expression is evaluated (`live`) or not. -/
structure Related (live : Bool) (s t : State) : Prop where
  store : s.Renamed C.names t
  limit : s.traceLimit = C.limit
  limit' : t.traceLimit = C.limit'
  depth : t.maxStackDepth = s.maxStackDepth + C.below.length + C.spare
  frames : C.Stacks s.stack.frames t.stack.frames
  trace : C.always s.trace t.trace
  scope : live = true → t.env = C.names.env s.env ∧ C.inScope s.trace t.trace

/-- Corresponding outcomes of an action. -/
inductive Outcomes {α β : Type} (Q : α → State → β → State → Prop) :
    EStateM.Result Fault State α → EStateM.Result Fault State β → Prop
  /-- Both succeed. -/
  | ok {a : α} {b : β} {s t : State} (h : Q a s b t) : Outcomes Q (.ok a s) (.ok b t)
  /-- Both fail. -/
  | error {e f : Fault} {s t : State} (store : s.Renamed C.names t) (faults : C.Faults e f) :
      Outcomes Q (.error e s) (.error f t)
  /-- The first overflows its stack, and the second has more room. -/
  | overflow {e : Fault} {s : State} {limit : Nat} {result : EStateM.Result Fault State β}
      (spare : 0 < C.spare) (cause : e.cause = .stackOverflow limit) :
      Outcomes Q (.error e s) result

/-- The outcomes of an action correspond if the states do and the second value is the image of the
first. -/
def Maps {α β : Type} (live : Bool) (φ : α → β) (a : α) (s : State) (b : β) (t : State) : Prop :=
  C.Related live s t ∧ b = φ a

variable {C} {live : Bool} {s t : State} {α β γ δ : Type}

namespace Outcomes

variable {Q : α → State → β → State → Prop} {R : γ → State → δ → State → Prop}

/-- What follows a pair of actions corresponds if it does after each pair of successes. -/
theorem bind {x : Exec α} {y : Exec β} {f : α → Exec γ} {g : β → Exec δ}
    (h : C.Outcomes Q (x s) (y t)) (hnext : ∀ a s' b t', Q a s' b t' → C.Outcomes R (f a s') (g b t')) :
    C.Outcomes R ((x >>= f) s) ((y >>= g) t) := by
  change C.Outcomes R (EStateM.bind x f s) (EStateM.bind y g t)
  unfold EStateM.bind
  generalize x s = first at h
  generalize y t = second at h
  cases h with
  | ok h => exact hnext _ _ _ _ h
  | error hstore hfaults => exact .error hstore hfaults
  | overflow hspare hcause => exact .overflow hspare hcause

/-- The usual case of `bind`: the values correspond by a function. -/
theorem bind_maps {x : Exec α} {y : Exec β} {φ : α → β} {f : α → Exec γ} {g : β → Exec δ}
    (h : C.Outcomes (C.Maps live φ) (x s) (y t))
    (hnext : ∀ a s' t', C.Related live s' t' → C.Outcomes R (f a s') (g (φ a) t')) :
    C.Outcomes R ((x >>= f) s) ((y >>= g) t) := by
  refine h.bind fun a s' b t' hmaps => ?_
  obtain ⟨hrelated, rfl⟩ := hmaps
  exact hnext a s' t' hrelated

theorem pure {a : α} {b : β} (h : Q a s b t) :
    C.Outcomes Q ((Pure.pure a : Exec α) s) ((Pure.pure b : Exec β) t) :=
  .ok h

/-- Failing for corresponding causes. -/
theorem fail {c c' : Cause} (h : C.Related live s t) (hcause : c' = C.cause c) :
    C.Outcomes Q ((Exec.fail c : Exec α) s) ((Exec.fail c' : Exec β) t) :=
  .error h.store ⟨hcause, h.trace⟩

/-- Taking corresponding values, or failing for corresponding causes. -/
theorem orFail {φ : α → β} {v : Option α} {v' : Option β} {c c' : Cause} (h : C.Related live s t)
    (hvalue : v' = v.map φ) (hcause : c' = C.cause c) :
    C.Outcomes (C.Maps live φ) (Exec.orFail v c s) (Exec.orFail v' c' t) := by
  subst hvalue
  cases v with
  | none => exact .fail h hcause
  | some a => exact .ok ⟨h, rfl⟩

end Outcomes

namespace Related

/-! ## Heap -/

theorem read (h : C.Related live s t) (a : Addr) :
    C.Outcomes (C.Maps live C.names.object) (Exec.read a s) (Exec.read (C.names.addr a) t) :=
  .orFail h (h.store.object? a) rfl

theorem write (h : C.Related live s t) (a : Addr) (o : Object) :
    C.Outcomes (C.Maps live id) (Exec.store a o s) (Exec.store (C.names.addr a) (C.names.object o) t) := by
  rw [Exec.store_apply, Exec.store_apply]
  simp only [h.store.heap_size, h.store.addr_lt]
  split
  · exact .ok ⟨{ h with store := h.store.overwrite a o }, rfl⟩
  · exact .fail h rfl

/-- A new slot has the same address in both. -/
theorem grow (h : C.Related live s t) (slot : Option Object) :
    C.Maps live C.names.addr s.heap.size (s.grow [slot]) t.heap.size
      (t.grow [slot.map C.names.object]) :=
  ⟨{ h with store := h.store.grow [slot] }, h.store.heap_size.trans h.store.addr_size.symm⟩

theorem allocate (h : C.Related live s t) (o : Object) :
    C.Outcomes (C.Maps live C.names.addr) (Exec.allocate o s) (Exec.allocate (C.names.object o) t) := by
  rw [Exec.allocate_apply, Exec.allocate_apply]
  exact .ok (h.grow (some o))

theorem reserve (h : C.Related live s t) :
    C.Outcomes (C.Maps live C.names.addr) (Exec.reserve s) (Exec.reserve t) := by
  rw [Exec.reserve_apply, Exec.reserve_apply]
  exact .ok (h.grow none)

/-- The constructor at an address. -/
theorem readCon (h : C.Related live s t) (a : Addr) :
    C.Outcomes (C.Maps live fun found => (found.1, found.2.map C.names.atom))
      (Exec.readCon a s) (Exec.readCon (C.names.addr a) t) := by
  refine (h.read a).bind_maps fun o s' t' h' => ?_
  cases o with
  | con k args => exact .ok ⟨h', rfl⟩
  | closure c => exact .fail h' (by simp [cause, Cause.deeper, Renaming.cause, Object.shape])
  | blackhole o => exact .fail h' rfl

/-! ## Scope -/

theorem resolve (h : C.Related true s t) (x : Ident) :
    C.Outcomes (C.Maps true C.names.atom) (Exec.resolve x s) (Exec.resolve (C.names.ident x) t) :=
  .orFail h (h.store.lookup? (h.scope rfl).1 x) rfl

/-- A live environment may be forgotten. -/
theorem forget (h : C.Related live s t) : C.Related false s t :=
  { h with scope := fun hlive => nomatch hlive }

/-- A binding in the current environment. -/
theorem bind (h : C.Related true s t) (x : Ident) (a : Atom) :
    C.Related true (s.bind x a) (t.bind (C.names.ident x) (C.names.atom a)) where
  store := { h.store with }
  limit := h.limit
  limit' := h.limit'
  depth := h.depth
  frames := h.frames
  trace := h.trace
  scope _ := by
    obtain ⟨henv, htrace⟩ := h.scope rfl
    refine ⟨?_, htrace⟩
    change t.env.bind _ _ = C.names.env (s.env.bind x a)
    rw [henv, Renaming.env_bind]

/-- Several bindings in the current environment. -/
theorem bindAll (h : C.Related true s t) (pairs : List (Ident × Atom)) :
    C.Related true (s.bindAll pairs)
      (t.bindAll (pairs.map fun pair => (C.names.ident pair.1, C.names.atom pair.2))) where
  store := { h.store with }
  limit := h.limit
  limit' := h.limit'
  depth := h.depth
  frames := h.frames
  trace := h.trace
  scope _ := by
    obtain ⟨henv, htrace⟩ := h.scope rfl
    refine ⟨?_, htrace⟩
    change t.env.extend _ = C.names.env (s.env.extend pairs)
    rw [henv, Renaming.env_extend]

/-- The scope of a closure, from whatever scope it is entered. -/
theorem enterScope (h : C.Related live s t) (name : Ident) (env : Env) :
    C.Related true (s.enterScope name env) (t.enterScope (C.names.ident name) (C.names.env env)) := by
  have htrace : C.inScope (State.extendTrace s.traceLimit [] name)
      (State.extendTrace t.traceLimit [] (C.names.ident name)) := by
    rw [h.limit, h.limit']
    exact C.inScope_enter name
  exact {
    store := { h.store with }
    limit := h.limit
    limit' := h.limit'
    depth := h.depth
    frames := h.frames
    trace := C.always_of_inScope htrace
    scope := fun _ => ⟨rfl, htrace⟩ }

/-- One more binder in the trace. -/
theorem pushTrace (h : C.Related true s t) (x : Ident) :
    C.Related true (s.pushTrace x) (t.pushTrace (C.names.ident x)) := by
  obtain ⟨henv, htrace⟩ := h.scope rfl
  have htrace' : C.inScope (State.extendTrace s.traceLimit s.trace x)
      (State.extendTrace t.traceLimit t.trace (C.names.ident x)) := by
    rw [h.limit, h.limit']
    exact C.inScope_extend x htrace
  exact {
    store := { h.store with }
    limit := h.limit
    limit' := h.limit'
    depth := h.depth
    frames := h.frames
    trace := C.always_of_inScope htrace'
    scope := fun _ => ⟨henv, htrace'⟩ }

/-! ## Control stack -/

/-- The second stack is deeper by the frames below. -/
theorem stack_depth (h : C.Related live s t) : t.stack.depth = s.stack.depth + C.below.length := by
  have hstacks := h.frames
  rw [t.stack.depth_eq, s.stack.depth_eq]
  generalize s.stack.frames = fs at hstacks
  generalize t.stack.frames = gs at hstacks
  induction hstacks with
  | bottom => simp
  | push _ _ ih =>
      rw [List.length_cons, List.length_cons, ih]
      omega

/-- A continuation that resumes in the current scope. A case reads that scope, so it has to be live. -/
theorem pushFrame (h : C.Related live s t) (k : Continuation)
    (hcase : ∀ binder altType alts, k = .caseOf binder altType alts → live = true) :
    C.Outcomes (C.Maps live id) (Exec.pushFrame k s) (Exec.pushFrame (C.names.cont k) t) := by
  have hstack := h.stack_depth
  have hdepth := h.depth
  rw [Exec.pushFrame_apply, Exec.pushFrame_apply]
  by_cases hfull : s.maxStackDepth ≤ s.stack.depth
  · rw [if_pos hfull]
    rcases Nat.eq_zero_or_pos C.spare with hspare | hspare
    · rw [if_pos (by omega)]
      refine .fail h ?_
      rw [hdepth, hspare]
      rfl
    · exact .overflow hspare rfl
  · rw [if_neg hfull, if_neg (by omega)]
    have hframes : C.Frames ⟨k, s.env, s.trace⟩ ⟨C.names.cont k, t.env, t.trace⟩ :=
      ⟨rfl, h.trace, fun binder altType alts hk => h.scope (hcase binder altType alts hk)⟩
    exact .ok ⟨{ h with store := { h.store with }, frames := .push hframes h.frames }, rfl⟩

/-! ## Literals and spaces -/

theorem intern (h : C.Related live s t) (bytes : List UInt8) :
    C.Outcomes (C.Maps live C.names.stringPtr) (Exec.intern bytes s) (Exec.intern bytes t) := by
  obtain ⟨hptr, hstrings⟩ := h.store.strings.intern bytes
  exact .ok ⟨{ h with store := { h.store with strings := hstrings } }, hptr⟩

/-- Corresponding changes of the spaces. -/
theorem modifySpaces (h : C.Related live s t) {f g : Spaces → Spaces}
    (hchange : g (C.names.spaces s.spaces) = C.names.spaces (f s.spaces)) :
    C.Outcomes (C.Maps live id) (Exec.modifySpaces f s) (Exec.modifySpaces g t) := by
  have hspaces : g t.spaces = C.names.spaces (f s.spaces) := by rw [h.store.spaces, hchange]
  exact .ok ⟨{ h with store := { h.store with spaces := hspaces } }, rfl⟩

end Related

end Coupling

end Spineless
