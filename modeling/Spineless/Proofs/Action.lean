import Mathlib.Tactic.ByContra
import Spineless.State

/-!
# Laws of actions

An action maps a state to an outcome that keeps the state. `bind_eq_ok` and `bind_eq_error` take a
sequence of actions apart, and each action on the heap, the scope and the control stack has a law that
says when it succeeds, when it fails and what it leaves behind.

`State.grow`, `State.overwrite`, `State.pushed` and `State.resumed` name the ways in which a
transition changes the heap and the control stack; later modules speak of these and unfold no action.
-/

namespace Spineless

namespace State

/-! ## Changes of a state -/

/-- The state with more slots behind the end of its heap. -/
def grow (s : State) (slots : List (Option Object)) : State :=
  { s with heap := s.heap ++ slots.toArray }

/-- The state with another object at an address. -/
def overwrite (s : State) (a : Addr) (o : Object) : State :=
  { s with heap := s.heap.setIfInBounds a (some o) }

/-- The state with another table of literals. -/
def withStrings (s : State) (strings : StringTable) : State := { s with strings }

/-- The state with one more continuation, which resumes in the current scope. -/
def pushed (s : State) (k : Continuation) : State :=
  { s with stack := s.stack.push ⟨k, s.env, s.trace⟩ }

/-- The state in which arguments wait for a function; no frame is needed for none. -/
def pushArgs (s : State) (args : List Atom) : State :=
  if args.isEmpty then s else s.pushed (.apply args)

/-- The state in the scope of a frame that was taken off the stack. -/
def resumed (s : State) (frame : Frame) (rest : Stack) : State :=
  ({ s with stack := rest } : State).restoreScope frame.env frame.trace

/-- Whether one more frame fits on the stack. -/
def HasRoom (s : State) : Prop := s.stack.depth < s.maxStackDepth

variable {s : State} {a b : Addr} {o : Object} {slots : List (Option Object)}

/-- An address that holds an object was handed out. -/
theorem lt_of_object? (h : s.object? a = some o) : a < s.heap.size := by
  by_contra hge
  rw [object?, Array.getElem?_eq_none (Nat.le_of_not_lt hge)] at h
  exact absurd h (by simp)

/-- Growing the heap moves its end. -/
@[simp]
theorem heap_size_grow : (s.grow slots).heap.size = s.heap.size + slots.length := by
  simp [grow]

/-- Old addresses keep their objects, and the new slots follow in order. -/
theorem object?_grow :
    (s.grow slots).object? a =
      if a < s.heap.size then s.object? a else (slots[a - s.heap.size]?).join := by
  simp only [object?, grow, Array.getElem?_append, List.getElem?_toArray]
  split <;> rfl

/-- Growing the heap keeps the objects that are there. -/
theorem object?_grow_of_lt (h : a < s.heap.size) : (s.grow slots).object? a = s.object? a := by
  rw [object?_grow, if_pos h]

/-- An object of a grown heap was there before or stands in a new slot. -/
theorem object?_grow_cases (h : (s.grow slots).object? a = some o) :
    s.object? a = some o ∨ (s.heap.size ≤ a ∧ some o ∈ slots) := by
  rw [object?_grow] at h
  split at h
  · exact .inl h
  · next hge =>
    refine .inr ⟨Nat.le_of_not_lt hge, ?_⟩
    obtain ⟨slot, hslot, rfl⟩ : ∃ slot, slots[a - s.heap.size]? = some slot ∧ slot = some o := by
      cases hslot : slots[a - s.heap.size]? with
      | none => simp [hslot] at h
      | some slot => exact ⟨slot, rfl, by simpa [hslot] using h⟩
    exact List.mem_of_getElem? hslot

/-- The first new slot lies at the old end of the heap. -/
theorem object?_grow_size (o : Object) : (s.grow [some o]).object? s.heap.size = some o := by
  simp [object?_grow]

/-- The address that is overwritten holds the new object, and the others keep theirs. -/
theorem object?_overwrite :
    (s.overwrite a o).object? b = if b = a ∧ a < s.heap.size then some o else s.object? b := by
  simp only [object?, overwrite, Array.getElem?_setIfInBounds]
  by_cases hab : a = b
  · subst hab
    by_cases ha : a < s.heap.size
    · simp [ha]
    · simp [ha]
  · rw [if_neg hab, if_neg (fun h => hab h.1.symm)]

/-- The overwritten address holds the new object. -/
theorem object?_overwrite_self (h : a < s.heap.size) : (s.overwrite a o).object? a = some o := by
  rw [object?_overwrite, if_pos ⟨rfl, h⟩]

/-! Leaving arguments waiting changes nothing but the stack. -/

@[simp]
theorem heap_pushArgs {args : List Atom} : (s.pushArgs args).heap = s.heap := by
  unfold pushArgs
  split <;> rfl

@[simp]
theorem env_pushArgs {args : List Atom} : (s.pushArgs args).env = s.env := by
  unfold pushArgs
  split <;> rfl

@[simp]
theorem globals_pushArgs {args : List Atom} : (s.pushArgs args).globals = s.globals := by
  unfold pushArgs
  split <;> rfl

@[simp]
theorem spaces_pushArgs {args : List Atom} : (s.pushArgs args).spaces = s.spaces := by
  unfold pushArgs
  split <;> rfl

@[simp]
theorem object?_pushArgs {args : List Atom} : (s.pushArgs args).object? a = s.object? a := by
  rw [object?, heap_pushArgs, object?]

/-- The frames after arguments were left waiting: at most one more, which holds them. -/
theorem frames_pushArgs {args : List Atom} :
    (s.pushArgs args).stack.frames =
      if args.isEmpty then s.stack.frames else ⟨.apply args, s.env, s.trace⟩ :: s.stack.frames := by
  unfold pushArgs
  split <;> rfl

/-- What holds of every object holds of every object after a `grow` with such objects. -/
theorem forall_object?_grow {P : Object → Prop} (h : ∀ a o, s.object? a = some o → P o)
    (objects : List Object) (hobjects : ∀ o ∈ objects, P o) :
    ∀ a o, (s.grow (objects.map some)).object? a = some o → P o := by
  intro a o ho
  rcases object?_grow_cases ho with ho | ⟨-, ho⟩
  · exact h a o ho
  · obtain ⟨o', ho', heq⟩ := List.mem_map.1 ho
    cases heq
    exact hobjects o ho'

theorem forall_object?_overwrite {P : Object → Prop} (h : ∀ a o, s.object? a = some o → P o)
    (target : Addr) {new : Object} (hnew : P new) :
    ∀ a o, (s.overwrite target new).object? a = some o → P o := by
  intro a o ho
  rw [object?_overwrite] at ho
  split at ho
  · cases ho
    exact hnew
  · exact h a o ho

theorem forall_frames_pushArgs {P : Frame → Prop} (h : ∀ f ∈ s.stack.frames, P f) {args : List Atom}
    (hargs : P ⟨.apply args, s.env, s.trace⟩) : ∀ f ∈ (s.pushArgs args).stack.frames, P f := by
  intro f hf
  rw [frames_pushArgs] at hf
  split at hf
  · exact h f hf
  · rcases List.mem_cons.1 hf with rfl | hf
    · exact hargs
    · exact h f hf

end State

namespace Exec

variable {α β : Type} {s t : State} {e : Fault}

/-! ## Sequences -/

/-- A sequence succeeds exactly when its parts do, one after the other. -/
theorem bind_eq_ok {x : Exec α} {f : α → Exec β} {b : β} :
    (x >>= f) s = .ok b t ↔ ∃ a u, x s = .ok a u ∧ f a u = .ok b t := by
  change EStateM.bind x f s = _ ↔ _
  unfold EStateM.bind
  cases x s with
  | ok a u => exact ⟨fun h => ⟨a, u, rfl, h⟩, by rintro ⟨_, _, ⟨⟩, h⟩; exact h⟩
  | error e u => simp

/-- A sequence fails exactly when its first part fails, or its second part after the first. -/
theorem bind_eq_error {x : Exec α} {f : α → Exec β} :
    (x >>= f) s = .error e t ↔ x s = .error e t ∨ ∃ a u, x s = .ok a u ∧ f a u = .error e t := by
  change EStateM.bind x f s = _ ↔ _
  unfold EStateM.bind
  cases x s with
  | ok a u => exact ⟨fun h => .inr ⟨a, u, rfl, h⟩, by rintro (⟨⟨⟩⟩ | ⟨_, _, ⟨⟩, h⟩); exact h⟩
  | error e u => simp

/-- A sequence whose first part succeeds goes on with the second part. -/
theorem bind_of_ok {x : Exec α} {f : α → Exec β} {a : α} (h : x s = .ok a t) :
    (x >>= f) s = f a t := by
  change EStateM.bind x f s = _
  rw [EStateM.bind, h]

/-- Reading the state passes it on. -/
theorem get_bind {f : State → Exec β} : ((get : Exec State) >>= f) s = f s s := rfl

/-- Changing the state goes on with the new one. -/
theorem modify_bind {g : State → State} {f : Unit → Exec β} :
    ((modify g : Exec Unit) >>= f) s = f () (g s) := rfl

theorem modifyGet_apply {f : State → α × State} : (modifyGet f : Exec α) s = .ok (f s).1 (f s).2 := rfl

/-- Giving a value back always succeeds. -/
@[simp]
theorem pure_eq_ok {a b : α} : (pure a : Exec α) s = .ok b t ↔ a = b ∧ s = t := by
  change EStateM.Result.ok a s = .ok b t ↔ _
  rw [EStateM.Result.ok.injEq]

/-- Giving a value back never fails. -/
@[simp]
theorem pure_ne_error {a : α} : (pure a : Exec α) s = .error e t ↔ False :=
  ⟨fun h => (nomatch h), False.elim⟩

/-- A failure is no success. -/
@[simp]
theorem fail_ne_ok {c : Cause} {a : α} : (fail c : Exec α) s = .ok a t ↔ False :=
  ⟨fun h => (nomatch h), False.elim⟩

/-- A failure carries the trace and keeps the state. -/
@[simp]
theorem fail_eq_error {c : Cause} : (fail c : Exec α) s = .error e t ↔ e = ⟨c, s.trace⟩ ∧ t = s := by
  change EStateM.Result.error _ _ = .error e t ↔ _
  rw [EStateM.Result.error.injEq]
  exact ⟨fun h => ⟨h.1.symm, h.2.symm⟩, fun h => ⟨h.1.symm, h.2.symm⟩⟩

/-- A value that is there is taken. -/
@[simp]
theorem orFail_eq_ok {v : Option α} {c : Cause} {a : α} :
    orFail v c s = .ok a t ↔ v = some a ∧ s = t := by
  cases v with
  | none => simp [orFail]
  | some b => simp [orFail]

/-- A value that is missing is a failure. -/
@[simp]
theorem orFail_eq_error {v : Option α} {c : Cause} :
    orFail v c s = .error e t ↔ v = none ∧ e = ⟨c, s.trace⟩ ∧ t = s := by
  cases v with
  | none => simp [orFail]
  | some b => simp [orFail]

/-! ## Heap and stack -/

/-- Reading gives the object at an address and changes nothing. -/
@[simp]
theorem read_eq_ok {a : Addr} {o : Object} : read a s = .ok o t ↔ s.object? a = some o ∧ s = t :=
  orFail_eq_ok

/-- Reading fails exactly where there is no object. -/
@[simp]
theorem read_eq_error {a : Addr} :
    read a s = .error e t ↔ s.object? a = none ∧ e = ⟨.unknownAddress a, s.trace⟩ ∧ t = s :=
  orFail_eq_error

/-- A variable is resolved to what it denotes. -/
@[simp]
theorem resolve_eq_ok {x : Ident} {a : Atom} :
    resolve x s = .ok a t ↔ s.lookup? x = some a ∧ s = t :=
  orFail_eq_ok

/-- A variable that denotes nothing is unbound. -/
@[simp]
theorem resolve_eq_error {x : Ident} :
    resolve x s = .error e t ↔ s.lookup? x = none ∧ e = ⟨.unboundVariable x, s.trace⟩ ∧ t = s :=
  orFail_eq_error

/-- Storing overwrites an address that was handed out, and fails for any other. -/
theorem store_apply (a : Addr) (o : Object) :
    store a o s =
      if a < s.heap.size then .ok () (s.overwrite a o)
      else .error ⟨.unknownAddress a, s.trace⟩ s := by
  unfold store
  rw [get_bind]
  split <;> rfl

/-- An object is put at the end of the heap. -/
theorem allocate_apply (o : Object) : allocate o s = .ok s.heap.size (s.grow [some o]) := by
  change EStateM.Result.ok s.heap.size { s with heap := s.heap.push (some o) } = _
  rw [Array.push_eq_append]
  rfl

/-- An address without an object is the end of the heap. -/
theorem reserve_apply : reserve s = .ok s.heap.size (s.grow [none]) := by
  change EStateM.Result.ok s.heap.size { s with heap := s.heap.push none } = _
  rw [Array.push_eq_append]
  rfl

/-- A frame is pushed while there is room. -/
theorem pushFrame_apply (k : Continuation) :
    pushFrame k s =
      if s.maxStackDepth ≤ s.stack.depth then
        .error ⟨.stackOverflow s.maxStackDepth, s.trace⟩ s
      else .ok () (s.pushed k) := by
  unfold pushFrame
  rw [get_bind]
  split <;> rfl

/-- A frame is pushed exactly when there is room. -/
theorem pushFrame_eq_ok {k : Continuation} {u : Unit} :
    pushFrame k s = .ok u t ↔ s.HasRoom ∧ t = s.pushed k := by
  rw [pushFrame_apply, State.HasRoom]
  split
  · next h => exact ⟨fun h => (nomatch h), fun h' => absurd h'.1 (by omega)⟩
  · next h =>
    exact ⟨by rintro ⟨⟩; exact ⟨by omega, rfl⟩, by rintro ⟨-, rfl⟩; rfl⟩

/-- A push fails exactly when there is no room, and then changes nothing. -/
theorem pushFrame_eq_error {k : Continuation} :
    pushFrame k s = .error e t ↔
      ¬ s.HasRoom ∧ e = ⟨.stackOverflow s.maxStackDepth, s.trace⟩ ∧ t = s := by
  rw [pushFrame_apply, State.HasRoom]
  split
  · next h => exact ⟨by rintro ⟨⟩; exact ⟨by omega, rfl, rfl⟩, by rintro ⟨-, rfl, rfl⟩; rfl⟩
  · next h => exact ⟨fun h => (nomatch h), fun h' => absurd h'.1 (by omega)⟩

end Exec

end Spineless
