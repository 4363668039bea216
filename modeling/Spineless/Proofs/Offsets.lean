import Spineless.Proofs.Dangling
import Spineless.Proofs.PrimOp.Pointers
import Spineless.Proofs.PrimOp.Ranges

/-!
# Offsets of string pointers

An offset is a machine word, and pointers are subtracted as signed integers. `State.Bounded` says that
every string pointer in a state has an offset that is a signed integer: those in scope, on the stack, on
the heap and in the object spaces. It is an invariant because pointers come from two places. A literal is a
pointer to its first byte, and a pointer that is moved stays within the range.

`Exec.Bounds x Q` says of an action that it keeps states bounded, also where it fails, and that its values
have a property. An action is taken through its parts, by the laws of `Bounds`; here they lead from the
elementary actions to allocation.
-/

namespace Spineless

/-! ## Bounded states -/

/-- The string pointer in an atom; a stable pointer carries that of the atom inside. -/
def Atom.stringPtr? : Atom → Option StringPtr
  | .str p => some p
  | .stable inner => inner.stringPtr?
  | _ => none

/-- An atom without a string pointer, or with one whose offset is a signed integer. -/
def Atom.Bounded (a : Atom) : Prop := ∀ p, a.stringPtr? = some p → p.offset < Bound.int

/-- The scope and the continuation of a frame hold bounded atoms. -/
structure Frame.Bounded (f : Frame) : Prop where
  env : f.env.All Atom.Bounded
  cont : ∀ a ∈ f.cont.atoms, a.Bounded

/-- All atoms in a state are bounded. -/
structure State.Bounded (s : State) : Prop where
  heap : ∀ a o, s.object? a = some o → ∀ b ∈ o.atoms, b.Bounded
  cells : ∀ space h cell, s.spaces.cell? space h = some cell → ∀ b ∈ cell.atoms, b.Bounded
  env : s.env.All Atom.Bounded
  globals : s.globals.All Atom.Bounded
  frames : ∀ f ∈ s.stack.frames, f.Bounded

/-- All atoms in the state and in the work of a run are bounded. -/
structure Snapshot.Bounded (d : Snapshot) : Prop where
  state : d.state.Bounded
  code : ∀ a ∈ d.code.atoms, a.Bounded

section Bounded

variable {a : Atom} {s t : State}

theorem Atom.Bounded.scalar (h : a.stringPtr? = none) : a.Bounded := by
  intro p hp
  rw [h] at hp
  cases hp

theorem Atom.bounded_str {p : StringPtr} : (Atom.str p).Bounded ↔ p.offset < Bound.int :=
  ⟨fun h => h p rfl, fun h _ hq => Option.some.inj hq ▸ h⟩

namespace State.Bounded

theorem lookup? (h : s.Bounded) {x : Ident} (ha : s.lookup? x = some a) : a.Bounded :=
  of_lookup? (.scalar rfl) h.env h.globals ha

theorem bind (h : s.Bounded) (x : Ident) (ha : a.Bounded) : (s.bind x a).Bounded :=
  { h with env := h.env.bind ha }

theorem bindAll (h : s.Bounded) {pairs : List (Ident × Atom)} (hpairs : ∀ pair ∈ pairs, pair.2.Bounded) :
    (s.bindAll pairs).Bounded :=
  { h with env := h.env.extend hpairs }

theorem bindGlobal (h : s.Bounded) (x : Ident) (ha : a.Bounded) : (s.bindGlobal x a).Bounded :=
  { h with globals := h.globals.bind ha }

theorem enterScope (h : s.Bounded) (name : Ident) {env : Env} (henv : env.All Atom.Bounded) :
    (s.enterScope name env).Bounded :=
  { h with env := henv }

theorem restoreScope (h : s.Bounded) {env : Env} (henv : env.All Atom.Bounded) (trace : List Ident) :
    (s.restoreScope env trace).Bounded :=
  { h with env := henv }

theorem grow (h : s.Bounded) (objects : List Object) (hobjects : ∀ o ∈ objects, ∀ b ∈ o.atoms, b.Bounded) :
    (s.grow (objects.map some)).Bounded :=
  { h with heap := forall_object?_grow h.heap objects hobjects }

/-- An address without an object holds no pointer. -/
theorem reserve (h : s.Bounded) : (s.grow [none]).Bounded := by
  refine { h with heap := fun a o ho => ?_ }
  rcases object?_grow_cases ho with ho | ⟨-, hnone⟩
  · exact h.heap a o ho
  · simp at hnone

theorem overwrite (h : s.Bounded) (target : Addr) {o : Object} (ho : ∀ b ∈ o.atoms, b.Bounded) :
    (s.overwrite target o).Bounded :=
  { h with heap := forall_object?_overwrite h.heap target ho }

theorem pushed (h : s.Bounded) {k : Continuation} (hk : ∀ a ∈ k.atoms, a.Bounded) :
    (s.pushed k).Bounded :=
  { h with frames := List.forall_mem_cons.2 ⟨⟨h.env, hk⟩, h.frames⟩ }

theorem respaced (h : s.Bounded) {sp : Spaces}
    (hcells : ∀ space i cell, sp.cell? space i = some cell → ∀ b ∈ cell.atoms, b.Bounded) :
    ({ s with spaces := sp } : State).Bounded :=
  { h with cells := hcells }

/-- A new cell with bounded atoms. -/
theorem appends (h : s.Bounded) {sp : Spaces} {space : Space} {new : Cell}
    (happends : s.spaces.Appends sp space new) (hnew : ∀ b ∈ new.atoms, b.Bounded) :
    ({ s with spaces := sp } : State).Bounded := by
  refine h.respaced fun k i cell hcell => ?_
  rw [happends.cell?] at hcell
  split at hcell
  · cases hcell
    exact hnew
  · exact h.cells k i cell hcell

/-- A cell with bounded new contents. -/
theorem overwrites (h : s.Bounded) {sp : Spaces} {space : Space} {i : Handle} {new : Cell}
    (hover : s.spaces.Overwrites sp space i new) (hnew : ∀ b ∈ new.atoms, b.Bounded) :
    ({ s with spaces := sp } : State).Bounded := by
  refine h.respaced fun k j cell hcell => ?_
  rw [hover.cell?] at hcell
  split at hcell
  · cases hcell
    exact hnew
  · exact h.cells k j cell hcell

end State.Bounded

end Bounded

/-! ## Actions that keep states bounded -/

/-- An action that leads from bounded states to bounded states, and gives values with a property. -/
structure Exec.Bounds {α : Type} (x : Exec α) (Q : α → Prop) : Prop where
  ok : ∀ {s a t}, s.Bounded → x s = .ok a t → Q a ∧ t.Bounded
  error : ∀ {s e t}, s.Bounded → x s = .error e t → t.Bounded

namespace Exec.Bounds

variable {α β : Type} {P : α → Prop} {Q : β → Prop} {h : Handle} {call : Call}

theorem pure {a : α} (ha : P a) : Bounds (Pure.pure a) P where
  ok hs hok := by
    obtain ⟨rfl, rfl⟩ := Exec.pure_eq_ok.1 hok
    exact ⟨ha, hs⟩
  error _ herror := (Exec.pure_ne_error.1 herror).elim

/-- The second action may rely on what the first one gives. -/
theorem bind {x : Exec α} {f : α → Exec β} (hx : x.Bounds P) (hf : ∀ a, P a → (f a).Bounds Q) :
    (x >>= f).Bounds Q where
  ok hs hok := by
    obtain ⟨a, u, hxok, hfok⟩ := Exec.bind_eq_ok.1 hok
    obtain ⟨ha, hu⟩ := hx.ok hs hxok
    exact (hf a ha).ok hu hfok
  error hs herror := by
    rcases Exec.bind_eq_error.1 herror with hxerror | ⟨a, u, hxok, hferror⟩
    · exact hx.error hs hxerror
    · obtain ⟨ha, hu⟩ := hx.ok hs hxok
      exact (hf a ha).error hu hferror

theorem get : (MonadState.get : Exec State).Bounds State.Bounded where
  ok hs hok := by
    cases hok
    exact ⟨hs, hs⟩
  error _ herror := by cases herror

theorem modify {g : State → State} (hg : ∀ s : State, s.Bounded → (g s).Bounded) :
    (MonadState.modifyGet fun s => ((), g s) : Exec Unit).Bounds fun _ => True where
  ok hs hok := by
    cases hok
    exact ⟨trivial, hg _ hs⟩
  error _ herror := by cases herror

theorem fail (cause : Cause) : (Exec.fail cause : Exec α).Bounds P where
  ok _ hok := (Exec.fail_ne_ok.1 hok).elim
  error hs herror := by
    obtain ⟨-, rfl⟩ := Exec.fail_eq_error.1 herror
    exact hs

theorem orFail {value : Option α} {cause : Cause} (hvalue : ∀ a, value = some a → P a) :
    (Exec.orFail value cause).Bounds P := by
  cases value with
  | none => exact .fail _
  | some a => exact .pure (hvalue a rfl)

/-- A property of the value that is not needed is forgotten. -/
theorem mono {P' : α → Prop} {x : Exec α} (hx : x.Bounds P) (h : ∀ a, P a → P' a) : x.Bounds P' where
  ok hs hok := (hx.ok hs hok).imp_left (h _)
  error := hx.error

theorem ite {c : Prop} [Decidable c] {x y : Exec α} (hx : c → x.Bounds P) (hy : ¬ c → y.Bounds P) :
    (if c then x else y).Bounds P := by
  split
  · next h => exact hx h
  · next h => exact hy h

theorem mapM {f : α → Exec β} {xs : List α} (hf : ∀ a, (f a).Bounds Q) :
    (xs.mapM f).Bounds fun ys => ∀ b ∈ ys, Q b := by
  induction xs with
  | nil => exact .pure fun _ hb => absurd hb List.not_mem_nil
  | cons a xs ih =>
      rw [List.mapM_cons]
      refine .bind (hf a) fun b hb => .bind ih fun ys hys => .pure ?_
      exact List.forall_mem_cons.2 ⟨hb, hys⟩

theorem foldlM {f : β → α → Exec β} {xs : List α} (hf : ∀ b a, Q b → (f b a).Bounds Q) {b : β}
    (hb : Q b) : (xs.foldlM f b).Bounds Q := by
  induction xs generalizing b with
  | nil => exact .pure hb
  | cons a xs ih =>
      rw [List.foldlM_cons]
      exact .bind (hf b a hb) fun b' hb' => ih hb'

theorem forM {f : α → Exec Unit} {xs : List α} (hf : ∀ a, (f a).Bounds fun _ => True) :
    (xs.forM f).Bounds fun _ => True := by
  induction xs with
  | nil => exact .pure trivial
  | cons a xs ih =>
      change (f a >>= fun _ => xs.forM f).Bounds _
      exact .bind (hf a) fun _ _ => ih

/-! ### Heap, scope and stack -/

theorem reserve : Exec.reserve.Bounds fun _ => True where
  ok hs hok := by
    rw [Exec.reserve_apply] at hok
    cases hok
    exact ⟨trivial, hs.reserve⟩
  error _ herror := by cases herror

theorem allocate {o : Object} (ho : ∀ b ∈ o.atoms, b.Bounded) :
    (Exec.allocate o).Bounds fun _ => True where
  ok hs hok := by
    rw [Exec.allocate_apply] at hok
    cases hok
    exact ⟨trivial, hs.grow [o] fun o' ho' => List.mem_singleton.1 ho' ▸ ho⟩
  error _ herror := by cases herror

theorem store (target : Addr) {o : Object} (ho : ∀ b ∈ o.atoms, b.Bounded) :
    (Exec.store target o).Bounds fun _ => True :=
  .bind .get fun _ _ => .ite (fun _ => .modify fun _ hs => hs.overwrite target ho) fun _ => .fail _

theorem read (p : Addr) : (Exec.read p).Bounds fun o => ∀ b ∈ o.atoms, b.Bounded :=
  .bind .get fun _ hs => .orFail fun o ho => hs.heap p o ho

theorem readCon (p : Addr) : (Exec.readCon p).Bounds fun found => ∀ b ∈ found.2, b.Bounded := by
  refine .bind (.read p) fun o ho => ?_
  cases o with
  | con k args => exact .pure ho
  | closure c => exact .fail _
  | blackhole o => exact .fail _

theorem resolve (x : Ident) : (Exec.resolve x).Bounds Atom.Bounded :=
  .bind .get fun _ hs => .orFail fun _ ha => hs.lookup? ha

theorem pushFrame {k : Continuation} (hk : ∀ a ∈ k.atoms, a.Bounded) :
    (Exec.pushFrame k).Bounds fun _ => True :=
  .bind .get fun _ _ => .ite (fun _ => .fail _) fun _ => .modify fun _ hs => hs.pushed hk

theorem popFrame? : Exec.popFrame?.Bounds fun top => ∀ frame, top = some frame → frame.Bounded where
  ok {s top t} hs hok := by
    rw [Exec.popFrame?, Exec.modifyGet_apply] at hok
    cases hpop : s.stack.pop? with
    | none =>
        simp only [hpop] at hok
        cases hok
        exact ⟨by rintro _ ⟨⟩, hs⟩
    | some pair =>
        obtain ⟨frame, rest⟩ := pair
        simp only [hpop] at hok
        cases hok
        obtain ⟨hframe, hrest⟩ := Stack.forall_frames_of_pop? hs.frames hpop
        exact ⟨fun _ h => Option.some.inj h ▸ hframe, { hs with frames := hrest }⟩
  error _ herror := by cases herror

/-- An action in another scope comes back to the scope that it started in. -/
theorem within {x : Exec α} (name : Ident) {env : Env} (henv : env.All Atom.Bounded) (hx : x.Bounds P) :
    (Exec.within name env x).Bounds P where
  ok {s a t} hs hok := by
    unfold Exec.within at hok
    cases hinner : x (s.enterScope name env) with
    | ok b u =>
        simp only [hinner] at hok
        cases hok
        obtain ⟨hb, hu⟩ := hx.ok (hs.enterScope name henv) hinner
        exact ⟨hb, hu.restoreScope hs.env _⟩
    | error e u =>
        simp only [hinner] at hok
        cases hok
  error {s e t} hs herror := by
    unfold Exec.within at herror
    cases hinner : x (s.enterScope name env) with
    | ok b u =>
        simp only [hinner] at herror
        cases herror
    | error e u =>
        simp only [hinner] at herror
        cases herror
        exact (hx.error (hs.enterScope name henv) hinner).restoreScope hs.env _

/-! ### Object spaces -/

theorem readMutVar : (Exec.readMutVar h).Bounds Atom.Bounded := by
  refine .bind .get fun s hs => .orFail fun a ha => ?_
  exact hs.cells .mutVar h (.mutVar a) (by rw [Spaces.cell?, ha]; rfl) a (List.mem_singleton.2 rfl)

theorem readMVar : (Exec.readMVar h).Bounds fun contents => ∀ a ∈ contents, a.Bounded := by
  refine .bind .get fun s hs => .orFail fun contents hcontents a ha => ?_
  exact hs.cells .mvar h (.mvar contents) (by rw [Spaces.cell?, hcontents]; rfl) a (Option.mem_toList.2 ha)

theorem readArray {kind : ArrayKind} : (Exec.readArray kind h).Bounds fun xs => ∀ a ∈ xs, a.Bounded := by
  refine .bind .get fun s hs => .orFail fun xs hxs a ha => ?_
  exact hs.cells kind.space h (.array xs) (Spaces.cell?_eq_array.2 hxs) a (Array.mem_toList_iff.2 ha)

theorem readBytes : (Exec.readBytes h).Bounds fun _ => True :=
  .bind .get fun _ _ => .orFail fun _ _ => trivial

theorem newMutVar {value : Atom} (hvalue : value.Bounded) :
    (Exec.newMutVar value).Bounds fun _ => True where
  ok {s _ _} hs hok := by
    cases hok
    exact ⟨trivial, hs.appends (s.spaces.appends_mutVar value) (List.forall_mem_singleton.2 hvalue)⟩
  error _ herror := by cases herror

theorem newMVar : Exec.newMVar.Bounds fun _ => True where
  ok {s _ _} hs hok := by
    cases hok
    exact ⟨trivial, hs.appends (s.spaces.appends_mvar none) fun _ hb => absurd hb List.not_mem_nil⟩
  error _ herror := by cases herror

theorem newArray (kind : ArrayKind) {elements : Array Atom} (helements : ∀ a ∈ elements, a.Bounded) :
    (Exec.newArray kind elements).Bounds fun _ => True where
  ok {s _ _} hs hok := by
    cases hok
    exact ⟨trivial, hs.appends (s.spaces.appends_array kind elements)
      fun b hb => helements b (Array.mem_toList_iff.1 hb)⟩
  error _ herror := by cases herror

theorem newBytes (bytes : Array UInt8) (pinned : Bool) :
    (Exec.newBytes bytes pinned).Bounds fun _ => True where
  ok {s _ _} hs hok := by
    cases hok
    exact ⟨trivial, hs.appends (s.spaces.appends_bytes ⟨bytes, pinned⟩)
      fun _ hb => absurd hb List.not_mem_nil⟩
  error _ herror := by cases herror

theorem newWeak : Exec.newWeak.Bounds fun _ => True where
  ok {s _ _} hs hok := by
    cases hok
    refine ⟨trivial, hs.respaced fun space i cell hcell => hs.cells space i cell ?_⟩
    cases space <;> exact hcell
  error _ herror := by cases herror

/-- A change of the spaces, once something was found there. -/
theorem changed {v : State → Option α} {cause : Cause} {f : Spaces → Spaces}
    (hf : ∀ (s : State) (old : α), s.Bounded → v s = some old →
      ({ s with spaces := f s.spaces } : State).Bounded) :
    (do
      let _ ← (do Exec.orFail (v (← MonadState.get)) cause : Exec α)
      Exec.modifySpaces f : Exec Unit).Bounds fun _ => True where
  ok hs hok := by
    obtain ⟨old, u, hread, hok⟩ := Exec.bind_eq_ok.1 hok
    obtain ⟨hold, rfl⟩ := Exec.orFail_eq_ok.1 hread
    cases hok
    exact ⟨trivial, hf _ old hs hold⟩
  error hs herror := by
    rcases Exec.bind_eq_error.1 herror with hread | ⟨_, _, -, hmodify⟩
    · obtain ⟨-, -, rfl⟩ := Exec.orFail_eq_error.1 hread
      exact hs
    · cases hmodify

theorem writeMutVar {value : Atom} (hvalue : value.Bounded) :
    (Exec.writeMutVar h value).Bounds fun _ => True :=
  changed fun _ _ hs hold => hs.overwrites (Spaces.overwrites_mutVar hold value)
    (List.forall_mem_singleton.2 hvalue)

theorem writeMVar {contents : Option Atom} (hcontents : ∀ a ∈ contents, a.Bounded) :
    (Exec.writeMVar h contents).Bounds fun _ => True :=
  changed fun _ _ hs hold => hs.overwrites (Spaces.overwrites_mvar hold contents)
    fun a ha => hcontents a (Option.mem_toList.1 ha)

theorem modifyArray {kind : ArrayKind} {f : Array Atom → Array Atom}
    (hf : ∀ old : Array Atom, (∀ a ∈ old, a.Bounded) → ∀ a ∈ f old, a.Bounded) :
    (Exec.modifyArray kind h f).Bounds fun _ => True := by
  refine changed fun s old hs hold => hs.overwrites (Spaces.overwrites_array hold f) fun a ha => ?_
  refine hf old (fun b hb => ?_) a (Array.mem_toList_iff.1 ha)
  exact hs.cells kind.space h (.array old) (Spaces.cell?_eq_array.2 hold) b (Array.mem_toList_iff.2 hb)

theorem modifyBytes (f : Array UInt8 → Array UInt8) : (Exec.modifyBytes h f).Bounds fun _ => True :=
  changed fun _ _ hs hold => hs.overwrites (Spaces.overwrites_bytes hold _)
    fun _ hb => absurd hb List.not_mem_nil

end Exec.Bounds

/-! ## Arguments and allocation -/

theorem StringTable.offset_intern (strings : StringTable) (bytes : List UInt8) :
    (strings.intern bytes).1.offset = 0 := by
  unfold intern
  split <;> rfl

namespace Exec

/-- A literal that is a string points to its first byte. -/
theorem intern_bounds (bytes : List UInt8) : (intern bytes).Bounds fun p => p.offset = 0 where
  ok hs hok := by
    rw [intern, modifyGet_apply] at hok
    cases hok
    exact ⟨StringTable.offset_intern _ bytes, { hs with }⟩
  error _ herror := by cases herror

theorem literal_bounds (l : Lit) : (literal l).Bounds Atom.Bounded := by
  cases l with
  | string bytes =>
      refine .bind (intern_bounds bytes) fun p hp => .pure (Atom.bounded_str.2 ?_)
      rw [hp]
      decide
  | int | word | char | float | double | nullAddr => exact .pure (.scalar rfl)

/-- The atom of a literal is bounded whatever the state is. -/
theorem literal_bounded {l : Lit} {s t : State} {a : Atom} (h : literal l s = .ok a t) : a.Bounded := by
  cases l with
  | string bytes =>
      obtain ⟨p, u, hp, hu⟩ := bind_eq_ok.1 h
      obtain ⟨rfl, rfl⟩ := pure_eq_ok.1 hu
      cases hp
      exact Atom.bounded_str.2 (lt_of_eq_of_lt (StringTable.offset_intern _ bytes) (by decide))
  | int | word | char | float | double | nullAddr =>
      obtain ⟨rfl, rfl⟩ := pure_eq_ok.1 h
      exact .scalar rfl

theorem argument_bounds (arg : Arg) : (argument arg).Bounds Atom.Bounded := by
  cases arg with
  | var x => exact .resolve x
  | lit l => exact literal_bounds l

theorem arguments_bounds (args : List Arg) : (arguments args).Bounds fun atoms => ∀ a ∈ atoms, a.Bounded :=
  .mapM argument_bounds

theorem capture_bounds (freeVars : List Ident) : (capture freeVars).Bounds (Env.All Atom.Bounded) :=
  .foldlM (fun _ x henv => .bind (.resolve x) fun _ ha => .pure (henv.bind ha)) .empty

theorem build_bounds (name : Ident) (rhs : Rhs) :
    (build name rhs).Bounds fun o => ∀ a ∈ o.atoms, a.Bounded := by
  cases rhs with
  | con k args => exact .bind (arguments_bounds args) fun atoms hatoms => .pure hatoms
  | closure freeVars lambda =>
      refine .bind (capture_bounds freeVars) fun env henv => .pure fun a ha => ?_
      rcases List.mem_append.1 ha with ha | ha
      · obtain ⟨entry, hentry, rfl⟩ := List.mem_map.1 ha
        exact henv entry hentry
      · exact absurd ha List.not_mem_nil

theorem declare_bounds {bind : Ident → Atom → State → State} (pairs : List (Ident × Rhs))
    (hbind : ∀ (x : Ident) (a : Atom) (s : State), a.Bounded → s.Bounded → (bind x a s).Bounded) :
    (declare bind pairs).Bounds fun _ => True := by
  refine (Bounds.mapM (Q := fun _ => True) fun pair => ?_).mono fun _ _ => trivial
  exact .bind .reserve fun addr _ => .bind (.modify fun s hs => hbind pair.1 (.ptr addr) s (.scalar rfl) hs)
    fun _ _ => .pure trivial

theorem define_bounds {build : Ident → Rhs → Exec Object} (members : List (Addr × Ident × Rhs))
    (hbuild : ∀ x rhs, (build x rhs).Bounds fun o => ∀ a ∈ o.atoms, a.Bounded) :
    (define build members).Bounds fun _ => True :=
  .forM fun member => .bind (hbuild member.2.1 member.2.2) fun _ ho => .store member.1 ho

theorem allocateBinding_bounds (binding : Binding) : (allocateBinding binding).Bounds fun _ => True := by
  cases binding with
  | nonRec x rhs =>
      exact .bind (build_bounds x rhs) fun o ho => .bind (.allocate ho) fun addr _ =>
        .modify fun _ hs => hs.bind x (.scalar rfl)
  | group pairs =>
      exact .bind (declare_bounds pairs fun x _ _ ha hs => hs.bind x ha) fun members _ =>
        define_bounds members build_bounds

theorem allocateGlobals_bounds (pairs : List (Ident × Rhs)) :
    (allocateGlobals pairs).Bounds fun _ => True :=
  .bind (declare_bounds pairs fun x _ _ ha hs => hs.bindGlobal x ha) fun members _ =>
    define_bounds members fun x rhs => .within x .empty (build_bounds x rhs)

end Exec

end Spineless
