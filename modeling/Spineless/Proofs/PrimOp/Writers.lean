import Spineless.Proofs.PrimOp.Footprint

/-!
# Which operations write into which space

`Answered` says that a call changes at most one cell, but not which operations change cells of which
space. `Space.writers` lists them, and `Registry.standard_retains` says that the list is complete: any
other operation leaves the cells of the space as they are, though it may add new ones. Nothing writes
into a frozen array.

`Exec.Spares` is the same statement about an action; it is proved through a handler's program action by
action. The last section makes calls one after the other and keeps a log of what came of them.
-/

namespace Spineless

variable {host : Host}

/-- The operations that change the contents of a cell. -/
def Space.writers : Space → List String
  | .mutVar => ["writeMutVar#", "atomicWriteMutVar#"]
  | .mvar => ["takeMVar#", "putMVar#", "tryTakeMVar#", "tryPutMVar#"]
  | .array | .smallArray => []
  | .mutableArray => ["writeArray#", "copyArray#", "copyMutableArray#"]
  | .smallMutableArray => ["writeSmallArray#", "copySmallArray#", "copySmallMutableArray#"]
  | .byteArray => [
    "shrinkMutableByteArray#", "copyByteArray#", "copyMutableByteArray#", "writeIntArray#",
    "writeWordArray#", "writeWord8Array#", "writeCharArray#"]

/-- The cells of a space are still there and have the same contents. -/
def Spaces.Retains (sp sp' : Spaces) (space : Space) : Prop :=
  ∀ h cell, sp.cell? space h = some cell → sp'.cell? space h = some cell

section Retains

variable {sp sp' : Spaces} {space k : Space} {h : Handle} {cell : Cell}

theorem Spaces.Retains.refl (sp : Spaces) (space : Space) : sp.Retains sp space := fun _ _ hcell => hcell

/-- A new cell replaces none. -/
theorem Spaces.Appends.retains (happends : sp.Appends sp' k cell) (space : Space) :
    sp.Retains sp' space := by
  intro h old hold
  rw [happends.cell?, if_neg]
  · exact hold
  · rintro ⟨rfl, rfl⟩
    rw [Spaces.cell?_count] at hold
    cases hold

/-- A change of a cell leaves the other spaces alone. -/
theorem Spaces.Overwrites.retains (hover : sp.Overwrites sp' k h cell) (hne : k ≠ space) :
    sp.Retains sp' space := by
  intro h' old hold
  rw [hover.cell?, if_neg fun heq => hne heq.1.symm]
  exact hold

end Retains

/-- An action that changes no cell of a space. It may add cells. -/
def Exec.Spares {α : Type} (x : Exec α) (space : Space) : Prop :=
  ∀ s a t, x s = .ok a t → s.spaces.Retains t.spaces space

namespace Exec.Spares

variable {α β : Type} {space : Space} {h : Handle} {call : Call}

/-- An action that leaves the spaces as they are. -/
theorem of_spaces_eq {x : Exec α} (hx : ∀ {s a t}, x s = .ok a t → t.spaces = s.spaces) :
    x.Spares space := by
  intro s a t hok
  rw [hx hok]
  exact .refl _ _

/-- What two actions spare, one after the other does. -/
theorem bind {x : Exec α} {f : α → Exec β} (hx : x.Spares space) (hf : ∀ a, (f a).Spares space) :
    (x >>= f).Spares space := by
  intro s b t hok
  obtain ⟨a, u, hxok, hfok⟩ := Exec.bind_eq_ok.1 hok
  exact fun h cell hcell => hf a u b t hfok h cell (hx s a u hxok h cell hcell)

theorem pure (a : α) : (Pure.pure a : Exec α).Spares space :=
  of_spaces_eq fun hok => by rw [(Exec.pure_eq_ok.1 hok).2]

theorem get : (MonadState.get : Exec State).Spares space :=
  of_spaces_eq fun hok => by cases hok; rfl

theorem fail (cause : Cause) : (Exec.fail cause : Exec α).Spares space :=
  fun _ _ _ hok => (Exec.fail_ne_ok.1 hok).elim

theorem orFail (value : Option α) (cause : Cause) : (Exec.orFail value cause).Spares space :=
  of_spaces_eq fun hok => by rw [(Exec.orFail_eq_ok.1 hok).2]

/-! ## Reading -/

theorem answer (a : Atom) : (Exec.answer a).Spares space := .pure _

theorem noValues : Exec.noValues.Spares space := .pure _

theorem declined : Exec.declined.Spares space := .pure _

theorem refuse (misfit : Misfit) : (call.refuse misfit : Exec α).Spares space := .fail _

theorem index (n : Int64) : (call.index n).Spares space := by
  unfold Call.index
  split
  · exact .refuse _
  · exact .pure _

theorem filled (fits : Nat → Bool) (value : α) (size : Nat) : (call.filled fits value size).Spares space := by
  unfold Call.filled
  split
  · exact .pure _
  · exact .refuse _

theorem readCon (a : Addr) : (Exec.readCon a).Spares space := by
  refine .bind (.bind .get fun _ => .orFail _ _) fun o => ?_
  cases o with
  | con k args => exact .pure _
  | closure c => exact .fail _
  | blackhole o => exact .fail _

theorem readMutVar : (Exec.readMutVar h).Spares space := .bind .get fun _ => .orFail _ _

theorem readMVar : (Exec.readMVar h).Spares space := .bind .get fun _ => .orFail _ _

theorem readArray {kind : ArrayKind} : (Exec.readArray kind h).Spares space :=
  .bind .get fun _ => .orFail _ _

theorem readBytes : (Exec.readBytes h).Spares space := .bind .get fun _ => .orFail _ _

/-! ## Creating -/

theorem newMutVar (value : Atom) : (Exec.newMutVar value).Spares space := by
  rintro s _ _ ⟨⟩
  exact (s.spaces.appends_mutVar value).retains space

theorem newMVar : Exec.newMVar.Spares space := by
  rintro s _ _ ⟨⟩
  exact (s.spaces.appends_mvar none).retains space

theorem newArray (kind : ArrayKind) (elements : Array Atom) :
    (Exec.newArray kind elements).Spares space := by
  rintro s _ _ ⟨⟩
  exact (s.spaces.appends_array kind elements).retains space

theorem newBytes (bytes : Array UInt8) (pinned : Bool) : (Exec.newBytes bytes pinned).Spares space := by
  rintro s _ _ ⟨⟩
  exact (s.spaces.appends_bytes ⟨bytes, pinned⟩).retains space

theorem newWeak : Exec.newWeak.Spares space := by
  rintro s _ _ ⟨⟩
  intro h cell hcell
  cases space <;> exact hcell

theorem allocate (o : Object) : (Exec.allocate o).Spares space :=
  of_spaces_eq fun hok => by
    rw [Exec.allocate_apply] at hok
    cases hok
    rfl

/-! ## Writing -/

theorem writeMutVar (hne : Space.mutVar ≠ space) (value : Atom) :
    (Exec.writeMutVar h value).Spares space := by
  intro s _ t hok
  obtain ⟨old, u, hread, hok⟩ := Exec.bind_eq_ok.1 hok
  obtain ⟨hold, rfl⟩ := Exec.orFail_eq_ok.1 hread
  cases hok
  exact (Spaces.overwrites_mutVar hold value).retains hne

theorem writeMVar (hne : Space.mvar ≠ space) (contents : Option Atom) :
    (Exec.writeMVar h contents).Spares space := by
  intro s _ t hok
  obtain ⟨old, u, hread, hok⟩ := Exec.bind_eq_ok.1 hok
  obtain ⟨hold, rfl⟩ := Exec.orFail_eq_ok.1 hread
  cases hok
  exact (Spaces.overwrites_mvar hold contents).retains hne

theorem modifyArray {kind : ArrayKind} (hne : kind.space ≠ space) (f : Array Atom → Array Atom) :
    (Exec.modifyArray kind h f).Spares space := by
  intro s _ t hok
  obtain ⟨old, u, hread, hok⟩ := Exec.bind_eq_ok.1 hok
  obtain ⟨hold, rfl⟩ := Exec.orFail_eq_ok.1 hread
  cases hok
  exact (Spaces.overwrites_array hold f).retains hne

theorem modifyBytes (hne : Space.byteArray ≠ space) (f : Array UInt8 → Array UInt8) :
    (Exec.modifyBytes h f).Spares space := by
  intro s _ t hok
  obtain ⟨old, u, hread, hok⟩ := Exec.bind_eq_ok.1 hok
  obtain ⟨hold, rfl⟩ := Exec.orFail_eq_ok.1 hread
  cases hok
  exact (Spaces.overwrites_bytes hold _).retains hne

end Exec.Spares

/-! ## The families -/

namespace PrimOp

open Exec (Spares)

variable {call : Call} {space : Space}

theorem IntOp.spares (op : IntOp) : (op.run call).Spares space := by
  fun_cases IntOp.run op call
  all_goals first | exact .answer _ | exact .refuse _ | exact .declined

theorem WordOp.spares (op : WordOp) : (op.run call).Spares space := by
  fun_cases WordOp.run op call
  all_goals first | exact .answer _ | exact .refuse _ | exact .declined

theorem CharOp.spares (op : CharOp) : (op.run call).Spares space := by
  fun_cases CharOp.run op call
  all_goals first | exact .answer _ | exact .declined

theorem FloatOp.spares {F : Type} (p : Precision F) (op : FloatOp) : (op.run p call).Spares space := by
  fun_cases FloatOp.run p op call
  all_goals first | exact .answer _ | exact .declined

theorem AddrOp.spares_move (p : StringPtr) (n : Int64) : (AddrOp.move call p n).Spares space := by
  fun_cases AddrOp.move call p n
  · exact .pure _
  · exact .refuse _

theorem AddrOp.spares_byteAt (p : StringPtr) (n : Int64) : (AddrOp.byteAt call p n).Spares space := by
  refine .bind (spares_move p n) fun q => .bind .get fun s => ?_
  cases s.strings.byteAt? q with
  | none => exact .refuse _
  | some byte => exact .pure _

theorem AddrOp.spares (op : AddrOp) : (op.run call).Spares space := by
  fun_cases AddrOp.run op call with
  | case1 => exact .bind (spares_move _ _) fun _ => .answer _
  | case6 | case7 => exact .bind (spares_byteAt _ _) fun _ => .answer _
  | case2 | case4 => exact .answer _
  | case3 | case5 | case8 => exact .declined

theorem MutVarOp.spares {op : MutVarOp} (hop : ofName? call.name = some op)
    (hname : call.name ∉ space.writers) : (op.run call).Spares space := by
  fun_cases MutVarOp.run op call with
  | case1 value => exact .bind (.newMutVar value) fun _ => .answer _
  | case2 h => exact .bind .readMutVar fun _ => .answer _
  | case3 h value =>
      have hne : Space.mutVar ≠ space := by
        rintro rfl
        unfold ofName? at hop
        split at hop <;> simp_all [Space.writers]
      exact .bind (.writeMutVar hne value) fun _ => .noValues
  | case4 => exact .declined

theorem MVarOp.spares {op : MVarOp} (hop : ofName? call.name = some op)
    (hname : call.name ∉ space.writers) : (op.run call).Spares space := by
  have hne : op = .take ∨ op = .put ∨ op = .tryTake ∨ op = .tryPut → Space.mvar ≠ space := by
    rintro hcase rfl
    unfold ofName? at hop
    rcases hcase with rfl | rfl | rfl | rfl <;> split at hop <;> simp_all [Space.writers]
  -- The cases are: create, take, read, put, then the three attempts at these, the test for emptiness,
  -- and arguments of the wrong sort.
  fun_cases MVarOp.run op call with
  | case1 => exact .bind .newMVar fun _ => .answer _
  | case2 h =>
      refine .bind .readMVar fun found => ?_
      cases found with
      | none => exact .fail _
      | some value => exact .bind (.writeMVar (hne (by simp)) _) fun _ => .answer _
  | case3 h =>
      refine .bind .readMVar fun found => ?_
      cases found with
      | none => exact .fail _
      | some value => exact .answer _
  | case4 h value =>
      refine .bind .readMVar fun found => ?_
      cases found with
      | none => exact .bind (.writeMVar (hne (by simp)) _) fun _ => .noValues
      | some _ => exact .fail _
  | case5 h =>
      refine .bind .readMVar fun found => ?_
      cases found with
      | none => exact .pure _
      | some value => exact .bind (.writeMVar (hne (by simp)) _) fun _ => .pure _
  | case6 h => exact .bind .readMVar fun _ => .pure _
  | case7 h value =>
      refine .bind .readMVar fun found => ?_
      cases found with
      | none => exact .bind (.writeMVar (hne (by simp)) _) fun _ => .answer _
      | some _ => exact .answer _
  | case8 h => exact .bind .readMVar fun _ => .answer _
  | case9 => exact .declined

/-- The operations on arrays of a flavour by name. -/
def Flavour.table : Flavour → List (String × ArrayOp)
  | .large => ArrayOp.largeTable
  | .small => ArrayOp.smallTable

namespace ArrayOp

variable {kind source target : ArrayKind} {h : Handle}

theorem spares_range (size : Nat) (offset count : Int64) :
    (ArrayOp.range call size offset count).Spares space := by
  refine .bind (.index _) fun start => .bind (.index _) fun n => ?_
  by_cases hle : start + n ≤ size
  · rw [if_pos hle]
    exact .pure _
  · rw [if_neg hle]
    exact .refuse _

theorem spares_element (i : Int64) : (element kind call h i).Spares space :=
  .bind .readArray fun _ => .bind (spares_range _ _ _) fun _ => .pure _

theorem spares_copyWhole : (copyWhole source target h).Spares space :=
  .bind .readArray fun _ => .newArray _ _

theorem spares_copyRange (offset count : Int64) :
    (copyRange source target call h offset count).Spares space :=
  .bind .readArray fun _ => .bind (spares_range _ _ _) fun _ => .newArray _ _

theorem spares_copyInto {src dst : Handle} (hne : target.space ≠ space)
    (srcOffset dstOffset count : Int64) :
    (copyInto source target call src srcOffset dst dstOffset count).Spares space :=
  .bind .readArray fun _ => .bind (spares_range _ _ _) fun _ => .bind .readArray fun _ =>
    .bind (spares_range _ _ _) fun _ => .bind (.modifyArray hne _) fun _ => .noValues

/-- Of the operations on arrays only a write and the copies change elements. -/
theorem spares (fl : Flavour) {op : ArrayOp} (hop : (call.name, op) ∈ fl.table)
    (hname : call.name ∉ space.writers) : (op.run host fl call).Spares space := by
  have hne : op = .write ∨ op = .copy ∨ op = .copyMutable → fl.mutableKind.space ≠ space := by
    rintro hcase rfl
    rcases hcase with rfl | rfl | rfl <;> cases fl <;>
      simp_all [Flavour.table, largeTable, smallTable, Flavour.mutableKind, ArrayKind.space, Space.writers]
  -- Every second case is the one in which an argument is no array of the flavour.
  fun_cases ArrayOp.run host fl op call with
  | case1 count init =>
      exact .bind (.index _) fun _ => .bind (.filled _ _ _) fun _ => .bind (.newArray _ _) fun _ => .answer _
  | case2 arr i hargs h harr => exact spares_element i
  | case4 arr i hargs h harr => exact spares_element i
  | case6 arr i value hargs h harr =>
      exact .bind .readArray fun _ => .bind (spares_range _ _ _) fun _ =>
        .bind (.modifyArray (hne (by simp)) _) fun _ => .noValues
  | case8 | case10 | case12 => exact .bind .readArray fun _ => .answer _
  | case14 | case16 => exact .bind spares_copyWhole fun _ => .answer _
  | case18 | case20 => exact .bind (spares_copyRange _ _) fun _ => .answer _
  | case22 | case24 => exact spares_copyInto (hne (by simp)) _ _ _
  | _ => exact .declined

end ArrayOp

namespace ByteOp

variable {h : Handle}

theorem spares_range (size : Nat) (offset count : Int64) :
    (ByteOp.range call size offset count).Spares space := by
  refine .bind (.index _) fun start => .bind (.index _) fun n => ?_
  by_cases hle : start + n ≤ size
  · rw [if_pos hle]
    exact .pure _
  · rw [if_neg hle]
    exact .refuse _

theorem spares_elementStart (size : Nat) (i : Int64) (width : Nat) :
    (elementStart call size i width).Spares space := by
  refine .bind (.index _) fun index => ?_
  by_cases hle : index * width + width ≤ size
  · rw [if_pos hle]
    exact .pure _
  · rw [if_neg hle]
    exact .refuse _

theorem spares_create (size : Int64) (pinned : Bool) : (create host call size pinned).Spares space :=
  .bind (.index _) fun _ => .bind (.filled _ _ _) fun _ => .bind (.newBytes _ _) fun _ => .answer _

theorem spares_fetch (e : Element) (i : Int64) : (fetch e call h i).Spares space :=
  .bind .readBytes fun _ => .bind (spares_elementStart _ _ _) fun _ => .answer _

/-- The operations that change bytes. -/
def changes : ByteOp → Bool
  | .shrink | .copy | .write _ => true
  | _ => false

/-- The names of the operations that change bytes are those of writers. -/
theorem mem_writers {name : String} {op : ByteOp} (hop : ofName? name = some op) (hchanges : op.changes) :
    name ∈ Space.byteArray.writers := by
  have hnames : ∀ name ∈ names, (ofName? name).any changes → name ∈ Space.byteArray.writers := by decide
  refine hnames name (isSome_ofName?_iff.1 (Option.isSome_of_eq_some hop)) ?_
  rw [hop]
  exact hchanges

/-- Of the operations on byte arrays only shrinking, copying and writing change bytes. -/
theorem spares {op : ByteOp} (hop : ofName? call.name = some op) (hname : call.name ∉ space.writers) :
    (op.run host call).Spares space := by
  have hne : op.changes → Space.byteArray ≠ space := by
    rintro hchanges rfl
    exact hname (mem_writers hop hchanges)
  fun_cases ByteOp.run host op call with
  | case1 | case2 => exact spares_create _ _
  | case3 | case4 | case6 | case7 => exact .bind .readBytes fun _ => .answer _
  | case5 h count =>
      refine .bind (.index _) fun wanted => .bind .readBytes fun bytes => ?_
      by_cases hlt : bytes.bytes.size < wanted
      · rw [if_pos hlt]
        exact .refuse _
      · rw [if_neg hlt]
        exact .bind (.modifyBytes (hne rfl) _) fun _ => .noValues
  | case8 =>
      exact .bind .readBytes fun _ => .bind (spares_range _ _ _) fun _ => .bind .readBytes fun _ =>
        .bind (spares_range _ _ _) fun _ => .bind (.modifyBytes (hne rfl) _) fun _ => .noValues
  | case9 | case10 => exact spares_fetch _ _
  | case11 e h i value =>
      refine .bind .readBytes fun _ => .bind (spares_elementStart _ _ _) fun start => ?_
      cases e.encode? value with
      | none => exact .declined
      | some encoded => exact .bind (.modifyBytes (hne rfl) _) fun _ => .noValues
  | case12 => exact .declined

end ByteOp

theorem TagOp.spares (op : TagOp) : (op.run call).Spares space := by
  fun_cases TagOp.run op call with
  | case1 => exact .bind (.readCon _) fun _ => .answer _
  | case2 | case3 => exact .refuse _
  | case4 => exact .bind (.allocate _) fun _ => .answer _
  | case5 => exact .declined

theorem ConcurrencyOp.spares (op : ConcurrencyOp) : (op.run call).Spares space := by
  fun_cases ConcurrencyOp.run op call with
  | case1 => exact .bind .get fun _ => .answer _
  | case2 => exact .bind .newWeak fun _ => .answer _
  | case3 => exact .noValues
  | case4 | case5 => exact .answer _
  | case6 => exact .declined

end PrimOp

/-! ## The registry -/

variable {call : Call} {s t : State} {space : Space}

/-- A handler spares what the operation does that the name is matched with. -/
theorem Handler.spares_ofNames {Op : Type} {family : String} {names : List String}
    {ofName? : String → Option Op} {run : Op → Call → Exec Answer}
    (hrun : ∀ op, ofName? call.name = some op → (run op call).Spares space) :
    ((Handler.ofNames family names ofName? run).evaluate call).Spares space := by
  cases hop : ofName? call.name with
  | none =>
      rw [evaluate_ofNames_of_none hop]
      exact .pure _
  | some op =>
      rw [evaluate_ofNames_of_some hop]
      exact hrun op hop

/-- A standard family spares a space, unless the operation is one that writes into it. -/
theorem PrimOp.spares_of_mem_standardHandlers {handler : Handler} (h : handler ∈ PrimOp.standardHandlers host)
    (hname : call.name ∉ space.writers) : (handler.evaluate call).Spares space := by
  simp only [standardHandlers, List.mem_cons, List.not_mem_nil, or_false] at h
  rcases h with rfl | rfl | rfl | rfl | rfl | rfl | rfl | rfl | rfl | rfl | rfl | rfl | rfl
  · exact Handler.spares_ofNames fun op _ => FloatOp.spares single op
  · exact Handler.spares_ofNames fun op _ => FloatOp.spares double op
  · exact Handler.spares_ofNames fun op _ => IntOp.spares op
  · exact Handler.spares_ofNames fun op _ => WordOp.spares op
  · exact Handler.spares_ofNames fun op _ => CharOp.spares op
  · exact Handler.spares_ofNames fun _ hop => MutVarOp.spares hop hname
  · exact Handler.spares_ofNames fun _ hop => MVarOp.spares hop hname
  · exact Handler.spares_ofNames fun _ hop => ArrayOp.spares .large (Handler.mem_of_lookup hop) hname
  · exact Handler.spares_ofNames fun _ hop => ArrayOp.spares .small (Handler.mem_of_lookup hop) hname
  · exact Handler.spares_ofNames fun _ hop => ByteOp.spares hop hname
  · exact Handler.spares_ofNames fun op _ => AddrOp.spares op
  · exact Handler.spares_ofNames fun op _ => TagOp.spares op
  · exact Handler.spares_ofNames fun op _ => ConcurrencyOp.spares op

namespace Registry

/-- A standard operation that does not write into a space leaves its cells as they are. -/
theorem standard_retains {atoms : List Atom} (h : (standard host).evaluate call s = .ok atoms t)
    (hname : call.name ∉ space.writers) : s.spaces.Retains t.spaces space := by
  cases howner : (standard host).owner? call.name with
  | none =>
      rw [evaluate, evaluateWith_of_owner?_eq_none howner] at h
      exact (Exec.fail_ne_ok.1 h).elim
  | some handler =>
      have hspares := PrimOp.spares_of_mem_standardHandlers (mem_of_standard_owner? howner) hname
      rw [evaluate, evaluateWith_of_owner? howner] at h
      obtain ⟨answer, u, hanswer, h⟩ := Exec.bind_eq_ok.1 h
      cases answer with
      | none => exact (Exec.fail_ne_ok.1 h).elim
      | some values =>
          obtain ⟨rfl, rfl⟩ := Exec.pure_eq_ok.1 h
          exact hspares _ _ _ hanswer

end Registry

/-! ## Calls in a row -/

/-- A call and what came of it. -/
structure Entry where
  call : Call
  outcome : Except Fault (List Atom)

namespace Registry

/-- Makes calls one after the other, also after one that fails, and gives what came of each in order. -/
def log (r : Registry) : List Call → State → List Entry × State
  | [], s => ([], s)
  | call :: rest, s =>
    match r.evaluate call s with
    | .ok atoms t => (⟨call, .ok atoms⟩ :: (r.log rest t).1, (r.log rest t).2)
    | .error e t => (⟨call, .error e⟩ :: (r.log rest t).1, (r.log rest t).2)

theorem log_cons_of_ok {r : Registry} {call : Call} {atoms : List Atom} {rest : List Call}
    (h : r.evaluate call s = .ok atoms t) :
    r.log (call :: rest) s = (⟨call, .ok atoms⟩ :: (r.log rest t).1, (r.log rest t).2) := by
  simp only [log, h]

theorem log_cons_of_error {r : Registry} {call : Call} {e : Fault} {rest : List Call}
    (h : r.evaluate call s = .error e t) :
    r.log (call :: rest) s = (⟨call, .error e⟩ :: (r.log rest t).1, (r.log rest t).2) := by
  simp only [log, h]

/-- What holds of no call, and of one more call in front if it holds of the rest, holds of every log.
A call that fails leaves the rest with the state as it was. -/
theorem standard_log_induction {motive : State → List Entry → State → Prop}
    (nil : ∀ s, motive s [] s)
    (ok : ∀ {call s atoms t log u}, (standard host).evaluate call s = .ok atoms t → motive t log u →
      motive s (⟨call, .ok atoms⟩ :: log) u)
    (error : ∀ {call s e log u}, (standard host).evaluate call s = .error e s → motive s log u →
      motive s (⟨call, .error e⟩ :: log) u)
    (calls : List Call) (s : State) :
    motive s ((standard host).log calls s).1 ((standard host).log calls s).2 := by
  induction calls generalizing s with
  | nil => exact nil s
  | cons call rest ih =>
      cases hcall : (standard host).evaluate call s with
      | ok atoms t =>
          rw [log_cons_of_ok hcall]
          exact ok hcall (ih t)
      | error e t =>
          obtain ⟨rfl, -⟩ := standard_evaluate_eq_error hcall
          rw [log_cons_of_error hcall]
          exact error hcall (ih _)

end Registry

end Spineless
