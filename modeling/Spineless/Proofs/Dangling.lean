import Spineless.Proofs.PrimOp.Standard
import Spineless.Proofs.Session

/-!
# No dangling references

A set of references is closed under a state if there is something behind each of them and all that is
behind them refers into the set again. `Snapshot.Closed` says that everything a run can get hold of (the
scope, the frames, the work in front of it) refers into such a set. One transition keeps a closed set or
makes it larger, and no transition fails for want of an object while the set is closed.

The set is needed because "has an object" is not an invariant. A recursive group that fails halfway
leaves objects behind that refer to slots which stay empty. They are garbage: the failing run's scope
and frames are dropped, and the closed set of the run before the group still serves the next call.
-/

namespace Spineless

open Snapshot

variable {host : Host}

/-! ## What is behind a reference -/

/-- The atoms in an object. -/
def Object.atoms : Object → List Atom
  | .con _ args => args
  | .closure c => c.env.entries.map Prod.snd ++ c.args
  | .blackhole covered => covered.atoms

/-- The atoms that a continuation holds; an update frame holds its target. -/
def Continuation.atoms : Continuation → List Atom
  | .caseOf .. => []
  | .update target => [.ptr target]
  | .apply args => args

/-- The atoms in a piece of work. -/
def Code.atoms : Code → List Atom
  | .eval _ => []
  | .enter a => [a]
  | .ret atoms => atoms

/-- All atoms that an environment binds have a property. -/
def Env.All (P : Atom → Prop) (e : Env) : Prop := ∀ entry ∈ e.entries, P entry.2

section All

variable {P : Atom → Prop} {a : Atom} {e : Env}

theorem Env.All.empty : Env.empty.All P := fun _ hentry => absurd hentry List.not_mem_nil

theorem Env.All.bind {x : Ident} (he : e.All P) (ha : P a) : (e.bind x a).All P := by
  intro entry hentry
  rcases List.mem_cons.1 hentry with rfl | hentry
  · exact ha
  · exact he entry (List.mem_filter.1 hentry).1

theorem Env.All.extend {pairs : List (Ident × Atom)} (he : e.All P)
    (hpairs : ∀ pair ∈ pairs, P pair.2) : (e.extend pairs).All P := by
  induction pairs generalizing e with
  | nil => exact he
  | cons pair rest ih =>
      refine ih (he.bind (hpairs pair List.mem_cons_self)) ?_
      intro other hother
      exact hpairs other (List.mem_cons_of_mem _ hother)

theorem Env.All.get? {x : Ident} (he : e.All P) (h : e.get? x = some a) : P a := by
  obtain ⟨before, after, hentries, -⟩ := List.lookup_eq_some_iff.1 h
  exact he (x.key, a) (by rw [hentries]; simp)

/-- What a variable denotes has a property that the atoms in the scope and those at the top level have. -/
theorem State.of_lookup? {s : State} {x : Ident} (hvoid : P .void) (henv : s.env.All P)
    (hglobals : s.globals.All P) (h : s.lookup? x = some a) : P a := by
  unfold State.lookup? at h
  split at h
  · cases h
    exact hvoid
  · rcases Option.or_eq_some_iff.1 h with h | ⟨-, h⟩
    · exact henv.get? h
    · exact hglobals.get? h

end All

/-- Whether a failure is for want of an object behind a reference. -/
def Cause.isDangling : Cause → Bool
  | .unknownAddress _ | .unknownHandle _ _ => true
  | _ => false

/-- The atoms behind a reference, if there is anything behind it. -/
def State.behind? (s : State) : Ref → Option (List Atom)
  | .addr a => (s.object? a).map Object.atoms
  | .cell k h => (s.spaces.cell? k h).map Cell.atoms

/-- An atom that refers into a set of references, or to nothing. -/
def Atom.Known (known : Ref → Prop) (a : Atom) : Prop := ∀ ref, a.ref? = some ref → known ref

/-- An environment whose atoms refer into a set of references. -/
def Env.Known (known : Ref → Prop) (e : Env) : Prop := ∀ entry ∈ e.entries, entry.2.Known known

/-- A frame whose scope and continuation refer into a set of references. -/
def Frame.Known (known : Ref → Prop) (f : Frame) : Prop :=
  f.env.Known known ∧ ∀ a ∈ f.cont.atoms, a.Known known

section Known

variable {known known' : Ref → Prop} {a : Atom} {e : Env}

theorem Atom.Known.mono (hsub : ∀ ref, known ref → known' ref) (h : a.Known known) : a.Known known' :=
  fun ref href => hsub ref (h ref href)

theorem Atom.Known.scalar (h : a.ref? = none) : a.Known known := by
  intro ref href
  rw [h] at href
  cases href

theorem Env.Known.mono (hsub : ∀ ref, known ref → known' ref) (h : e.Known known) : e.Known known' :=
  fun entry hentry => (h entry hentry).mono hsub

theorem Frame.Known.mono {f : Frame} (hsub : ∀ ref, known ref → known' ref) (h : f.Known known) :
    f.Known known' :=
  ⟨h.1.mono hsub, fun a ha => (h.2 a ha).mono hsub⟩

/-- The arguments that wait in a known frame are known. -/
theorem Frame.Known.args {f : Frame} {args : List Atom} (h : f.Known known) (hcont : f.cont = .apply args) :
    ∀ a ∈ args, a.Known known := by
  have hatoms := h.2
  rw [hcont] at hatoms
  exact hatoms

theorem Env.Known.empty : Env.empty.Known known := Env.All.empty

theorem Env.Known.bind {x : Ident} (he : e.Known known) (ha : a.Known known) :
    (e.bind x a).Known known := Env.All.bind he ha

theorem Env.Known.extend {pairs : List (Ident × Atom)} (he : e.Known known)
    (hpairs : ∀ pair ∈ pairs, pair.2.Known known) : (e.extend pairs).Known known :=
  Env.All.extend he hpairs

/-- What a variable denotes is known if the scope and the top-level variables are. -/
theorem State.known_of_lookup? {s : State} {x : Ident} (henv : s.env.Known known)
    (hglobals : s.globals.Known known) (h : s.lookup? x = some a) : a.Known known :=
  State.of_lookup? (Atom.Known.scalar rfl) henv hglobals h

theorem known_of_denotes {lookup : Ident → Option Atom} {arg : Arg}
    (hlookup : ∀ x b, lookup x = some b → b.Known known) (h : arg.Denotes lookup a) : a.Known known := by
  cases arg with
  | var x => exact hlookup x a h
  | lit l =>
      rcases h with h | ⟨p, rfl⟩
      · exact .scalar (Lit.ref?_of_atom? h)
      · exact .scalar rfl

theorem known_of_denotes_all {lookup : Ident → Option Atom} {args : List Arg} {atoms : List Atom}
    (hlookup : ∀ x b, lookup x = some b → b.Known known)
    (h : List.Forall₂ (Arg.Denotes lookup) args atoms) : ∀ a ∈ atoms, a.Known known := by
  intro a ha
  obtain ⟨arg, -, harg⟩ := exists_mem_of_forall₂ h a ha
  exact known_of_denotes hlookup harg

/-- An object that is built where only known references are in scope holds only such. -/
theorem known_of_builds {lookup : Ident → Option Atom} {rhs : Rhs} {name : Ident} {o : Object}
    (hlookup : ∀ x b, lookup x = some b → b.Known known) (h : rhs.Builds lookup name o) :
    ∀ a ∈ o.atoms, a.Known known := by
  cases rhs with
  | con k args =>
      obtain ⟨atoms, hatoms, rfl⟩ := h
      exact known_of_denotes_all hlookup hatoms
  | closure freeVars lambda =>
      obtain ⟨env, ⟨atoms, hatoms, rfl⟩, rfl⟩ := h
      have henv : (Env.ofList (freeVars.zip atoms)).Known known := by
        refine Env.Known.empty.extend fun pair hpair => ?_
        exact hlookup pair.1 pair.2 (List.forall₂_zip hatoms hpair)
      intro a ha
      rcases List.mem_append.1 ha with ha | ha
      · obtain ⟨entry, hentry, rfl⟩ := List.mem_map.1 ha
        exact henv entry hentry
      · exact absurd ha List.not_mem_nil

end Known

/-! ## Closed sets of references -/

/-- There is something behind every known reference, and it refers to known references only; so do the
top-level variables. -/
structure State.Closed (known : Ref → Prop) (s : State) : Prop where
  behind : ∀ ref, known ref → ∃ atoms, s.behind? ref = some atoms ∧ ∀ a ∈ atoms, a.Known known
  globals : s.globals.Known known

/-- All that a run can get hold of is known. -/
structure Snapshot.Closed (known : Ref → Prop) (d : Snapshot) : Prop where
  store : d.state.Closed known
  env : d.state.env.Known known
  frames : ∀ f ∈ d.state.stack.frames, f.Known known
  code : ∀ a ∈ d.code.atoms, a.Known known

/-- A set of references with the addresses of `n` new objects. -/
def Fresh (known : Ref → Prop) (start : Addr) (n : Nat) (ref : Ref) : Prop :=
  known ref ∨ ∃ i < n, ref = .addr (start + i)

theorem Atom.Known.fresh {known : Ref → Prop} {start : Addr} {n i : Nat} (hi : i < n) :
    (Atom.ptr (start + i)).Known (Fresh known start n) := by
  rintro ref ⟨⟩
  exact .inr ⟨i, hi, rfl⟩

namespace State.Closed

variable {known known' : Ref → Prop} {s t : State}

/-- A known address holds an object. -/
theorem object? (h : s.Closed known) {a : Addr} (ha : known (.addr a)) :
    ∃ o, s.object? a = some o ∧ ∀ b ∈ o.atoms, b.Known known := by
  obtain ⟨atoms, hbehind, hatoms⟩ := h.behind _ ha
  obtain ⟨o, ho, rfl⟩ := Option.map_eq_some_iff.1 hbehind
  exact ⟨o, ho, hatoms⟩

/-- The atoms of an object at a known address are known. -/
theorem atoms_known (h : s.Closed known) {a : Addr} {o : Object} (ha : known (.addr a))
    (ho : s.object? a = some o) : ∀ b ∈ o.atoms, b.Known known := by
  obtain ⟨o', ho', hatoms⟩ := h.object? ha
  rw [ho] at ho'
  cases ho'
  exact hatoms

/-- Slots behind the end of the heap do not matter to a closed set. -/
theorem grow (h : s.Closed known) (slots : List (Option Object)) : (s.grow slots).Closed known := by
  refine ⟨fun ref href => ?_, h.globals⟩
  obtain ⟨atoms, hbehind, hatoms⟩ := h.behind ref href
  refine ⟨atoms, ?_, hatoms⟩
  cases ref with
  | cell k handle => exact hbehind
  | addr a =>
      obtain ⟨o, ho, rfl⟩ := Option.map_eq_some_iff.1 hbehind
      rw [behind?, object?_grow_of_lt (lt_of_object? ho), ho]
      rfl

/-- New objects that refer to known addresses and to each other extend a closed set. -/
theorem grow_fresh (h : s.Closed known) (objects : List Object)
    (hatoms : ∀ o ∈ objects, ∀ a ∈ o.atoms, a.Known (Fresh known s.heap.size objects.length)) :
    (s.grow (objects.map some)).Closed (Fresh known s.heap.size objects.length) := by
  have hsub : ∀ ref, known ref → Fresh known s.heap.size objects.length ref := fun _ href => .inl href
  refine ⟨fun ref href => ?_, h.globals.mono hsub⟩
  rcases href with href | ⟨i, hi, rfl⟩
  · obtain ⟨atoms, hbehind, hall⟩ := (h.grow (objects.map some)).behind ref href
    exact ⟨atoms, hbehind, fun a ha => (hall a ha).mono hsub⟩
  · have hslot : (objects.map some)[i]? = some (some objects[i]) := by
      rw [List.getElem?_map, List.getElem?_eq_getElem hi]
      rfl
    have hobject : (s.grow (objects.map some)).object? (s.heap.size + i) = some objects[i] := by
      rw [object?_grow, if_neg (Nat.not_lt.2 (Nat.le_add_right _ _)), Nat.add_sub_cancel_left, hslot]
      rfl
    refine ⟨objects[i].atoms, ?_, hatoms _ (List.getElem_mem hi)⟩
    rw [behind?, hobject]
    rfl

/-- One new object with known references extends a closed set by its address. -/
theorem grow_one (h : s.Closed known) {o : Object} (ho : ∀ a ∈ o.atoms, a.Known known) :
    (s.grow [some o]).Closed (Fresh known s.heap.size 1) := by
  refine h.grow_fresh [o] fun o' ho' a ha => ?_
  rw [List.mem_singleton.1 ho'] at ha
  exact (ho a ha).mono fun _ href => .inl href

/-- An object with known references may stand anywhere. -/
theorem overwrite (h : s.Closed known) (a : Addr) {o : Object} (ho : ∀ b ∈ o.atoms, b.Known known) :
    (s.overwrite a o).Closed known := by
  refine ⟨fun ref href => ?_, h.globals⟩
  obtain ⟨atoms, hbehind, hatoms⟩ := h.behind ref href
  cases ref with
  | cell k handle => exact ⟨atoms, hbehind, hatoms⟩
  | addr b =>
      by_cases hb : b = a ∧ a < s.heap.size
      · refine ⟨o.atoms, ?_, ho⟩
        rw [behind?, object?_overwrite, if_pos hb]
        rfl
      · refine ⟨atoms, ?_, hatoms⟩
        rw [behind?, object?_overwrite, if_neg hb]
        exact hbehind

theorem exists_cell (h : s.Closed known) {k : Space} {handle : Handle} (hk : known (.cell k handle)) :
    ∃ cell, s.spaces.cell? k handle = some cell ∧ ∀ a ∈ cell.atoms, a.Known known := by
  obtain ⟨atoms, hbehind, hatoms⟩ := h.behind _ hk
  obtain ⟨cell, hcell, rfl⟩ := Option.map_eq_some_iff.1 hbehind
  exact ⟨cell, hcell, hatoms⟩

/-- Other spaces keep a closed set, or extend it by handles, if the cells behind all its handles hold
known references. -/
theorem respaced (h : s.Closed known) {sp : Spaces} (hsub : ∀ ref, known ref → known' ref)
    (haddr : ∀ a, known' (.addr a) → known (.addr a))
    (hcells : ∀ k handle, known' (.cell k handle) →
      ∃ cell, sp.cell? k handle = some cell ∧ ∀ a ∈ cell.atoms, a.Known known') :
    ({ s with spaces := sp } : State).Closed known' := by
  refine ⟨fun ref href => ?_, h.globals.mono hsub⟩
  cases ref with
  | addr a =>
      obtain ⟨atoms, hbehind, hatoms⟩ := h.behind _ (haddr a href)
      exact ⟨atoms, hbehind, fun b hb => (hatoms b hb).mono hsub⟩
  | cell k handle =>
      obtain ⟨cell, hcell, hatoms⟩ := hcells k handle href
      refine ⟨cell.atoms, ?_, hatoms⟩
      change (sp.cell? k handle).map Cell.atoms = _
      rw [hcell]
      rfl

/-- A closed set is about the heap, the spaces and the top-level variables only. -/
theorem congr (h : s.Closed known) (hheap : t.heap = s.heap) (hspaces : t.spaces = s.spaces)
    (hglobals : t.globals = s.globals) : t.Closed known := by
  refine ⟨fun ref href => ?_, by rw [hglobals]; exact h.globals⟩
  have hbehind : t.behind? ref = s.behind? ref := by
    cases ref with
    | addr a => rw [behind?, behind?, State.object?, State.object?, hheap]
    | cell k handle => rw [behind?, behind?, hspaces]
  rw [hbehind]
  exact h.behind ref href

/-- What variables denote in a closed scope is known. -/
theorem lookup? (h : s.Closed known) (henv : s.env.Known known) (x : Ident) (a : Atom)
    (ha : s.lookup? x = some a) : a.Known known :=
  known_of_lookup? henv h.globals ha

/-- A group is built in a scope that knows its new addresses. -/
theorem lookup?_group (h : s.Closed known) (henv : s.env.Known known) (pairs : List (Ident × Rhs))
    (x : Ident) (a : Atom) (ha : (s.bindAll (references s.heap.size pairs)).lookup? x = some a) :
    a.Known (Fresh known s.heap.size pairs.length) := by
  have hsub : ∀ ref, known ref → Fresh known s.heap.size pairs.length ref := fun _ href => .inl href
  refine known_of_lookup? (s := s.bindAll (references s.heap.size pairs)) ?_ (h.globals.mono hsub) ha
  refine (henv.mono hsub).extend fun pair hpair => ?_
  obtain ⟨i, hi, hptr⟩ := exists_of_mem_references hpair
  rw [hptr]
  exact .fresh hi

end State.Closed

/-! ## Primitive operations -/

section Operations

variable {known : Ref → Prop} {s t : State} {call : Call} {atoms : List Atom}

/-- A call with known arguments is given known references only. -/
theorem known_of_covers (h : s.Closed known) (hargs : ∀ a ∈ call.args, a.Known known) {a : Atom}
    (ha : call.Covers s.spaces a) : a.Known known := by
  intro ref href
  obtain ⟨b, hb, hdirect | ⟨k, handle, cell, rfl, hfound, c, hc, hcref⟩⟩ := ha ref href
  · exact hargs b hb ref hdirect
  · obtain ⟨behind, hbehind, hall⟩ := h.behind (.cell k handle) (hargs _ hb _ (k.ref?_handle handle))
    rw [State.behind?, hfound] at hbehind
    cases hbehind
    exact hall c hc ref hcref

/-- An answered call keeps a closed set, or adds the one reference that it creates. -/
theorem State.Closed.answered (h : s.Closed known) (hargs : ∀ a ∈ call.args, a.Known known)
    (hans : Answered call s atoms t) :
    ∃ known' : Ref → Prop, (∀ ref, known ref → known' ref) ∧ t.Closed known' ∧
      ∀ a ∈ atoms, a.Known known' := by
  cases hans with
  | reply hcovers => exact ⟨known, fun _ h => h, h, fun a ha => known_of_covers h hargs (hcovers a ha)⟩
  | counted =>
      refine ⟨known, fun _ h => h, ⟨h.behind, h.globals⟩, fun a ha => ?_⟩
      rw [List.mem_singleton.1 ha]
      exact .scalar rfl
  | allocated con =>
      have hgrown := h.grow_one (o := .con con []) fun _ ha => absurd ha List.not_mem_nil
      refine ⟨_, fun _ href => .inl href, hgrown, fun a ha => ?_⟩
      rw [List.mem_singleton.1 ha]
      exact .fresh Nat.one_pos
  | @appended space cell sp a happends hcovers href =>
      let known' (ref : Ref) : Prop := known ref ∨ ref = .cell space (s.spaces.count space)
      have hsub : ∀ ref, known ref → known' ref := fun _ h => .inl h
      refine ⟨known', hsub, h.respaced hsub (fun b hb => ?_) (fun k handle hk => ?_), fun b hb => ?_⟩
      · exact hb.resolve_right (by rintro ⟨⟩)
      · rw [happends.cell?]
        split
        · exact ⟨cell, rfl, fun b hb => (known_of_covers h hargs (hcovers b hb)).mono hsub⟩
        · next hne =>
          have hold : known (.cell k handle) := hk.resolve_right (by rintro ⟨⟩; exact hne ⟨rfl, rfl⟩)
          obtain ⟨c, hc, hatoms⟩ := h.exists_cell hold
          exact ⟨c, hc, fun b hb => (hatoms b hb).mono hsub⟩
      · rw [List.mem_singleton.1 hb]
        intro ref hr
        rw [href] at hr
        cases hr
        exact .inr rfl
  | @overwritten space target cell sp _ harg hover hcovers hresults =>
      refine ⟨known, fun _ h => h, h.respaced (fun _ h => h) (fun _ h => h) (fun k handle hk => ?_), ?_⟩
      · rw [hover.cell?]
        split
        · exact ⟨cell, rfl, fun b hb => known_of_covers h hargs (hcovers b hb)⟩
        · exact h.exists_cell hk
      · exact fun a ha => known_of_covers h hargs (hresults a ha)

/-- A call with known arguments is not refused for want of an object. -/
theorem not_dangling_of_refused (h : s.Closed known) (hargs : ∀ a ∈ call.args, a.Known known)
    {cause : Cause} (hrefused : Refused call s cause) : cause.isDangling = false := by
  cases hrefused with
  | shape | wouldBlock | notAConstructor => rfl
  | @unknownAddress a harg hfound =>
      obtain ⟨o, ho, -⟩ := h.object? (hargs _ harg (.addr a) rfl)
      rw [hfound] at ho
      cases ho
  | @unknownHandle space handle harg hfound =>
      obtain ⟨cell, hcell, -⟩ := h.exists_cell (hargs _ harg _ (space.ref?_handle handle))
      rw [hfound] at hcell
      cases hcell

end Operations

/-! ## Transitions -/

namespace Snapshot.Closed

variable {known : Ref → Prop} {base : Nat} {s : State} {code : Code}

/-- Binding the value of a scrutinee binds a known atom. -/
theorem bindValue_env (henv : s.env.Known known) {atoms : List Atom}
    (hatoms : ∀ a ∈ atoms, a.Known known) (binder : Ident) :
    (s.bindValue binder atoms).env.Known known := by
  fun_cases State.bindValue s binder atoms with
  | case1 value => exact henv.bind (hatoms value List.mem_cons_self)
  | case2 => exact henv

/-- The fields that an alternative receives are known. -/
theorem fields_known (hstore : s.Closed known) {alts : List Alt} {altType : AltType}
    {atoms fields : List Atom} {scrutinee : Option (DataCon × List Atom)} {alt : Alt}
    (hatoms : ∀ a ∈ atoms, a.Known known) (hreads : Scrutinises s alts atoms scrutinee)
    (hfirst : Alt.first? alts altType atoms scrutinee = some (alt, fields)) :
    ∀ a ∈ fields, a.Known known := by
  intro a ha
  rcases (Alt.first?_cases hfirst).2 with rfl | rfl | ⟨k, rfl⟩
  · exact absurd ha List.not_mem_nil
  · exact hatoms a ha
  · cases hreads with
    | @some p _ _ _ hfound =>
        exact hstore.atoms_known (hatoms (.ptr p) List.mem_cons_self _ rfl) hfound a ha

/-- A new object is returned by its address. -/
theorem returned_new {o : Object} (hstore : s.Closed known) (henv : s.env.Known known)
    (hframes : ∀ f ∈ s.stack.frames, f.Known known) (ho : ∀ a ∈ o.atoms, a.Known known) :
    Closed (Fresh known s.heap.size 1) ⟨.ret [.ptr s.heap.size], s.grow [some o]⟩ := by
  have hsub : ∀ ref, known ref → Fresh known s.heap.size 1 ref := fun _ href => .inl href
  refine ⟨hstore.grow_one ho, henv.mono hsub, fun f hf => (hframes f hf).mono hsub, fun a ha => ?_⟩
  rw [List.mem_singleton.1 ha]
  exact .fresh Nat.one_pos

/-- A transition keeps a closed set, or makes it larger. -/
theorem transition {s' : State} {code' : Code} (h : Closed known ⟨code, s⟩)
    (htrans : Transition (.standard host) base code s code' s') :
    ∃ known' : Ref → Prop, (∀ ref, known ref → known' ref) ∧ Closed known' ⟨code', s'⟩ := by
  have hsame : ∀ ref, known ref → known ref := fun _ h => h
  have hstore : s.Closed known := h.store
  have henv : s.env.Known known := h.env
  have hframes : ∀ f ∈ s.stack.frames, f.Known known := h.frames
  have hlookup := hstore.lookup? henv
  -- Allocating transitions move to the set with the fresh addresses; the others keep the set.
  have hfresh : ∀ n ref, known ref → Fresh known s.heap.size n ref := fun _ _ href => .inl href
  cases htrans with
  | @app _ _ _ _ _ strings hhead hden =>
      have hargs := known_of_denotes_all hlookup hden
      refine ⟨known, hsame, ⟨?_, ?_, ?_, ?_⟩⟩
      · exact hstore.congr State.heap_pushArgs State.spaces_pushArgs State.globals_pushArgs
      · rw [State.env_pushArgs]
        exact henv
      · exact State.forall_frames_pushArgs (s := s.withStrings strings) hframes ⟨henv, hargs⟩
      · intro a ha
        rw [List.mem_singleton.1 ha]
        exact hlookup _ _ hhead
  | lit hlit =>
      refine ⟨known, hsame, ⟨hstore.congr rfl rfl rfl, henv, hframes, fun a ha => ?_⟩⟩
      rw [List.mem_singleton.1 ha]
      exact known_of_denotes hlookup hlit
  | @conApp _ k _ atoms strings hden =>
      have hstrings : (s.withStrings strings).Closed known := hstore.congr rfl rfl rfl
      exact ⟨_, hfresh 1, returned_new hstrings henv hframes (known_of_denotes_all hlookup hden)⟩
  | multiVal hden =>
      exact ⟨known, hsame, ⟨hstore.congr rfl rfl rfl, henv, hframes, known_of_denotes_all hlookup hden⟩⟩
  | @opApp _ _ _ _ _ _ atoms results strings hden heval =>
      have hargs := known_of_denotes_all hlookup hden
      have hans := Registry.standard_evaluate_eq_ok heval
      obtain ⟨known', hsub, hclosed, hresults⟩ :=
        State.Closed.answered (s := s.withStrings strings) (hstore.congr rfl rfl rfl) hargs hans
      obtain ⟨henv', hstack, -⟩ := hans.frame
      refine ⟨known', hsub, ⟨hclosed, ?_, ?_, hresults⟩⟩
      · rw [henv']
        exact henv.mono hsub
      · rw [hstack]
        exact fun f hf => (hframes f hf).mono hsub
  | case =>
      refine ⟨known, hsame, ⟨hstore.congr rfl rfl rfl, henv, fun f hf => ?_, h.code⟩⟩
      rcases List.mem_cons.1 hf with rfl | hf
      · exact ⟨henv, fun _ ha => absurd ha List.not_mem_nil⟩
      · exact hframes f hf
  | @letOne _ x _ _ o strings hbuilds =>
      have hstrings : (s.withStrings strings).Closed known := hstore.congr rfl rfl rfl
      have hgrown := hstrings.grow_one (known_of_builds hlookup hbuilds)
      have hbound : (s.env.bind x (.ptr s.heap.size)).Known (Fresh known s.heap.size 1) :=
        (henv.mono (hfresh 1)).bind (.fresh Nat.one_pos)
      exact ⟨_, hfresh 1, ⟨hgrown.congr rfl rfl rfl, hbound, fun f hf => (hframes f hf).mono (hfresh 1),
        fun _ ha => absurd ha List.not_mem_nil⟩⟩
  | @letGroup _ pairs _ objects strings hbuilds =>
      -- The members of a group refer to each other, so all are added at once.
      have hlength : objects.length = pairs.length := hbuilds.length_eq.symm
      have hgroup := hstore.lookup?_group henv pairs
      rw [← hlength] at hgroup
      have hgrown : (((s.bindAll (references s.heap.size pairs)).withStrings strings).grow
          (objects.map some)).Closed (Fresh known s.heap.size objects.length) := by
        refine State.Closed.grow_fresh (s := (s.bindAll (references s.heap.size pairs)).withStrings strings)
          (hstore.congr rfl rfl rfl) objects fun o ho => ?_
        obtain ⟨pair, -, hbuilt⟩ := exists_mem_of_forall₂ hbuilds o ho
        exact known_of_builds hgroup hbuilt
      refine ⟨_, hfresh _, ⟨hgrown, (henv.mono (hfresh _)).extend fun pair hpair => ?_,
        fun f hf => (hframes f hf).mono (hfresh _), fun _ ha => absurd ha List.not_mem_nil⟩⟩
      obtain ⟨i, hi, hptr⟩ := exists_of_mem_references hpair
      rw [hptr]
      exact .fresh (hlength ▸ hi)
  | enterScalar => exact ⟨known, hsame, ⟨hstore, henv, hframes, h.code⟩⟩
  | enterValue => exact ⟨known, hsame, ⟨hstore, henv, hframes, h.code⟩⟩
  | @enterThunk _ p c hfound =>
      have hp : known (.addr p) := h.code (.ptr p) List.mem_cons_self _ rfl
      have hatoms := hstore.atoms_known hp hfound
      have hcovered : (s.overwrite p (.blackhole (.closure c))).Closed known := hstore.overwrite p hatoms
      refine ⟨known, hsame, ⟨hcovered.congr rfl rfl rfl, fun entry hentry => ?_, fun f hf => ?_, ?_⟩⟩
      · exact hatoms entry.2 (List.mem_append_left _ (List.mem_map_of_mem hentry))
      · rcases List.mem_cons.1 hf with rfl | hf
        · exact ⟨henv, h.code⟩
        · exact hframes f hf
      · exact fun _ ha => absurd ha List.not_mem_nil
  | @update _ frame rest target result o hpop _ hcont hfound =>
      obtain ⟨hframe, hrest⟩ := Stack.forall_frames_of_pop? h.frames hpop
      have hatoms := hstore.atoms_known (h.code (.ptr result) List.mem_cons_self _ rfl) hfound
      have hupdated : ((s.resumed frame rest).overwrite target o).Closed known :=
        State.Closed.overwrite (s := s.resumed frame rest) (hstore.congr rfl rfl rfl) target hatoms
      exact ⟨known, hsame, ⟨hupdated, hframe.1, hrest, h.code⟩⟩
  | @applyPartial _ frame rest args p c hpop _ hcont hfound =>
      obtain ⟨hframe, hrest⟩ := Stack.forall_frames_of_pop? h.frames hpop
      have hatoms := hstore.atoms_known (h.code (.ptr p) List.mem_cons_self _ rfl) hfound
      have hresumed : (s.resumed frame rest).Closed known := hstore.congr rfl rfl rfl
      refine ⟨_, hfresh 1, returned_new hresumed hframe.1 hrest fun a ha => ?_⟩
      -- A partial application holds what its function held, and the new arguments.
      rcases List.mem_append.1 ha with ha | ha
      · exact hatoms a (List.mem_append_left _ ha)
      · rcases List.mem_append.1 ha with ha | ha
        · exact hatoms a (List.mem_append_right _ ha)
        · exact hframe.args hcont a ha
  | @applyFull _ frame rest args p c hpop _ hcont hfound =>
      obtain ⟨hframe, hrest⟩ := Stack.forall_frames_of_pop? h.frames hpop
      have hatoms := hstore.atoms_known (h.code (.ptr p) List.mem_cons_self _ rfl) hfound
      have hargs := hframe.args hcont
      have hscope : (c.scope args).Known known := by
        refine Env.Known.extend (fun entry hentry => ?_) fun pair hpair => ?_
        · exact hatoms entry.2 (List.mem_append_left _ (List.mem_map_of_mem hentry))
        · rcases List.mem_append.1 (List.of_mem_zip hpair).2 with ha | ha
          · exact hatoms _ (List.mem_append_right _ ha)
          · exact hargs _ (List.mem_of_mem_take ha)
      have hextra : ∀ a ∈ args.drop c.missing, a.Known known :=
        fun a ha => hargs a (List.mem_of_mem_drop ha)
      refine ⟨known, hsame, ⟨?_, hscope, ?_, fun _ ha => absurd ha List.not_mem_nil⟩⟩
      · exact hstore.congr State.heap_pushArgs State.spaces_pushArgs State.globals_pushArgs
      · exact State.forall_frames_pushArgs (s := s.resumed frame rest) hrest ⟨hframe.1, hextra⟩
  | @select _ frame rest binder altType alts atoms fields scrutinee alt hpop _ hcont hreads hfirst =>
      obtain ⟨hframe, hrest⟩ := Stack.forall_frames_of_pop? h.frames hpop
      have hfields := fields_known hstore h.code hreads hfirst
      have hbound : ((s.resumed frame rest).bindValue binder atoms).env.Known known :=
        bindValue_env hframe.1 h.code binder
      obtain ⟨env, henv'⟩ := State.bindValue_eq (s.resumed frame rest) binder atoms
      rw [henv'] at hbound ⊢
      refine ⟨known, hsame, ⟨hstore.congr rfl rfl rfl, Env.Known.extend hbound fun pair hpair => ?_, hrest,
        fun _ ha => absurd ha List.not_mem_nil⟩⟩
      exact hfields _ (List.of_mem_zip hpair).2

/-- A failing transition does not fail for want of an object, and what it leaves behind is closed. -/
theorem failure {s' : State} {e : Fault} (h : Closed known ⟨code, s⟩)
    (hfail : Failure (.standard host) base code s e s') : e.cause.isDangling = false ∧ s'.Closed known := by
  have hstore : s.Closed known := h.store
  have hlookup := hstore.lookup? h.env
  cases hfail with
  | unbound => exact ⟨rfl, hstore.congr rfl rfl rfl⟩
  | @unboundMember _ _ _ _ _ _ _ _ strings bound =>
      -- The empty slots stay, but nothing in the set refers to them.
      refine ⟨rfl, State.Closed.grow (s := (s.bindAll bound).withStrings strings) ?_ _⟩
      exact hstore.congr rfl rfl rfl
  | overflow => exact ⟨rfl, hstore.congr rfl rfl rfl⟩
  | @operation _ _ _ _ _ _ _ strings _ hden heval =>
      have hargs := known_of_denotes_all hlookup hden
      have hstrings : (s.withStrings strings).Closed known := hstore.congr rfl rfl rfl
      obtain ⟨rfl, -, hrefused | hunknown⟩ := Registry.standard_evaluate_eq_error heval
      · exact ⟨not_dangling_of_refused hstrings hargs hrefused, hstrings⟩
      · rw [hunknown]
        exact ⟨rfl, hstrings⟩
  | @dangling _ p hfound =>
      obtain ⟨o, ho, -⟩ := hstore.object? (h.code (.ptr p) List.mem_cons_self _ rfl)
      rw [hfound] at ho
      cases ho
  | blackholed => exact ⟨rfl, hstore⟩
  | @covered _ p c hfound =>
      have hatoms := hstore.atoms_known (h.code (.ptr p) List.mem_cons_self _ rfl) hfound
      exact ⟨rfl, hstore.overwrite p hatoms⟩
  | @rejected _ frame rest atoms cause env hpop _ hwhy =>
      refine ⟨?_, hstore.congr rfl rfl rfl⟩
      obtain ⟨hframe, -⟩ := Stack.forall_frames_of_pop? h.frames hpop
      have hcont := hframe.2
      generalize frame.cont = cont at hwhy hcont
      cases hwhy with
      | notAReference | notAFunction | overflow | notAConstructor | noMatch => rfl
      | @unknownTarget target hunknown =>
          -- The target of an update frame counts as held by the frame.
          obtain ⟨o, ho, -⟩ := hstore.object? (hcont (.ptr target) List.mem_cons_self _ rfl)
          exact absurd (State.lt_of_object? ho) hunknown
      | @dangling _ p hvalues hfound =>
          have hp : .ptr p ∈ atoms := by rw [hvalues]; exact List.mem_cons_self
          obtain ⟨o, ho, -⟩ := hstore.object? (h.code (.ptr p) hp _ rfl)
          exact absurd (hfound.symm.trans ho) (by simp)

/-- Wherever a run gets to, a larger set is closed. -/
theorem reaches {c d : Snapshot} (hreach : Reaches (.standard host) base c d) (h : c.Closed known) :
    ∃ known' : Ref → Prop, (∀ ref, known ref → known' ref) ∧ d.Closed known' := by
  induction hreach with
  | refl => exact ⟨known, fun _ h => h, h⟩
  | tail _ hlast ih =>
      obtain ⟨known', hsub, hclosed⟩ := ih
      obtain ⟨known'', hsub', hclosed'⟩ := hclosed.transition hlast.transition
      exact ⟨known'', fun ref href => hsub' ref (hsub ref href), hclosed'⟩

end Snapshot.Closed

/-! ## Sessions -/

/-- The atoms that a caller passes in. -/
def Command.passed : Command → List Atom
  | .load _ | .runEntry => []
  | .eval _ env _ => env.entries.map Prod.snd
  | .force a => [a]

/-- The atoms that a call returned. -/
def Event.returned (event : Event) : List Atom :=
  match event.reply with
  | .ok atoms => atoms
  | .error _ => []

/-- Whether a call could not load a program. -/
def Event.failsToLoad (event : Event) : Bool :=
  match event.command, event.reply with
  | .load _, .error _ => true
  | _, _ => false

/-- No call that loads a program fails, and every reference that a caller passes in was returned by an
earlier call. -/
def WellCalled : List Event → Prop
  | [] => True
  | event :: earlier =>
    WellCalled earlier ∧ event.failsToLoad = false ∧
      ∀ ref ∈ event.command.passed.filterMap Atom.ref?,
        ∃ old ∈ earlier, ref ∈ old.returned.filterMap Atom.ref?

instance WellCalled.decidable : (events : List Event) → Decidable (WellCalled events)
  | [] => .isTrue trivial
  | event :: earlier =>
    have := WellCalled.decidable earlier
    inferInstanceAs (Decidable (WellCalled earlier ∧ event.failsToLoad = false ∧
      ∀ ref ∈ event.command.passed.filterMap Atom.ref?,
        ∃ old ∈ earlier, ref ∈ old.returned.filterMap Atom.ref?))

section Session

variable {config : Config} {events : List Event} {m : Machine} {known : Ref → Prop}

/-- Loading a program extends a closed set by its top-level objects. -/
theorem State.Closed.allocateGlobals {s t : State} {pairs : List (Ident × Rhs)} {u : Unit}
    (h : s.Closed known) (hok : Exec.allocateGlobals pairs s = .ok u t) :
    t.Closed (Fresh known s.heap.size pairs.length) := by
  obtain ⟨strings, objects, hbuilds, rfl⟩ := Exec.allocateGlobals_eq_ok hok
  have hlength : objects.length = pairs.length := hbuilds.length_eq.symm
  have hsub : ∀ ref, known ref → Fresh known s.heap.size pairs.length ref := fun _ href => .inl href
  have hglobals : (Exec.declared s pairs).globals.Known (Fresh known s.heap.size pairs.length) := by
    refine (h.globals.mono hsub).extend fun pair hpair => ?_
    obtain ⟨i, hi, hptr⟩ := exists_of_mem_references hpair
    rw [hptr]
    rintro ref ⟨⟩
    exact .inr ⟨i, hi, rfl⟩
  -- The objects are appended to the heap with the old top-level variables; then these are replaced.
  have hgrown := h.grow_fresh objects (by
    intro o ho
    obtain ⟨pair, -, hbuilt⟩ := exists_mem_of_forall₂ hbuilds o ho
    rw [hlength]
    exact known_of_builds (fun x a ha => State.known_of_lookup?
      (s := (Exec.declared s pairs).enterScope pair.1 .empty) .empty hglobals ha) hbuilt)
  rw [hlength] at hgrown
  exact ⟨hgrown.behind, hglobals⟩

/-- The run that a call starts is closed if the passed atoms are known. -/
theorem Command.closed_of_start? {command : Command} {start : Snapshot} (hidle : Idle config m)
    (h : m.state.Closed known) (hpassed : ∀ a ∈ command.passed, a.Known known)
    (hstart : command.start? m = some start) : start.Closed known := by
  have hframes : ∀ f ∈ m.state.stack.frames, f.Known known := by
    rw [hidle.frames]
    exact fun _ hf => absurd hf List.not_mem_nil
  have henv : m.state.env.Known known := by
    rw [hidle.env]
    exact .empty
  cases command with
  | load p => cases hstart
  | runEntry =>
      obtain ⟨entry, a, -, ha, rfl⟩ := Command.start?_runEntry hstart
      refine ⟨h.congr rfl rfl rfl, .empty, hframes, fun b hb => ?_⟩
      rw [List.mem_singleton.1 hb]
      exact h.lookup? henv entry a ha
  | eval name env e =>
      cases hstart
      refine ⟨h.congr rfl rfl rfl, fun entry hentry => ?_, hframes, fun _ ha => absurd ha List.not_mem_nil⟩
      exact hpassed entry.2 (List.mem_map_of_mem hentry)
  | force a =>
      cases hstart
      exact ⟨h.congr rfl rfl rfl, henv, hframes, hpassed⟩

/-- A call with known atoms does not fail for want of an object, returns known atoms, and leaves a
closed set behind. -/
theorem Called.closed {m' : Machine} {command : Command} {reply : Reply} (hidle : Idle config m)
    (h : m.state.Closed known) (hpassed : ∀ a ∈ command.passed, a.Known known)
    (hload : Event.failsToLoad ⟨command, reply⟩ = false) (hcalled : Called m command reply m') :
    (∀ e, reply = .error e → e.cause.isDangling = false) ∧
      ∃ known' : Ref → Prop, (∀ ref, known ref → known' ref) ∧ m'.state.Closed known' ∧
        ∀ a ∈ Event.returned ⟨command, reply⟩, a.Known known' := by
  obtain ⟨host, hregistry⟩ := hidle.registry
  have hsame : ∀ ref, known ref → known ref := fun _ h => h
  have hrun : ∀ {start d : Snapshot}, command.start? m = some start →
      Reaches m.registry m.state.stack.depth start d →
        ∃ known' : Ref → Prop, (∀ ref, known ref → known' ref) ∧ d.Closed known' := by
    intro start d hstart hreach
    rw [hregistry] at hreach
    exact (Command.closed_of_start? hidle h hpassed hstart).reaches hreach
  have hnone : ∀ {known' : Ref → Prop} {e : Fault},
      ∀ a ∈ Event.returned ⟨command, .error e⟩, a.Known known' :=
    fun _ ha => absurd ha List.not_mem_nil
  cases hcalled with
  | loaded hok =>
      refine ⟨fun e he => (nomatch he), _, fun _ href => .inl href, h.allocateGlobals hok, ?_⟩
      exact fun _ ha => absurd ha List.not_mem_nil
  | notLoaded => cases hload
  | noEntry hcause =>
      refine ⟨fun e he => ?_, known, hsame, h, hnone⟩
      cases he
      rcases hcause with hcause | ⟨_, _, _, hcause⟩ <;> rw [hcause] <;> rfl
  | returned hstart hreach hcode =>
      obtain ⟨known', hsub, hclosed⟩ := hrun hstart hreach
      refine ⟨fun e he => (nomatch he), known', hsub, hclosed.store.congr rfl rfl rfl, ?_⟩
      have hatoms := hclosed.code
      rw [hcode] at hatoms
      exact hatoms
  | failed hstart hreach hfails =>
      obtain ⟨known', hsub, hclosed⟩ := hrun hstart hreach
      rw [hregistry] at hfails
      obtain ⟨hcause, hleft⟩ := hclosed.failure (step_eq_error hfails)
      refine ⟨fun e he => ?_, known', hsub, hleft.congr rfl rfl rfl, hnone⟩
      cases he
      exact hcause
  | exhausted hstart hreach hcause =>
      obtain ⟨known', hsub, hclosed⟩ := hrun hstart hreach
      refine ⟨fun e he => ?_, known', hsub, hclosed.store.congr rfl rfl rfl, hnone⟩
      cases he
      rw [hcause]
      rfl
  | notOneValue hstart hreach _ _ hcause =>
      obtain ⟨known', hsub, hclosed⟩ := hrun hstart hreach
      refine ⟨fun e he => ?_, known', hsub, hclosed.store.congr rfl rfl rfl, hnone⟩
      cases he
      rw [hcause]
      rfl

/-- In a well-called session some closed set holds all that was ever returned, and no call failed for
want of an object. -/
theorem Session.closed (h : Session config events m) (hcalls : WellCalled events) :
    (∃ known : Ref → Prop, m.state.Closed known ∧
      ∀ event ∈ events, ∀ a ∈ event.returned, a.Known known) ∧
    ∀ event ∈ events, ∀ e, event.reply = .error e → e.cause.isDangling = false := by
  induction h with
  | fresh =>
      refine ⟨⟨fun _ => False, ⟨fun _ h => h.elim, .empty⟩, ?_⟩, ?_⟩
      · exact fun _ hevent => absurd hevent List.not_mem_nil
      · exact fun _ hevent => absurd hevent List.not_mem_nil
  | @call events m m' command reply fuel hsession hperforms ih =>
      obtain ⟨hearlier, hload, hpasses⟩ := hcalls
      obtain ⟨⟨known, hclosed, hreturned⟩, hfaults⟩ := ih hearlier
      have hpassed : ∀ a ∈ command.passed, a.Known known := by
        intro a ha ref href
        obtain ⟨old, hold, href'⟩ := hpasses ref (List.mem_filterMap.2 ⟨a, ha, href⟩)
        obtain ⟨b, hb, hbref⟩ := List.mem_filterMap.1 href'
        exact hreturned old hold b hb ref hbref
      obtain ⟨hfault, known', hsub, hclosed', hnew⟩ :=
        (Command.perform_eq_some hperforms).closed hsession.idle hclosed hpassed hload
      refine ⟨⟨known', hclosed', fun event hevent => ?_⟩, fun event hevent => ?_⟩
      · rcases List.mem_cons.1 hevent with rfl | hevent
        · exact hnew
        · exact fun a ha => (hreturned event hevent a ha).mono hsub
      · rcases List.mem_cons.1 hevent with rfl | hevent
        · exact hfault
        · exact hfaults event hevent

/-- In a well-called session no call fails because there is no object at an address or behind a
handle, whatever earlier calls failed with. -/
theorem Session.no_dangling_references (h : Session config events m) (hcalls : WellCalled events)
    {event : Event} (hevent : event ∈ events) {e : Fault} (hreply : event.reply = .error e) :
    (∀ a, e.cause ≠ .unknownAddress a) ∧ ∀ space handle, e.cause ≠ .unknownHandle space handle := by
  have hcause := (h.closed hcalls).2 event hevent e hreply
  refine ⟨fun a ha => ?_, fun space handle ha => ?_⟩
  · rw [ha] at hcause
    cases hcause
  · rw [ha] at hcause
    cases hcause

end Session

/-- A session with a recursive group that fails at its second member. The first one was built and refers
to the second, whose slot stays empty; the result of the call before can still be forced. -/
def brokenGroupCalls : List Command :=
  let nullary : DataCon := ⟨"Unit", 0, 0⟩
  let box : DataCon := ⟨"Box", 0, 1⟩
  let main : Ident := .ofName "main"
  let (x, y, z) := (Ident.ofName "x", Ident.ofName "y", Ident.ofName "z")
  let group : Binding := .group [(x, .con box [.var y]), (y, .con box [.var z])]
  [.force (.ptr 1), .eval main .empty (.letIn group (.app x [])), .runEntry,
    .load ⟨[.nonRec main (.closure [] ⟨[], .conApp nullary []⟩)], main⟩]

theorem Session.no_dangling_references_brokenGroup :
    ∃ events m, Session.play {} 10 brokenGroupCalls = some (events, m) ∧
      ∃ event ∈ events, ∃ e, event.reply = .error e ∧
        (∀ a, e.cause ≠ .unknownAddress a) ∧ ∀ space handle, e.cause ≠ .unknownHandle space handle := by
  have hplayed : (Session.play {} 10 brokenGroupCalls).any (fun result =>
      decide (WellCalled result.1) && result.1.any fun event => !event.reply.isOk) := by
    decide +kernel
  obtain ⟨⟨events, m⟩, hplay, hresult⟩ := (Option.any_eq_true _ _).1 hplayed
  obtain ⟨hcalls, hfailed⟩ := Bool.and_eq_true_iff.1 hresult
  obtain ⟨event, hevent, hreply⟩ := List.any_eq_true.1 hfailed
  refine ⟨events, m, hplay, event, hevent, ?_⟩
  cases hcase : event.reply with
  | ok atoms =>
      rw [hcase] at hreply
      cases hreply
  | error e =>
      exact ⟨e, rfl, Session.no_dangling_references (Session.of_play hplay) (of_decide_eq_true hcalls)
        hevent hcase⟩

end Spineless
