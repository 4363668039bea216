import Spineless.Proofs.Step

/-!
# The choice of an alternative

`AltCon.Receives` says which patterns match returned values and what their binders are bound to, one
pattern at a time: a default matches anything. The choice reads the constructor behind a returned reference
before it looks at any alternative, as soon as one of them asks for a constructor. So it takes the first
alternative that matches, except for a reference to something other than a constructor (`Unreadable`):
there it fails, even if a default stands in the list.
-/

namespace Spineless

/-- The values for the binders of an alternative whose pattern matches the returned values. -/
inductive AltCon.Receives (s : State) (altType : AltType) (atoms : List Atom) : AltCon → List Atom → Prop
  /-- A default takes all values of an unboxed tuple. -/
  | tuple (multi : altType.isMultiVal = true) : Receives s altType atoms .default atoms
  /-- A default takes nothing of any other scrutinee. -/
  | default (single : altType.isMultiVal = false) : Receives s altType atoms .default []
  /-- A constructor of the same name gives its fields. -/
  | data {k found : DataCon} {fields : List Atom} {p : Addr} (values : atoms = [.ptr p])
      (object : s.object? p = some (.con found fields)) (name : found.name = k.name) :
      Receives s altType atoms (.data k) fields
  /-- A literal that equals the one value gives nothing. -/
  | lit {l : Lit} {value expected : Atom} (values : atoms = [value]) (literal : l.atom? = some expected)
      (equal : (value == expected) = true) : Receives s altType atoms (.lit l) []

/-- An alternative matches the returned values. -/
def Alt.Matches (s : State) (altType : AltType) (atoms : List Atom) (alt : Alt) : Prop :=
  ∃ fields, alt.con.Receives s altType atoms fields

/-- Some alternative asks for a constructor, but the values are one reference to something else. -/
def Unreadable (s : State) (alts : List Alt) (atoms : List Atom) : Prop :=
  alts.any Alt.isData = true ∧
    ∃ p, atoms = [.ptr p] ∧ ∀ k fields, s.object? p ≠ some (.con k fields)

section Match

variable {s : State} {altType : AltType} {alts : List Alt} {atoms fields : List Atom}
  {found : Option (DataCon × List Atom)} {alt : Alt}

/-! ## One alternative -/

theorem Alt.matches_of_default (h : alt.con = .default) : alt.Matches s altType atoms := by
  unfold Alt.Matches
  rw [h]
  cases hmulti : altType.isMultiVal with
  | true => exact ⟨atoms, .tuple hmulti⟩
  | false => exact ⟨[], .default hmulti⟩

/-- Once the constructor was read, a pattern matches as `Receives` says. -/
theorem Alt.fields?_eq_some (hreads : Scrutinises s alts atoms found) (hmem : alt ∈ alts) :
    alt.fields? altType atoms found = some fields ↔ alt.con.Receives s altType atoms fields := by
  unfold Alt.fields?
  cases hcon : alt.con with
  | default =>
      cases hmulti : altType.isMultiVal with
      | true =>
          constructor
          · rintro ⟨⟩
            exact .tuple hmulti
          · rintro (_ | hsingle)
            · rfl
            · cases hmulti.symm.trans hsingle
      | false =>
          constructor
          · rintro ⟨⟩
            exact .default hmulti
          · rintro (htuple | _)
            · cases hmulti.symm.trans htuple
            · rfl
  | data k =>
      have hasked : alts.any Alt.isData = true :=
        List.any_eq_true.2 ⟨alt, hmem, by rw [Alt.isData, hcon]⟩
      cases hreads with
      | none hunasked =>
          constructor
          · rintro ⟨⟩
          · rintro (_ | _ | ⟨hvalues, -, -⟩)
            exact absurd hvalues (hunasked hasked _)
      | @some p found values _ hobject =>
          constructor
          · intro h
            dsimp only at h
            split at h
            · next hname =>
              cases h
              exact .data rfl hobject (beq_iff_eq.1 hname)
            · cases h
          · rintro (_ | _ | ⟨hvalues, hobject', hname⟩)
            cases hvalues
            cases hobject.symm.trans hobject'
            dsimp only
            rw [if_pos (beq_iff_eq.2 hname)]
  | lit l =>
      constructor
      · intro h
        dsimp only at h
        split at h
        · next value expected hliteral =>
          split at h
          · next hequal =>
            cases h
            exact .lit rfl hliteral hequal
          · cases h
        · cases h
      · rintro (_ | _ | _ | ⟨rfl, hliteral, hequal⟩)
        simp only [hliteral, hequal, if_true]

/-- Once the constructor was read, what does not match receives nothing. -/
theorem Alt.fields?_eq_none (hreads : Scrutinises s alts atoms found) (hmem : alt ∈ alts) :
    alt.fields? altType atoms found = none ↔ ¬ alt.Matches s altType atoms := by
  rw [Option.eq_none_iff_forall_ne_some]
  constructor
  · rintro hnone ⟨fields, hfields⟩
    exact hnone fields ((fields?_eq_some hreads hmem).2 hfields)
  · intro hmatches fields hfields
    exact hmatches ⟨fields, (fields?_eq_some hreads hmem).1 hfields⟩

/-! ## The constructor of the scrutinee -/

/-- The constructor is read, if it is one. -/
theorem Exec.scrutinee?_of_scrutinises (h : Scrutinises s alts atoms found) :
    scrutinee? alts atoms s = .ok found s := by
  cases h with
  | none hunasked =>
      unfold scrutinee?
      split
      · next p =>
        rw [if_neg fun hasked => hunasked hasked p rfl]
        rfl
      · rfl
  | some hasked hobject =>
      rw [scrutinee?, if_pos hasked]
      have hread : readCon _ s = _ := bind_of_ok (read_eq_ok.2 ⟨hobject, rfl⟩)
      exact bind_of_ok hread

/-- What is no constructor cannot be read. -/
theorem Exec.scrutinee?_of_unreadable (h : Unreadable s alts atoms) :
    ∃ e, scrutinee? alts atoms s = .error e s := by
  obtain ⟨hasked, p, rfl, hobject⟩ := h
  rw [scrutinee?, if_pos hasked]
  cases ho : s.object? p with
  | none =>
      have hread : readCon p s = .error ⟨.unknownAddress p, s.trace⟩ s :=
        bind_eq_error.2 (.inl (read_eq_error.2 ⟨ho, rfl, rfl⟩))
      exact ⟨_, bind_eq_error.2 (.inl hread)⟩
  | some o =>
      have hread : readCon p s = .error ⟨.notAConstructor p o.shape, s.trace⟩ s := by
        refine (bind_of_ok (read_eq_ok.2 ⟨ho, rfl⟩)).trans ?_
        cases o with
        | con k fields => exact absurd ho (hobject k fields)
        | closure c => rfl
        | blackhole o => rfl
      exact ⟨_, bind_eq_error.2 (.inl hread)⟩

/-- A scrutinee is read, unless it is unreadable. -/
theorem exists_scrutinises (h : ¬ Unreadable s alts atoms) : ∃ found, Scrutinises s alts atoms found := by
  by_cases hasked : alts.any Alt.isData = true
  · by_cases hvalues : ∃ p, atoms = [.ptr p]
    · obtain ⟨p, rfl⟩ := hvalues
      by_cases hobject : ∃ k fields, s.object? p = some (.con k fields)
      · obtain ⟨k, fields, hobject⟩ := hobject
        exact ⟨_, .some hasked hobject⟩
      · exact absurd ⟨hasked, p, rfl, fun k fields hcon => hobject ⟨k, fields, hcon⟩⟩ h
    · exact ⟨_, .none fun _ p hp => hvalues ⟨p, hp⟩⟩
  · exact ⟨_, .none fun hasked' => absurd hasked' hasked⟩

/-! ## The first match -/

/-- The alternative that is taken is the first that matches. -/
theorem Alt.first?_eq_some (hreads : Scrutinises s alts atoms found) :
    Alt.first? alts altType atoms found = some (alt, fields) ↔
      ∃ before after, alts = before ++ alt :: after ∧ (∀ other ∈ before, ¬ other.Matches s altType atoms) ∧
        alt.con.Receives s altType atoms fields := by
  unfold Alt.first?
  rw [List.findSome?_eq_some_iff]
  constructor
  · rintro ⟨before, taken, after, rfl, htaken, hbefore⟩
    obtain ⟨values, hvalues, heq⟩ := Option.map_eq_some_iff.1 htaken
    cases heq
    refine ⟨before, after, rfl, fun other hother => ?_, (fields?_eq_some hreads (by simp)).1 hvalues⟩
    exact (fields?_eq_none hreads (by simp [hother])).1 (Option.map_eq_none_iff.1 (hbefore other hother))
  · rintro ⟨before, after, rfl, hbefore, hreceives⟩
    refine ⟨before, alt, after, rfl, ?_, fun other hother => Option.map_eq_none_iff.2 ?_⟩
    · rw [(fields?_eq_some hreads (by simp)).2 hreceives]
      rfl
    · exact (fields?_eq_none hreads (by simp [hother])).2 (hbefore other hother)

/-- No alternative is taken if none matches. -/
theorem Alt.first?_eq_none (hreads : Scrutinises s alts atoms found) :
    Alt.first? alts altType atoms found = none ↔ ∀ alt ∈ alts, ¬ alt.Matches s altType atoms := by
  unfold Alt.first?
  rw [List.findSome?_eq_none_iff]
  refine forall₂_congr fun alt hmem => ?_
  rw [Option.map_eq_none_iff, fields?_eq_none hreads hmem]

end Match

namespace Exec

variable {s : State} {binder : Ident} {altType : AltType} {alts : List Alt} {atoms fields : List Atom}
  {found : Option (DataCon × List Atom)} {alt : Alt}

/-- Binding the value of a scrutinee leaves the heap alone. -/
theorem object?_bindValue (s : State) (binder : Ident) (atoms : List Atom) :
    (s.bindValue binder atoms).object? = s.object? := by
  obtain ⟨env, henv⟩ := State.bindValue_eq s binder atoms
  rw [henv]
  rfl

/-- The constructor is read after the value is bound, from the same heap. -/
theorem scrutinee?_bindValue (h : Scrutinises s alts atoms found) (binder : Ident) :
    scrutinee? alts atoms (s.bindValue binder atoms) = .ok found (s.bindValue binder atoms) := by
  refine scrutinee?_of_scrutinises ?_
  cases h with
  | none hunasked => exact .none hunasked
  | some hasked hobject => exact .some hasked (by rw [object?_bindValue]; exact hobject)

/-- The alternative that is taken goes on, in the scope of the case and with its binders bound. -/
theorem select_of_some (hreads : Scrutinises s alts atoms found)
    (hfirst : Alt.first? alts altType atoms found = some (alt, fields)) :
    select binder altType alts atoms s =
      .ok (.eval alt.rhs) ((s.bindValue binder atoms).bindAll (alt.binders.zip fields)) := by
  rw [select, bind_of_ok (bindValue_apply binder atoms s), bind_of_ok (scrutinee?_bindValue hreads binder)]
  simp only [hfirst]
  rfl

/-- There is no way on if no alternative is taken. -/
theorem select_of_none (binder : Ident) (hreads : Scrutinises s alts atoms found)
    (hfirst : Alt.first? alts altType atoms found = none) :
    ∃ e t, select binder altType alts atoms s = .error e t := by
  rw [select, bind_of_ok (bindValue_apply binder atoms s), bind_of_ok (scrutinee?_bindValue hreads binder)]
  simp only [hfirst]
  exact ⟨_, _, rfl⟩

/-- There is no way on from an unreadable scrutinee. -/
theorem select_of_unreadable (binder : Ident) (altType : AltType) (h : Unreadable s alts atoms) :
    ∃ e t, select binder altType alts atoms s = .error e t := by
  rw [select, bind_of_ok (bindValue_apply binder atoms s)]
  have hbound : Unreadable (s.bindValue binder atoms) alts atoms := by
    unfold Unreadable
    rw [object?_bindValue]
    exact h
  obtain ⟨e, hfails⟩ := scrutinee?_of_unreadable hbound
  exact ⟨_, _, bind_eq_error.2 (.inl hfails)⟩

/-- An alternative is chosen if the scrutinee can be read and some alternative matches. -/
theorem exists_select_iff (binder : Ident) :
    (∃ code t, select binder altType alts atoms s = .ok code t) ↔
      ¬ Unreadable s alts atoms ∧ ∃ alt ∈ alts, alt.Matches s altType atoms := by
  constructor
  · rintro ⟨code, t, h⟩
    have hreadable : ¬ Unreadable s alts atoms := by
      intro hunreadable
      obtain ⟨e, u, hfails⟩ := select_of_unreadable binder altType hunreadable
      cases hfails.symm.trans h
    obtain ⟨found, hreads⟩ := exists_scrutinises hreadable
    refine ⟨hreadable, ?_⟩
    by_contra hnone
    have hfirst := (Alt.first?_eq_none hreads).2 fun alt hmem hmatches => hnone ⟨alt, hmem, hmatches⟩
    obtain ⟨e, u, hfails⟩ := select_of_none binder hreads hfirst
    cases hfails.symm.trans h
  · rintro ⟨hreadable, alt, hmem, hmatches⟩
    obtain ⟨found, hreads⟩ := exists_scrutinises hreadable
    cases hfirst : Alt.first? alts altType atoms found with
    | none => exact absurd hmatches ((Alt.first?_eq_none hreads).1 hfirst alt hmem)
    | some taken => exact ⟨_, _, select_of_some hreads hfirst⟩

/-- The choice of an alternative takes the first that matches, in the scope of the case with the value of the
scrutinee bound and then its own binders. It fails if none matches or the scrutinee is unreadable; so if a
default stands among the alternatives, it fails exactly for an unreadable scrutinee. -/
theorem select_first_match (s : State) (binder : Ident) (altType : AltType) (alts : List Alt)
    (atoms : List Atom) :
    (∀ code t, select binder altType alts atoms s = .ok code t ↔
      ¬ Unreadable s alts atoms ∧ ∃ before alt after fields, alts = before ++ alt :: after ∧
        (∀ other ∈ before, ¬ other.Matches s altType atoms) ∧ alt.con.Receives s altType atoms fields ∧
        code = .eval alt.rhs ∧ t = (s.bindValue binder atoms).bindAll (alt.binders.zip fields)) ∧
    ((∃ e t, select binder altType alts atoms s = .error e t) ↔
      Unreadable s alts atoms ∨ ∀ alt ∈ alts, ¬ alt.Matches s altType atoms) ∧
    ((∃ alt ∈ alts, alt.con = .default) →
      ((∃ e t, select binder altType alts atoms s = .error e t) ↔ Unreadable s alts atoms)) := by
  -- The outcome is a failure exactly if it is no success.
  have hfails : (∃ e t, select binder altType alts atoms s = .error e t) ↔
      Unreadable s alts atoms ∨ ∀ alt ∈ alts, ¬ alt.Matches s altType atoms := by
    have hnot : (∃ e t, select binder altType alts atoms s = .error e t) ↔
        ¬ ∃ code t, select binder altType alts atoms s = .ok code t := by
      cases select binder altType alts atoms s with
      | ok code t => simp
      | error e t => simp
    rw [hnot, exists_select_iff, not_and_or, not_not]
    simp only [not_exists, not_and]
  refine ⟨fun code t => ⟨fun h => ?_, ?_⟩, hfails, ?_⟩
  · obtain ⟨hreadable, -⟩ := (exists_select_iff binder).1 ⟨code, t, h⟩
    refine ⟨hreadable, ?_⟩
    obtain ⟨found, hreads⟩ := exists_scrutinises hreadable
    cases hfirst : Alt.first? alts altType atoms found with
    | none =>
        obtain ⟨e, u, hfails⟩ := select_of_none binder hreads hfirst
        cases hfails.symm.trans h
    | some taken =>
        obtain ⟨alt, fields⟩ := taken
        obtain ⟨before, after, halts, hbefore, hreceives⟩ := (Alt.first?_eq_some hreads).1 hfirst
        cases (select_of_some hreads hfirst).symm.trans h
        exact ⟨before, alt, after, fields, halts, hbefore, hreceives, rfl, rfl⟩
  · rintro ⟨hreadable, before, alt, after, fields, halts, hbefore, hreceives, rfl, rfl⟩
    obtain ⟨found, hreads⟩ := exists_scrutinises hreadable
    exact select_of_some hreads ((Alt.first?_eq_some hreads).2 ⟨before, after, halts, hbefore, hreceives⟩)
  · rintro ⟨alt, hmem, hdefault⟩
    rw [hfails, or_iff_left]
    exact fun hnone => hnone alt hmem (Alt.matches_of_default hdefault)

/-- An alternative for a constructor, and a default. -/
def justOrElse : List Alt :=
  let unit : Expr := .conApp ⟨"()", 1, 0⟩ []
  [⟨.data ⟨"Just", 1, 1⟩, [.ofName "y"], unit⟩, ⟨.default, [], unit⟩]

/-- A heap with another constructor at address 0, and a function at address 1. -/
def nothingAndFunction : State :=
  let identity : Lambda := ⟨[.ofName "x"], .app (.ofName "x") []⟩
  (State.ofConfig {}).grow
    [some (.con ⟨"Nothing", 0, 0⟩ []), some (.closure (.ofLambda (.ofName "f") identity .empty))]

theorem default_mem_justOrElse : ∃ alt ∈ justOrElse, alt.con = .default :=
  ⟨_, List.mem_cons_of_mem _ List.mem_cons_self, rfl⟩

/-- Another constructor goes to the default. -/
theorem select_first_match_nothing :
    ¬ Unreadable nothingAndFunction justOrElse [.ptr 0] ∧
      select (.ofName "b") .poly justOrElse [.ptr 0] nothingAndFunction =
        .ok (.eval (.conApp ⟨"()", 1, 0⟩ [])) (nothingAndFunction.bind (.ofName "b") (.ptr 0)) ∧
      ¬ ∃ e t, select (.ofName "b") .poly justOrElse [.ptr 0] nothingAndFunction = .error e t := by
  have hreadable : ¬ Unreadable nothingAndFunction justOrElse [.ptr 0] := by
    rintro ⟨-, p, hp, hobject⟩
    cases hp
    exact hobject ⟨"Nothing", 0, 0⟩ [] rfl
  obtain ⟨hok, -, hdefault⟩ :=
    select_first_match nothingAndFunction (.ofName "b") .poly justOrElse [.ptr 0]
  have hother : ∀ other ∈ justOrElse.take 1, ¬ other.Matches nothingAndFunction .poly [.ptr 0] := by
    rintro other hmem ⟨fields, hfields⟩
    cases List.mem_singleton.1 hmem
    cases hfields with
    | data hvalues hobject hname =>
        cases hvalues
        cases hobject
        exact absurd hname (by decide)
  refine ⟨hreadable, (hok _ _).2 ⟨hreadable, justOrElse.take 1, ?_⟩, ?_⟩
  · exact ⟨_, [], [], rfl, hother, .default rfl, rfl, rfl⟩
  · rw [hdefault default_mem_justOrElse]
    exact hreadable

/-- A default does not match a reference to a function, if another alternative asks for a constructor. -/
theorem select_default_fails :
    ¬ ∀ s binder altType alts atoms, (∃ alt ∈ alts, Alt.con alt = .default) →
      ∃ code t, select binder altType alts atoms s = .ok code t := by
  intro hclaim
  obtain ⟨code, t, hselect⟩ :=
    hclaim nothingAndFunction (.ofName "b") .poly justOrElse [.ptr 1] default_mem_justOrElse
  obtain ⟨hreadable, -⟩ := (exists_select_iff _).1 ⟨code, t, hselect⟩
  refine hreadable ⟨rfl, 1, rfl, fun k fields hcon => ?_⟩
  cases hcon

end Exec

end Spineless
