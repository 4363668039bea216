import Spineless.Proofs.Provenance
import Spineless.Proofs.Session

/-!
# Static scoping

`Program.scopeChecked` is the static check: every occurrence of a variable is one of the two tokens, a
top-level variable, a parameter or listed free variable of the innermost lambda, or a binder of that
lambda in scope. `Snapshot.Scoped` is what the check means for a run: wherever an expression waits, in
front of the run, in a frame or in a closure, the environment in which it will run provides its scope.

Only a choice of an alternative can break a promise of the scope, because binders and values are paired
up and those left over are dropped: a case binder is bound to exactly one value, and a binder of an
alternative to the field at its position. The invariant therefore allows a set of lost keys, and a run
fails for an unbound variable only if a choice on the way dropped it (`Program.unbound_only_if_dropped`).
-/

namespace Spineless

open Snapshot

variable {host : Host}

/-! ## The static check -/

/-- The keys of some variables. -/
def keys (xs : List Ident) : List String := xs.map Ident.key

/-- Whether an occurrence of a variable is bound. -/
def Ident.visible (tops scope : List String) (x : Ident) : Bool :=
  x.isToken || tops.contains x.key || scope.contains x.key

/-- Whether an argument is bound. -/
def Arg.visible (tops scope : List String) : Arg → Bool
  | .var x => x.visible tops scope
  | .lit _ => true

mutual

/-- Whether all occurrences in an expression are bound. A case binder scopes over the alternatives. -/
def Expr.scoped (tops scope : List String) : Expr → Bool
  | .app callee args => callee.visible tops scope && args.all (Arg.visible tops scope)
  | .lit _ => true
  | .conApp _ args => args.all (Arg.visible tops scope)
  | .multiVal args => args.all (Arg.visible tops scope)
  | .opApp _ args _ _ => args.all (Arg.visible tops scope)
  | .case scrutinee binder _ alts =>
    scrutinee.scoped tops scope && Alt.scopedAll tops (binder.key :: scope) alts
  | .letIn binding body => binding.scoped tops scope && body.scoped tops (keys binding.binders ++ scope)

/-- Whether all occurrences in some alternatives are bound. Binders scope over their alternative. -/
def Alt.scopedAll (tops scope : List String) : List Alt → Bool
  | [] => true
  | ⟨_, binders, rhs⟩ :: rest =>
    rhs.scoped tops (keys binders ++ scope) && Alt.scopedAll tops scope rest

/-- Whether all occurrences in a right-hand side are bound. Inside a lambda only its parameters and its
listed variables are in scope. -/
def Rhs.scoped (tops scope : List String) : Rhs → Bool
  | .closure freeVars ⟨params, body⟩ =>
    freeVars.all (Ident.visible tops scope) && body.scoped tops (keys params ++ keys freeVars)
  | .con _ args => args.all (Arg.visible tops scope)

/-- Whether all occurrences in the right-hand sides of a group are bound. -/
def Rhs.scopedAll (tops scope : List String) : List (Ident × Rhs) → Bool
  | [] => true
  | (_, rhs) :: rest => rhs.scoped tops scope && Rhs.scopedAll tops scope rest

/-- Whether all occurrences in a binding are bound. The variables of a group scope over its right-hand
sides. -/
def Binding.scoped (tops scope : List String) : Binding → Bool
  | .nonRec _ rhs => rhs.scoped tops scope
  | .group pairs => Rhs.scopedAll tops (keys (pairs.map Prod.fst) ++ scope) pairs

end

/-- The keys of the top-level variables. -/
def Program.tops (p : Program) : List String := keys (p.pairs.map Prod.fst)

/-- Whether the entry is a top-level variable and all occurrences in a program are bound. -/
def Program.scopeChecked (p : Program) : Bool := p.definesEntry && Rhs.scopedAll p.tops [] p.pairs

section Check

variable {tops scope : List String}

theorem Alt.scopedAll_iff {alts : List Alt} :
    Alt.scopedAll tops scope alts = true ↔
      ∀ alt ∈ alts, alt.rhs.scoped tops (keys alt.binders ++ scope) = true := by
  induction alts with
  | nil => simp [Alt.scopedAll]
  | cons alt rest ih =>
      obtain ⟨con, binders, rhs⟩ := alt
      simp [Alt.scopedAll, ih]

theorem Rhs.scopedAll_iff {pairs : List (Ident × Rhs)} :
    Rhs.scopedAll tops scope pairs = true ↔ ∀ pair ∈ pairs, pair.2.scoped tops scope = true := by
  induction pairs with
  | nil => simp [Rhs.scopedAll]
  | cons pair rest ih =>
      obtain ⟨x, rhs⟩ := pair
      simp [Rhs.scopedAll, ih]

/-- The variables among visible arguments are visible. -/
theorem visible_of_mem_vars {args : List Arg} {x : Ident}
    (h : args.all (Arg.visible tops scope) = true) (hx : x ∈ args.filterMap Arg.var?) :
    x.visible tops scope = true := by
  obtain ⟨arg, harg, hvar⟩ := List.mem_filterMap.1 hx
  have hvisible := List.all_eq_true.1 h arg harg
  cases arg with
  | var y => cases hvar; exact hvisible
  | lit l => cases hvar

/-- The variables that a right-hand side looks up are visible. -/
theorem Rhs.visible_of_mem_vars {rhs : Rhs} {x : Ident} (h : rhs.scoped tops scope = true)
    (hx : x ∈ rhs.vars) : x.visible tops scope = true := by
  cases rhs with
  | con k args =>
      rw [Rhs.scoped] at h
      exact Spineless.visible_of_mem_vars h hx
  | closure freeVars lambda =>
      obtain ⟨params, body⟩ := lambda
      rw [Rhs.scoped, Bool.and_eq_true] at h
      exact List.all_eq_true.1 h.1 x hx

/-- The variables that an expression looks up are visible. -/
theorem Expr.visible_of_mem_lookups {e : Expr} {x : Ident} (h : e.scoped tops scope = true)
    (hx : x ∈ e.lookups) : x.visible tops scope = true := by
  cases e with
  | app callee args =>
      rw [Expr.scoped, Bool.and_eq_true] at h
      rcases List.mem_cons.1 hx with rfl | hx
      · exact h.1
      · exact Spineless.visible_of_mem_vars h.2 hx
  | conApp k args | multiVal args | opApp op args resultType resultTyCon =>
      rw [Expr.scoped] at h
      exact Spineless.visible_of_mem_vars h hx
  | lit l | case scrutinee binder altType alts => exact absurd hx List.not_mem_nil
  | letIn binding body =>
      rw [Expr.scoped, Bool.and_eq_true] at h
      cases binding with
      | nonRec y rhs => exact Rhs.visible_of_mem_vars h.1 hx
      | group pairs => exact absurd hx List.not_mem_nil

end Check

/-! ## What the check promises -/

/-- An environment that binds every key of a scope, the lost ones apart. -/
def Env.Provides (lost : String → Prop) (scope : List String) (e : Env) : Prop :=
  ∀ key ∈ scope, (e.find? key).isSome ∨ lost key

/-- A closure whose code can run in its environment once it has its arguments. A closure that misses no
argument has no parameters: it is entered without binding any. -/
structure Closure.Scoped (tops : List String) (c : Closure) : Prop where
  body : ∃ free, c.lambda.body.scoped tops (keys c.lambda.params ++ free) = true ∧
    ∀ key ∈ free, (c.env.find? key).isSome
  arity : c.args.length + c.missing = c.lambda.params.length
  thunk : c.missing = 0 → c.lambda.params = []

/-- An object whose code can run. What a blackhole covers never runs again. -/
def Object.Scoped (tops : List String) : Object → Prop
  | .closure c => c.Scoped tops
  | .con .. | .blackhole _ => True

/-- A frame whose alternatives can run in its environment with the case binder. -/
def Frame.Scoped (tops : List String) (lost : String → Prop) (f : Frame) : Prop :=
  ∀ binder altType alts, f.cont = .caseOf binder altType alts →
    ∃ scope, Alt.scopedAll tops (binder.key :: scope) alts = true ∧ f.env.Provides lost scope

/-- Every expression that waits in a snapshot can run in the environment that it will have. -/
structure Snapshot.Scoped (tops : List String) (lost : String → Prop) (d : Snapshot) : Prop where
  globals : ∀ key ∈ tops, (d.state.globals.find? key).isSome
  heap : ∀ a o, d.state.object? a = some o → o.Scoped tops
  frames : ∀ f ∈ d.state.stack.frames, f.Scoped tops lost
  code : ∀ e, d.code = .eval e → ∃ scope, e.scoped tops scope = true ∧ d.state.env.Provides lost scope

/-- Binding variables adds their keys and takes none away. -/
theorem Env.isSome_find?_extend {e : Env} {pairs : List (Ident × Atom)} {key : String} :
    ((e.extend pairs).find? key).isSome ↔ key ∈ keys (pairs.map Prod.fst) ∨ (e.find? key).isSome := by
  induction pairs generalizing e with
  | nil => simp [Env.extend, keys]
  | cons pair rest ih =>
      have hextend : e.extend (pair :: rest) = (e.bind pair.1 pair.2).extend rest := rfl
      rw [hextend, ih, Env.bind, Env.find?_insert]
      by_cases hkey : key = pair.1.key
      · simp [keys, hkey]
      · simp [keys, hkey]

/-- Binding variables does not change what other variables are bound to. -/
theorem Env.find?_extend_of_notMem {e : Env} {pairs : List (Ident × Atom)} {key : String}
    (h : key ∉ keys (pairs.map Prod.fst)) : (e.extend pairs).find? key = e.find? key := by
  induction pairs generalizing e with
  | nil => rfl
  | cons pair rest ih =>
      have hextend : e.extend (pair :: rest) = (e.bind pair.1 pair.2).extend rest := rfl
      obtain ⟨hne, hrest⟩ := not_or.1 (mt List.mem_cons.2 h)
      rw [hextend, ih hrest, Env.bind, Env.find?_insert, if_neg hne]

section Provides

variable {lost : String → Prop} {scope : List String} {e : Env}

theorem Env.Provides.extend (h : e.Provides lost scope) (pairs : List (Ident × Atom)) {new : List String}
    (hnew : ∀ key ∈ new, key ∈ keys (pairs.map Prod.fst) ∨ lost key) :
    (e.extend pairs).Provides lost (new ++ scope) := by
  intro key hkey
  rw [Env.isSome_find?_extend]
  rcases List.mem_append.1 hkey with hkey | hkey
  · exact (hnew key hkey).imp .inl id
  · exact (h key hkey).imp .inr id

/-- A visible variable denotes something, or its key is lost. -/
theorem State.lost_of_lookup?_eq_none {s : State} {tops : List String} {x : Ident}
    (hglobals : ∀ key ∈ tops, (s.globals.find? key).isSome) (henv : s.env.Provides lost scope)
    (hvisible : x.visible tops scope = true) (hnone : s.lookup? x = none) : lost x.key := by
  unfold State.lookup? at hnone
  split at hnone
  · cases hnone
  · next htoken =>
    rw [Option.or_eq_none_iff] at hnone
    simp only [Ident.visible, Bool.or_eq_true, List.contains_iff_mem] at hvisible
    rcases hvisible with (htoken' | htop) | hscope
    · exact absurd htoken' htoken
    · have hbound := hglobals _ htop
      rw [show s.globals.find? x.key = none from hnone.2] at hbound
      cases hbound
    · refine (henv _ hscope).resolve_left ?_
      rw [show s.env.find? x.key = none from hnone.1]
      exact Bool.false_ne_true

end Provides

/-- A right-hand side that passes the check becomes an object whose code can run. -/
theorem Rhs.Builds.scoped {tops scope : List String} {lookup : Ident → Option Atom} {rhs : Rhs}
    {name : Ident} {o : Object} (hbuilds : rhs.Builds lookup name o) (h : rhs.scoped tops scope = true) :
    o.Scoped tops := by
  cases rhs with
  | con k args =>
      obtain ⟨atoms, -, rfl⟩ := hbuilds
      trivial
  | closure freeVars lambda =>
      obtain ⟨env, ⟨atoms, hatoms, rfl⟩, rfl⟩ := hbuilds
      obtain ⟨params, body⟩ := lambda
      rw [Rhs.scoped, Bool.and_eq_true] at h
      refine ⟨⟨keys freeVars, h.2, fun key hkey => ?_⟩, ?_, List.eq_nil_of_length_eq_zero⟩
      · rw [Closure.ofLambda, Env.ofList, Env.isSome_find?_extend,
          List.map_fst_zip (Nat.le_of_eq hatoms.length_eq)]
        exact .inl hkey
      · simp [Closure.ofLambda, Lambda.arity]

/-! ## What a choice drops -/

/-- The next transition of a snapshot hands values to a case and takes an alternative with fields. -/
inductive Snapshot.Selects (d : Snapshot) : Ident → List Atom → Alt → List Atom → Prop
  /-- A case frame is on top, and an alternative matches. -/
  | mk {frame : Frame} {rest : Stack} {binder : Ident} {altType : AltType} {alts : List Alt}
      {atoms fields : List Atom} {scrutinee : Option (DataCon × List Atom)} {alt : Alt}
      (code : d.code = .ret atoms) (pop : d.state.stack.pop? = some (frame, rest))
      (cont : frame.cont = .caseOf binder altType alts)
      (reads : Scrutinises d.state alts atoms scrutinee)
      (first : Alt.first? alts altType atoms scrutinee = some (alt, fields)) :
      Snapshot.Selects d binder atoms alt fields

/-- A choice that leaves a key unbound: that of the case binder if there is not exactly one value, or
that of a binder of the alternative for which there is no field. -/
def Snapshot.Drops (d : Snapshot) (key : String) : Prop :=
  ∃ binder atoms alt fields, d.Selects binder atoms alt fields ∧
    ((key = binder.key ∧ atoms.length ≠ 1) ∨
      ∃ (i : Nat) (x : Ident), alt.binders[i]? = some x ∧ key = x.key ∧ fields.length ≤ i)

/-- A binder of an alternative gets a field, or its key is dropped. -/
theorem mem_keys_zip {binders : List Ident} (fields : List Atom) {key : String} (h : key ∈ keys binders) :
    key ∈ keys ((binders.zip fields).map Prod.fst) ∨
      ∃ (i : Nat) (x : Ident), binders[i]? = some x ∧ key = x.key ∧ fields.length ≤ i := by
  obtain ⟨x, hx, rfl⟩ := List.mem_map.1 h
  obtain ⟨i, hi, rfl⟩ := List.mem_iff_getElem.1 hx
  by_cases hfield : i < fields.length
  · refine .inl (List.mem_map_of_mem (List.mem_map.2 ⟨(binders[i], fields[i]), ?_, rfl⟩))
    have hzip : i < (binders.zip fields).length := by
      rw [List.length_zip]
      omega
    exact List.mem_iff_getElem.2 ⟨i, hzip, List.getElem_zip⟩
  · exact .inr ⟨i, binders[i], List.getElem?_eq_getElem hi, rfl, Nat.le_of_not_lt hfield⟩

/-! ## Transitions -/

namespace Snapshot.Scoped

variable {tops : List String} {lost : String → Prop} {base : Nat} {code code' : Code} {s s' : State}

/-- What a right-hand side of the expression in front becomes, and every other object, can run. -/
theorem object_scoped (h : Scoped tops lost ⟨code, s⟩) {o : Object} (hsource : o.Source code s) :
    o.Scoped tops := by
  cases hsource with
  | kept hfound => exact h.heap _ _ hfound
  | con hshape | blackhole hshape =>
      rw [hshape]
      trivial
  | @partialApp a c args hfound hfew hshape =>
      rw [hshape]
      have hc : c.Scoped tops := h.heap a _ hfound
      have harity := hc.arity
      refine ⟨hc.body, ?_, fun hzero => ?_⟩
      · simp only [Closure.supply, List.length_append]
        omega
      · simp only [Closure.supply] at hzero
        omega
  | @built binding body x rhs lookup hcode hpair hbuilds =>
      obtain ⟨scope, hscoped, -⟩ := h.code _ hcode
      rw [Expr.scoped, Bool.and_eq_true] at hscoped
      cases binding with
      | nonRec y rhs' =>
          cases List.mem_singleton.1 hpair
          exact hbuilds.scoped hscoped.1
      | group pairs =>
          rw [Binding.scoped, Rhs.scopedAll_iff] at hscoped
          exact hbuilds.scoped (hscoped.1 _ hpair)

theorem frame_scoped (h : Scoped tops lost ⟨code, s⟩) {f : Frame} (hsource : f.Source code s) :
    f.Scoped tops lost := by
  cases hsource with
  | kept hmem => exact h.frames f hmem
  | noCode hwaits => exact fun binder altType alts hcont => absurd hcont (hwaits binder altType alts)
  | caseOf hcode hcont henv =>
      obtain ⟨scope, hscoped, hprovides⟩ := h.code _ hcode
      rw [Expr.scoped, Bool.and_eq_true] at hscoped
      intro binder altType alts hcont'
      cases hcont.symm.trans hcont'
      rw [henv]
      exact ⟨scope, hscoped.2, hprovides⟩

/-- The environment in which a function runs provides its parameters and its free variables. -/
theorem provides_scope {c : Closure} {args : List Atom} {free : List String} (hc : c.Scoped tops)
    (hfree : ∀ key ∈ free, (c.env.find? key).isSome) (henough : c.missing ≤ args.length) :
    (c.scope args).Provides lost (keys c.lambda.params ++ free) := by
  refine Env.Provides.extend (fun key hkey => .inl (hfree key hkey)) _ fun key hkey => .inl ?_
  have hlength : c.lambda.params.length ≤ (c.args ++ args.take c.missing).length := by
    have harity := hc.arity
    rw [List.length_append, List.length_take]
    omega
  rw [List.map_fst_zip hlength]
  exact hkey

/-- A case binder is bound to the value of the scrutinee, or lost if there is not exactly one. -/
theorem provides_bindValue {scope : List String} {atoms : List Atom} (binder : Ident)
    (hprovides : s.env.Provides lost scope) (hlost : atoms.length ≠ 1 → lost binder.key) :
    (s.bindValue binder atoms).env.Provides lost (binder.key :: scope) := by
  rcases atoms with _ | ⟨value, _ | ⟨other, more⟩⟩
  · exact fun key hkey => (List.mem_cons.1 hkey).elim
      (fun hbinder => .inr (by rw [hbinder]; exact hlost (by simp))) (hprovides key)
  · exact hprovides.extend [(binder, value)] fun key hkey => .inl hkey
  · exact fun key hkey => (List.mem_cons.1 hkey).elim
      (fun hbinder => .inr (by rw [hbinder]; exact hlost (by simp))) (hprovides key)

/-- The expression that is evaluated after a transition can run, if what the transition drops is lost. -/
theorem expr_scoped (h : Scoped tops lost ⟨code, s⟩) (hlost : ∀ key, Drops ⟨code, s⟩ key → lost key)
    (htrans : Transition (.standard host) base code s code' s') {e : Expr} (he : code' = .eval e) :
    ∃ scope, e.scoped tops scope = true ∧ s'.env.Provides lost scope := by
  cases htrans with
  | app | lit | conApp | multiVal | opApp | enterScalar | enterValue | update | applyPartial => cases he
  | case =>
      cases he
      obtain ⟨scope, hscoped, hprovides⟩ := h.code _ rfl
      rw [Expr.scoped, Bool.and_eq_true] at hscoped
      exact ⟨scope, hscoped.1, hprovides⟩
  | @letOne _ x =>
      cases he
      obtain ⟨scope, hscoped, hprovides⟩ := h.code _ rfl
      rw [Expr.scoped, Bool.and_eq_true] at hscoped
      exact ⟨_, hscoped.2, hprovides.extend [(x, .ptr s.heap.size)] fun key hkey => .inl hkey⟩
  | letGroup =>
      cases he
      obtain ⟨scope, hscoped, hprovides⟩ := h.code _ rfl
      rw [Expr.scoped, Bool.and_eq_true] at hscoped
      refine ⟨_, hscoped.2, hprovides.extend _ fun key hkey => .inl ?_⟩
      rw [map_fst_references]
      exact hkey
  | @enterThunk _ p c hfound hthunk =>
      cases he
      have hc : c.Scoped tops := h.heap p _ hfound
      obtain ⟨free, hbody, hfree⟩ := hc.body
      rw [hc.thunk hthunk] at hbody
      exact ⟨free, hbody, fun key hkey => .inl (hfree key hkey)⟩
  | @applyFull _ frame rest args p c _ _ _ hfound _ henough =>
      cases he
      have hc : c.Scoped tops := h.heap p _ hfound
      obtain ⟨free, hbody, hfree⟩ := hc.body
      exact ⟨_, hbody, provides_scope hc hfree henough⟩
  | @select _ frame rest binder altType alts atoms fields scrutinee alt hpop _ hcont hreads hfirst =>
      cases he
      obtain ⟨hframe, -⟩ := Stack.forall_frames_of_pop? h.frames hpop
      obtain ⟨scope, hscoped, hprovides⟩ := hframe binder altType alts hcont
      have hselects : Selects ⟨.ret atoms, s⟩ binder atoms alt fields := .mk rfl hpop hcont hreads hfirst
      have hvalue :
          ((s.resumed frame rest).bindValue binder atoms).env.Provides lost (binder.key :: scope) := by
        refine provides_bindValue binder hprovides fun hcount => hlost _ ?_
        exact ⟨binder, atoms, alt, fields, hselects, .inl ⟨rfl, hcount⟩⟩
      have hbody := Alt.scopedAll_iff.1 hscoped alt (Alt.first?_cases hfirst).1
      refine ⟨_, hbody, Env.Provides.extend hvalue _ fun key hkey => ?_⟩
      rcases mem_keys_zip fields hkey with hbound | hdropped
      · exact .inl hbound
      · exact .inr (hlost key ⟨binder, atoms, alt, fields, hselects, .inr hdropped⟩)

/-- A transition keeps every waiting expression able to run, if what it drops is lost. -/
theorem transition (h : Scoped tops lost ⟨code, s⟩) (hlost : ∀ key, Drops ⟨code, s⟩ key → lost key)
    (htrans : Transition (.standard host) base code s code' s') : Scoped tops lost ⟨code', s'⟩ where
  globals := by
    intro key hkey
    rw [htrans.globals_eq]
    exact h.globals key hkey
  heap _ _ ho := h.object_scoped (htrans.object_source ho)
  frames _ hf := h.frame_scoped (htrans.frame_source hf)
  code _ he := h.expr_scoped hlost htrans he

/-- A run fails for an unbound variable only if its key is lost. -/
theorem failure {e : Fault} {x : Ident} (h : Scoped tops lost ⟨code, s⟩)
    (hfail : Failure (.standard host) base code s e s') (hcause : e.cause = .unboundVariable x) :
    lost x.key := by
  cases hfail with
  | unbound hlookup hmissing =>
      cases hcause
      obtain ⟨scope, hscoped, hprovides⟩ := h.code _ rfl
      exact State.lost_of_lookup?_eq_none h.globals hprovides
        (Expr.visible_of_mem_lookups hscoped hlookup) hmissing
  | @unboundMember _ done rest y rhs _ _ _ _ bound hbinds _ hlookup hmissing =>
      cases hcause
      obtain ⟨scope, hscoped, hprovides⟩ := h.code _ rfl
      rw [Expr.scoped, Bool.and_eq_true, Binding.scoped, Rhs.scopedAll_iff] at hscoped
      have hvisible := Rhs.visible_of_mem_vars (hscoped.1 (y, rhs) (by simp)) hlookup
      refine State.lost_of_lookup?_eq_none (s := s.bindAll bound) h.globals ?_ hvisible hmissing
      refine hprovides.extend _ fun key hkey => .inl ?_
      rw [hbinds, map_fst_references]
      exact hkey
  | operation _ heval =>
      obtain ⟨-, -, hrefused | hunknown⟩ := Registry.standard_evaluate_eq_error heval
      · rw [hcause] at hrefused
        cases hrefused
      · rw [hcause] at hunknown
        cases hunknown
  | overflow | dangling | blackholed | covered => cases hcause
  | @rejected _ frame _ _ _ _ _ _ hwhy =>
      generalize frame.cont = cont at hwhy
      cases hwhy with
      | notAReference | unknownTarget | dangling | notAFunction => cases hcause
      | overflow | notAConstructor | noMatch => cases hcause

/-- Wherever a run gets to, every waiting expression can run, the keys dropped on the way apart. -/
theorem reaches {c d : Snapshot} (h : c.Scoped tops lost)
    (hlost : ∀ b key, Reaches (.standard host) base c b → b.Drops key → lost key)
    (hreach : Reaches (.standard host) base c d) : d.Scoped tops lost := by
  induction hreach with
  | refl => exact h
  | tail hbefore hlast ih => exact ih.transition (hlost _ · hbefore) hlast.transition

end Snapshot.Scoped

/-! ## Programs -/

section Program

variable {p : Program} {config : Config}

/-- A scope-checked program can be loaded, into a state in which all its code can run. -/
theorem Program.allocateGlobals_of_scopeChecked (h : p.scopeChecked = true) {s : State}
    (hheap : s.heap = #[]) :
    ∃ t, Exec.allocateGlobals p.pairs s = .ok () t ∧
      (∀ key ∈ p.tops, (t.globals.find? key).isSome) ∧ ∀ a o, t.object? a = some o → o.Scoped p.tops := by
  rw [scopeChecked, Bool.and_eq_true, Rhs.scopedAll_iff] at h
  have hdeclared : ∀ key ∈ p.tops, ((Exec.declared s p.pairs).globals.find? key).isSome := by
    intro key hkey
    rw [Exec.declared, Env.isSome_find?_extend, map_fst_references]
    exact .inl hkey
  cases hload : Exec.allocateGlobals p.pairs s with
  | ok u t =>
      obtain ⟨strings, objects, hbuilds, rfl⟩ := Exec.allocateGlobals_eq_ok hload
      refine ⟨_, rfl, hdeclared, ?_⟩
      have hempty : ∀ a o, ((Exec.declared s p.pairs).withStrings strings).object? a = some o →
          o.Scoped p.tops := by
        intro a o ho
        rw [State.object?, show ((Exec.declared s p.pairs).withStrings strings).heap = #[] from hheap] at ho
        cases ho
      refine State.forall_object?_grow hempty objects fun o ho => ?_
      obtain ⟨pair, hpair, hbuilt⟩ := exists_mem_of_forall₂ hbuilds o ho
      exact hbuilt.scoped (h.2 pair hpair)
  | error e t =>
      obtain ⟨_, done, x, rhs, rest, _, hpairs, _, _, y, hy, hmissing, _⟩ :=
        Exec.allocateGlobals_eq_error hload
      -- Nothing is lost while a program is loaded, so the missing variable cannot be visible.
      have hvisible := Rhs.visible_of_mem_vars (h.2 (x, rhs) (by simp [hpairs])) hy
      have hempty : Env.empty.Provides (fun _ => False) [] := fun key hkey => absurd hkey List.not_mem_nil
      exact (State.lost_of_lookup?_eq_none (s := (Exec.declared s p.pairs).enterScope x .empty)
        hdeclared hempty hvisible hmissing).elim

/-- A failing run of the entry of a scope-checked program, seen from the snapshot in which it fails. -/
theorem Program.unbound_of_called {m m' : Machine} {e : Fault} {x : Ident} (hidle : Idle config m)
    (hentry : m.entry = some p.entry) (hdefined : p.definesEntry = true)
    (hglobals : ∀ key ∈ p.tops, (m.state.globals.find? key).isSome)
    (hheap : ∀ a o, m.state.object? a = some o → o.Scoped p.tops)
    (hcalled : Called m .runEntry (.error e) m') (hcause : e.cause = .unboundVariable x) :
    ∃ d, m.Visits d ∧ d.Drops x.key := by
  obtain ⟨host, hregistry⟩ := hidle.registry
  cases hcalled with
  | noEntry hwhy =>
      rcases hwhy with hnone | ⟨entry, hsome, hmissing, hunbound⟩
      · rw [hcause] at hnone
        cases hnone
      · -- The entry is a top-level variable, so it is bound whatever is lost.
        rw [hentry] at hsome
        cases hsome
        obtain ⟨pair, hpair, hsame⟩ := List.any_eq_true.1 hdefined
        have hkey : pair.1.key = p.entry.key := by simpa [Ident.same] using hsame
        have htop : p.entry.key ∈ p.tops := by
          rw [← hkey]
          exact List.mem_map_of_mem (List.mem_map_of_mem hpair)
        have hvisible : p.entry.visible p.tops [] = true := by simp [Ident.visible, htop]
        have hnothing : m.state.env.Provides (fun _ => False) [] :=
          fun key hkey => absurd hkey List.not_mem_nil
        exact (State.lost_of_lookup?_eq_none hglobals hnothing hvisible hmissing).elim
  | exhausted _ _ hlimit =>
      rw [hcause] at hlimit
      cases hlimit
  | @failed _ start d _ t _ hstart hreach hfails =>
      have hvisits : ∀ b, Reaches (.standard host) m.state.stack.depth start b → m.Visits b := by
        intro b hb
        rw [← hregistry] at hb
        exact ⟨start, hstart, hb⟩
      obtain ⟨entry, a, -, -, rfl⟩ := Command.start?_runEntry hstart
      have hscoped : Snapshot.Scoped p.tops (fun key => ∃ b, m.Visits b ∧ b.Drops key)
          ⟨.enter a, m.state.enterScope entry .empty⟩ := by
        refine ⟨hglobals, hheap, fun f hf => ?_, fun e he => (nomatch he)⟩
        have hnone : f ∈ [] := hidle.frames ▸ hf
        exact absurd hnone List.not_mem_nil
      rw [hregistry] at hreach hfails
      have hreached := hscoped.reaches (fun b key hb hdrops => ⟨b, hvisits b hb, hdrops⟩) hreach
      exact hreached.failure (step_eq_error hfails) hcause

/-- A scope-checked program can be loaded into a fresh machine. -/
theorem Program.load_of_scopeChecked (hp : p.scopeChecked = true) (config : Config) (host : Host) :
    ∃ m, Machine.load p (.new config host) = .ok () m ∧ Idle config m ∧ m.entry = some p.entry ∧
      (∀ key ∈ p.tops, (m.state.globals.find? key).isSome) ∧
      ∀ a o, m.state.object? a = some o → o.Scoped p.tops := by
  obtain ⟨t, hallocates, hglobals, hheap⟩ :=
    Program.allocateGlobals_of_scopeChecked hp (s := (Machine.new config host).state) rfl
  have hidle := (Session.fresh host).idle.called (.loaded hallocates)
  exact ⟨_, Machine.load_of_ok hallocates, hidle, rfl, hglobals, hheap⟩

/-- A scope-checked program can be loaded into a fresh machine. If a run of its entry fails for an
unbound variable, some choice on the way dropped it: it is the binder of a case whose scrutinee returned
a number of values other than one, or a binder of an alternative at a position for which there was no
field. So a run in which all counts match does not fail for an unbound variable. -/
theorem Program.unbound_only_if_dropped (hp : p.scopeChecked = true) (config : Config) (host : Host) :
    ∃ m, Machine.load p (.new config host) = .ok () m ∧
      (∀ fuel e m' x, m.runEntry fuel = some (.error e m') → e.cause = .unboundVariable x →
        ∃ d binder atoms alt fields, m.Visits d ∧ d.Selects binder atoms alt fields ∧
          ((x.key = binder.key ∧ atoms.length ≠ 1) ∨
            ∃ (i : Nat) (y : Ident), alt.binders[i]? = some y ∧ x.key = y.key ∧ fields.length ≤ i)) ∧
      ((∀ d binder atoms alt fields, m.Visits d → d.Selects binder atoms alt fields →
          atoms.length = 1 ∧ alt.binders.length ≤ fields.length) →
        ∀ fuel e m' x, m.runEntry fuel = some (.error e m') → e.cause ≠ .unboundVariable x) := by
  have hdefined : p.definesEntry = true := (Bool.and_eq_true_iff.1 hp).1
  obtain ⟨m, hload, hidle, hentry, hglobals, hheap⟩ := Program.load_of_scopeChecked hp config host
  have hdropped : ∀ fuel e m' x, m.runEntry fuel = some (.error e m') → e.cause = .unboundVariable x →
      ∃ d, m.Visits d ∧ d.Drops x.key := by
    intro fuel e m' x hrun hcause
    have hperforms : Command.runEntry.perform fuel m = some (.error e, m') := by
      rw [Command.perform, hrun]
      rfl
    exact unbound_of_called hidle hentry hdefined hglobals hheap (Command.perform_runEntry hperforms) hcause
  refine ⟨m, hload, ?_, ?_⟩
  · intro fuel e m' x hrun hcause
    obtain ⟨d, hvisits, binder, atoms, alt, fields, hselects, hwhy⟩ := hdropped fuel e m' x hrun hcause
    exact ⟨d, binder, atoms, alt, fields, hvisits, hselects, hwhy⟩
  · intro hfits fuel e m' x hrun hcause
    obtain ⟨d, hvisits, binder, atoms, alt, fields, hselects, hwhy⟩ := hdropped fuel e m' x hrun hcause
    obtain ⟨hone, hcount⟩ := hfits d binder atoms alt fields hvisits hselects
    rcases hwhy with ⟨-, hne⟩ | ⟨i, y, hy, -, hle⟩
    · exact hne hone
    · obtain ⟨hi, -⟩ := List.getElem?_eq_some_iff.1 hy
      omega

end Program

/-- A case whose scrutinee returns nothing, and whose only alternative is the case binder. -/
def droppedBinder : Program :=
  let main : Ident := .ofName "main"
  let x : Ident := .ofName "x"
  ⟨[.nonRec main (.closure [] ⟨[], .case (.multiVal []) x .poly [⟨.default, [], .app x []⟩]⟩)], main⟩

/-- The binder of `droppedBinder` passes the check, is dropped, and is what the run fails for. -/
theorem Program.unbound_only_if_dropped_droppedBinder :
    ∃ m e m' d binder atoms alt fields, Machine.load droppedBinder (.new {}) = .ok () m ∧
      m.runEntry 10 = some (.error e m') ∧ e.cause = .unboundVariable (.ofName "x") ∧
      m.Visits d ∧ d.Selects binder atoms alt fields ∧
      (("x" = binder.key ∧ atoms.length ≠ 1) ∨
        ∃ (i : Nat) (y : Ident), alt.binders[i]? = some y ∧ "x" = y.key ∧ fields.length ≤ i) := by
  obtain ⟨m, hload, hdropped, -⟩ :=
    Program.unbound_only_if_dropped (p := droppedBinder) (by decide +kernel) {} .usual
  have hfails : (Machine.runProgram 10 droppedBinder (.new {})).any (fun
      | .error ⟨.unboundVariable x, _⟩ _ => decide (x = .ofName "x")
      | _ => false) := by
    decide +kernel
  rw [Machine.runProgram, hload] at hfails
  obtain ⟨outcome, hrun, houtcome⟩ := (Option.any_eq_true _ _).1 hfails
  split at houtcome
  · next x trace m' =>
    obtain rfl := of_decide_eq_true houtcome
    obtain ⟨d, binder, atoms, alt, fields, hvisits, hselects, hwhy⟩ := hdropped 10 _ m' _ hrun rfl
    exact ⟨m, _, m', d, binder, atoms, alt, fields, hload, hrun, rfl, hvisits, hselects, hwhy⟩
  · cases houtcome

end Spineless
