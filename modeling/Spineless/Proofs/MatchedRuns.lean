import Spineless.Proofs.PrimOp.Parametric
import Spineless.Proofs.Session

/-!
# Runs from corresponding states

Two runs that start with corresponding work in corresponding states stay in step: they take as many
transitions, and their outcomes correspond (`Matching.States.follow`). There is one lemma for each kind of
transition, put together in `Matching.States.step`, and the runs follow by induction.

The two machines may disagree about the top-level variables in `lost`. So the first run has to get along
without them: where it looks one of these up, there has to be a binding in the environment
(`Snapshot.avoids`).
-/

namespace Spineless

open Snapshot

variable {host : Host}

/-- The variables that one transition of an expression looks up in the scope around it. The members of a
group find each other inside it. -/
def Expr.outer : Expr → List Ident
  | .letIn (.group pairs) _ =>
    (pairs.flatMap fun pair => pair.2.vars).filter fun x => x.key ∉ keys (pairs.map Prod.fst)
  | e => e.lookups

/-- The keys that one transition of an expression looks up in the scope around it. -/
def Expr.Reads (e : Expr) (key : String) : Prop := ∃ x ∈ e.outer, x.isToken = false ∧ x.key = key

/-- Whether a transition looks up no top-level variable with one of the keys. -/
def Snapshot.avoids (lost : List String) (d : Snapshot) : Bool :=
  match d.code with
  | .eval e => e.outer.all fun x => x.isToken || !lost.contains x.key || d.state.env.contains x
  | .enter _ | .ret _ => true

/-- What is looked up by a transition that avoids some keys is bound in the environment. -/
theorem Snapshot.isSome_of_avoids {lost : List String} {e : Expr} {s : State} {key : String}
    (h : avoids lost ⟨.eval e, s⟩ = true) (hread : e.Reads key) (hlost : key ∈ lost) :
    (s.env.find? key).isSome := by
  obtain ⟨x, hx, htoken, rfl⟩ := hread
  have hbound := List.all_eq_true.1 h x hx
  rwa [htoken, List.contains_iff_mem.2 hlost] at hbound

namespace Matching

variable {M N : Matching} {reads : String → Prop} {s t : State}

/-- Some variables are tokens or have keys that are read. -/
def Covers (reads : String → Prop) (xs : List Ident) : Prop := ∀ x ∈ xs, x.isToken = false → reads x.key

theorem covers_outer (e : Expr) : Covers e.Reads e.outer := fun x hx htoken => ⟨x, hx, htoken, rfl⟩

theorem Refs.mono (h : M.Grows N) {a b : Addr} (hab : M.Refs a b) : N.Refs a b :=
  ⟨h.live hab.1, hab.2.trans (h.addr hab.1).symm⟩

/-- What was read does not matter any more. -/
theorem Outcomes.forget {α β : Type} {V : Matching → α → β → Prop} {x : Outcome State α}
    {y : Outcome State β} (h : M.Outcomes reads V x y) : M.Outcomes (fun _ => False) V x y := by
  cases h with
  | ok hcontinues hstates hvalues => exact .ok hcontinues hstates.forget hvalues
  | error hcontinues hstates hfaults => exact .error hcontinues hstates hfaults

/-! ## Arguments and allocation -/

namespace States

theorem literalAtom (h : M.States reads s t) (l : Lit) :
    M.Outcomes reads Atoms (Exec.literal l s) (Exec.literal l t) := by
  cases l with
  | string bytes => exact (h.intern bytes).bind fun _ _ _ _ _ _ h' hpq => .pure h' hpq
  | int | word | char | float | double | nullAddr => exact .pure h (.plain rfl)

theorem argument (h : M.States reads s t) {arg : Arg} (harg : Covers reads arg.var?.toList) :
    M.Outcomes reads Atoms (Exec.argument arg s) (Exec.argument arg t) := by
  cases arg with
  | var x => exact h.resolve (harg x (List.mem_singleton_self x))
  | lit l => exact h.literalAtom l

theorem arguments (h : M.States reads s t) {args : List Arg}
    (hargs : Covers reads (args.filterMap Arg.var?)) :
    M.Outcomes reads (fun N => List.Forall₂ N.Atoms) (Exec.arguments args s) (Exec.arguments args t) := by
  induction args generalizing M s t with
  | nil => exact .pure h .nil
  | cons arg args ih =>
      have hfirst : Covers reads arg.var?.toList := by
        intro x hx
        exact hargs x (List.mem_filterMap.2 ⟨arg, List.mem_cons_self, Option.mem_toList.1 hx⟩)
      have hrest : Covers reads (args.filterMap Arg.var?) := by
        intro x hx
        obtain ⟨other, hother, hvar⟩ := List.mem_filterMap.1 hx
        exact hargs x (List.mem_filterMap.2 ⟨other, List.mem_cons_of_mem _ hother, hvar⟩)
      rw [Exec.arguments_cons]
      refine (h.argument hfirst).bind fun _ a b _ _ _ h₁ hab => ?_
      refine (ih h₁ hrest).bind fun _ as bs _ _ hgrows h₂ hvalues => ?_
      exact .pure h₂ (.cons (hab.mono hgrows) hvalues)

/-- The loop of `capture`, from corresponding environments. -/
theorem capture_loop (h : M.States reads s t) {freeVars : List Ident} (hfree : Covers reads freeVars)
    {env env' : Env} (henv : M.Envs env env') :
    M.Outcomes reads Envs
      ((freeVars.foldlM (fun env x => return env.bind x (← Exec.resolve x)) env : Exec Env) s)
      ((freeVars.foldlM (fun env x => return env.bind x (← Exec.resolve x)) env' : Exec Env) t) := by
  induction freeVars generalizing M env env' s t with
  | nil => exact .pure h henv
  | cons x freeVars ih =>
      rw [List.foldlM_cons, List.foldlM_cons, bind_assoc, bind_assoc]
      refine (h.resolve (hfree x List.mem_cons_self)).bind fun N a b s₁ t₁ hgrows h₁ hab => ?_
      rw [pure_bind, pure_bind]
      exact ih h₁ (fun y hy => hfree y (List.mem_cons_of_mem _ hy)) ((henv.mono hgrows).bind x hab)

/-- The object of a right-hand side. -/
theorem build (h : M.States reads s t) (name : Ident) {rhs : Rhs} (hrhs : Covers reads rhs.vars) :
    M.Outcomes reads Objects (Exec.build name rhs s) (Exec.build name rhs t) := by
  cases rhs with
  | closure freeVars lambda =>
      refine (h.capture_loop hrhs .empty).bind fun _ env env' _ _ _ h₁ henv => .pure h₁ ?_
      exact .closure ⟨rfl, rfl, henv, .nil, rfl⟩
  | con k args =>
      exact (h.arguments hrhs).bind fun _ _ _ _ _ _ h₁ hvalues => .pure h₁ (.con k hvalues)

end States

/-! ### Groups -/

theorem mem_of_mem_numbered {start : Addr} {pairs : List (Ident × Rhs)} {m : Addr × Ident × Rhs}
    (h : m ∈ numbered start pairs) : m.2 ∈ pairs := by
  induction pairs generalizing start with
  | nil => exact absurd h List.not_mem_nil
  | cons pair rest ih =>
      rcases List.mem_cons.1 h with rfl | h
      · exact List.mem_cons_self
      · exact List.mem_cons_of_mem _ (ih h)

/-- The same members with corresponding addresses. -/
def Members (M : Matching) : List (Addr × Ident × Rhs) → List (Addr × Ident × Rhs) → Prop :=
  List.Forall₂ fun m m' => M.Refs m.1 m'.1 ∧ m'.2 = m.2

section Group

variable {start start' : Addr} {pairs : List (Ident × Rhs)}
  (haddrs : ∀ i < pairs.length, M.Refs (start + i) (start' + i))
include haddrs

/-- The addresses of all members but the first. -/
private theorem refs_tail {pair : Ident × Rhs} {rest : List (Ident × Rhs)} (hpairs : pairs = pair :: rest) :
    ∀ i < rest.length, M.Refs (start + 1 + i) (start' + 1 + i) := by
  intro i hi
  rw [Nat.add_assoc, Nat.add_assoc, Nat.add_comm 1 i]
  refine haddrs (i + 1) ?_
  rw [hpairs, List.length_cons]
  exact Nat.succ_lt_succ hi

theorem pairs_references : M.Pairs (references start pairs) (references start' pairs) := by
  induction pairs generalizing start start' with
  | nil => exact .nil
  | cons pair rest ih =>
      obtain ⟨hlive, haddr⟩ : M.Refs start start' := haddrs 0 (Nat.succ_pos _)
      have hfirst : M.Atoms (.ptr start) (.ptr start') := by
        rw [haddr]
        exact .ptr hlive
      exact .cons ⟨rfl, hfirst⟩ (ih (refs_tail haddrs rfl))

theorem members_numbered : M.Members (numbered start pairs) (numbered start' pairs) := by
  induction pairs generalizing start start' with
  | nil => exact .nil
  | cons pair rest ih => exact .cons ⟨haddrs 0 (Nat.succ_pos _), rfl⟩ (ih (refs_tail haddrs rfl))

end Group

/-- Slots that are handed out for the members of a group are matched in order. -/
theorem States.reserveAll (h : M.States reads s t) (n : Nat) :
    (M.link s.heap.size n).States reads (s.grow (List.replicate n none)) (t.grow (List.replicate n none)) ∧
      ∀ i < n, (M.link s.heap.size n).Refs (s.heap.size + i) (t.heap.size + i) := by
  have hslots : ∀ N : Matching, List.Forall₂ (Option.Rel N.Objects) (List.replicate n none)
      (List.replicate n none) := by
    intro N
    refine List.forall₂_same.2 fun slot hslot => ?_
    rw [List.eq_of_mem_replicate hslot]
    exact .none
  have hgrown := h.grow (hslots _)
  rw [List.length_replicate] at hgrown
  exact ⟨hgrown, fun i hi => ⟨M.link_live s.heap.size hi, (h.fresh i).symm⟩⟩

namespace States

/-- Members with corresponding addresses are built one after the other. -/
theorem define (h : M.States reads s t) {build : Ident → Rhs → Exec Object}
    {members members' : List (Addr × Ident × Rhs)} (hmembers : M.Members members members')
    (hbuild : ∀ m ∈ members, ∀ N s' t', M.Continues N → N.States reads s' t' →
      N.Outcomes reads Objects (build m.2.1 m.2.2 s') (build m.2.1 m.2.2 t')) :
    M.Outcomes reads Same (Exec.define build members s) (Exec.define build members' t) := by
  induction members generalizing M members' s t with
  | nil =>
      cases hmembers
      exact .pure h rfl
  | cons m members ih =>
      obtain ⟨m', rest', ⟨hrefs, hsame⟩, hrest, rfl⟩ := List.forall₂_cons_left_iff.1 hmembers
      obtain ⟨a, x, rhs⟩ := m
      obtain ⟨a', _⟩ := m'
      cases hsame
      have hfirst : M.Outcomes reads Same ((build x rhs >>= Exec.store a) s)
          ((build x rhs >>= Exec.store a') t) := by
        refine (hbuild _ List.mem_cons_self M s t (.refl M) h).bind fun N o o' s₁ t₁ hgrows h₁ ho => ?_
        obtain ⟨hlive, haddr⟩ : N.Refs a a' := hrefs.mono hgrows
        rw [haddr]
        exact h₁.write hlive ho
      refine hfirst.andThen fun N _ _ s₁ t₁ hcontinues h₁ _ => ?_
      have hrest' : N.Members members rest' :=
        hrest.imp fun _ _ hm => ⟨hm.1.mono hcontinues.toGrows, hm.2⟩
      refine ih h₁ hrest' fun m hm O s' t' hgrown => ?_
      exact hbuild m (List.mem_cons_of_mem _ hm) O s' t' (hcontinues.trans hgrown)

/-- A local binding. A group finds its own members in the environment. -/
theorem allocateBinding (h : M.States reads s t) {b : Binding} {body : Expr}
    (hb : Covers reads (Expr.letIn b body).outer) :
    M.Outcomes (fun _ => False) Same (Exec.allocateBinding b s) (Exec.allocateBinding b t) := by
  cases b with
  | nonRec x rhs =>
      refine (h.build x hb).bind fun _ o o' _ _ _ h₁ ho => ?_
      refine (h₁.allocate ho).bind fun _ a a' _ _ _ h₂ href => ?_
      rw [href.2]
      exact .ok (.refl _) (h₂.bind x (.ptr href.1)).forget rfl
  | group pairs =>
      obtain ⟨hgrown, haddrs⟩ := h.reserveAll pairs.length
      have hdeclared := hgrown.bindAll (pairs_references haddrs)
      rw [Exec.allocateBinding, Exec.bind_of_ok (Exec.declare_local pairs s),
        Exec.bind_of_ok (Exec.declare_local pairs t)]
      -- What a member looks up is another member, or it is looked up around the group.
      have hcovers : ∀ m ∈ numbered s.heap.size pairs,
          Covers (fun key => reads key ∨ key ∈ keys (pairs.map Prod.fst)) m.2.2.vars := by
        intro m hm x hx htoken
        by_cases hkey : x.key ∈ keys (pairs.map Prod.fst)
        · exact .inr hkey
        · have hvars : x ∈ pairs.flatMap fun pair => pair.2.vars :=
            List.mem_flatMap.2 ⟨m.2, mem_of_mem_numbered hm, hx⟩
          exact .inl (hb x (List.mem_filter.2 ⟨hvars, decide_eq_true hkey⟩) htoken)
      rw [map_fst_references] at hdeclared
      exact ((hdeclared.define (members_numbered haddrs) fun m hm _ _ _ _ h' =>
        h'.build m.2.1 (hcovers m hm)).after (M.continues_link _ _)).forget

end States

/-! ## Evaluating -/

/-- Corresponding work. -/
inductive Codes (M : Matching) : Code → Code → Prop
  /-- The same expression. -/
  | eval (e : Expr) : Codes M (.eval e) (.eval e)
  /-- Corresponding atoms to enter. -/
  | enter {a b : Atom} (atoms : M.Atoms a b) : Codes M (.enter a) (.enter b)
  /-- Corresponding values to return. -/
  | ret {as bs : List Atom} (values : List.Forall₂ M.Atoms as bs) : Codes M (.ret as) (.ret bs)

/-- Corresponding outcomes of a transition. -/
inductive Nexts (M : Matching) : Next → Next → Prop
  /-- More work. -/
  | code {c d : Code} (codes : M.Codes c d) : Nexts M (.code c) (.code d)
  /-- The values of the runs. -/
  | done {as bs : List Atom} (values : List.Forall₂ M.Atoms as bs) : Nexts M (.done as) (.done bs)

namespace States

/-- Arguments that are left waiting, if there are any. -/
theorem pushArgs {α β : Type} {V : Matching → α → β → Prop} {reads' : String → Prop}
    (h : M.States reads s t) {args args' : List Atom} (hargs : List.Forall₂ M.Atoms args args')
    {k : Unit → Exec α} {k' : Unit → Exec β}
    (hnext : ∀ N s' t', M.Grows N → N.States reads s' t' → N.Outcomes reads' V (k () s') (k' () t')) :
    M.Outcomes reads' V ((if !args.isEmpty then Exec.pushFrame (.apply args) >>= k else k ()) s)
      ((if !args'.isEmpty then Exec.pushFrame (.apply args') >>= k' else k' ()) t) := by
  cases hargs with
  | nil => exact hnext M s t (Continues.refl M).toGrows h
  | cons hab hrest =>
      exact (h.pushFrame (.apply (.cons hab hrest))).bind fun N _ _ s' t' hgrows h' _ =>
        hnext N s' t' hgrows h'

theorem eval {e : Expr} (h : M.States e.Reads s t) :
    M.Outcomes (fun _ => False) Codes (Exec.eval (.standard host) e s) (Exec.eval (.standard host) e t) := by
  cases e with
  | app callee args =>
      have hall : Covers (Expr.app callee args).Reads (callee :: args.filterMap Arg.var?) := covers_outer _
      have hargs : Covers (Expr.app callee args).Reads (args.filterMap Arg.var?) :=
        fun x hx => hall x (List.mem_cons_of_mem _ hx)
      refine (h.resolve (hall callee List.mem_cons_self)).bind fun _ f g _ _ _ h₁ hf => ?_
      refine (h₁.arguments hargs).bind fun _ atoms atoms' _ _ hgrows₂ h₂ hvalues => ?_
      exact h₂.pushArgs hvalues fun _ _ _ hgrows₃ h₃ =>
        .pure h₃.forget (.enter (hf.mono (hgrows₂.trans hgrows₃)))
  | lit l => exact (h.literalAtom l).bind fun _ _ _ _ _ _ h₁ ha => .pure h₁.forget (.ret (.cons ha .nil))
  | conApp k args =>
      refine (h.arguments (covers_outer _)).bind fun _ _ _ _ _ _ h₁ hvalues => ?_
      refine (h₁.allocate (.con k hvalues)).bind fun _ a b _ _ _ h₂ href => ?_
      rw [href.2]
      exact .pure h₂.forget (.ret (.cons (.ptr href.1) .nil))
  | multiVal args =>
      exact (h.arguments (covers_outer _)).bind fun _ _ _ _ _ _ h₁ hvalues =>
        .pure h₁.forget (.ret hvalues)
  | opApp op args resultType resultTyCon =>
      refine (h.arguments (covers_outer _)).bind fun N atoms atoms' _ _ _ h₁ hvalues => ?_
      have hcalls : N.Calls ⟨op, atoms, resultType, resultTyCon⟩ ⟨op, atoms', resultType, resultTyCon⟩ :=
        ⟨rfl, hvalues, rfl⟩
      exact (Registry.matched_standard h₁ hcalls).bind fun _ _ _ _ _ _ h₂ hresults =>
        .pure h₂.forget (.ret hresults)
  | case scrutinee binder altType alts =>
      refine (h.pushFrame (.caseOf binder altType alts)).bind fun _ _ _ _ _ _ h₁ _ => ?_
      exact .ok (.refl _) (h₁.pushTrace binder).forget (.eval scrutinee)
  | letIn binding body =>
      exact (h.allocateBinding (covers_outer _)).bind fun _ _ _ _ _ _ h₁ _ => .pure h₁ (.eval body)

/-! ## Entering -/

theorem enter (h : M.States reads s t) {a b : Atom} (hab : M.Atoms a b) :
    M.Outcomes (fun _ => False) Codes (Exec.enter a s) (Exec.enter b t) := by
  cases hab with
  | @ptr a hlive =>
      refine (h.read hlive).bind fun N o o' s₁ t₁ hgrows h₁ ho => ?_
      have hlive₁ := hgrows.live hlive
      rw [← hgrows.addr hlive]
      cases ho with
      | con k _ => exact .pure h₁.forget (.ret (.cons (.ptr hlive₁) .nil))
      | blackhole _ => exact h₁.fail (.blackholeEntered hlive₁)
      | @closure c d hclosures =>
          simp only [hclosures.isThunk]
          cases c.isThunk with
          | false => exact .pure h₁.forget (.ret (.cons (.ptr hlive₁) .nil))
          | true =>
              refine (h₁.write hlive₁ (.blackhole (.closure hclosures))).bind
                fun _ _ _ _ _ hgrows₂ h₂ _ => ?_
              rw [← hgrows₂.addr hlive₁]
              refine (h₂.pushFrame (.update (hgrows₂.live hlive₁))).bind
                fun _ _ _ _ _ hgrows₃ h₃ _ => ?_
              rw [hclosures.name, hclosures.lambda]
              have hscope := h₃.enterScope c.name (hclosures.env.mono (hgrows₂.trans hgrows₃))
              exact .ok (.refl _) hscope (.eval c.lambda.body)
  | str hliteral offset => exact .pure h.forget (.ret (.cons (.str hliteral offset) .nil))
  | stable hinner => exact .pure h.forget (.ret (.cons (.stable hinner) .nil))
  | plain hplain =>
      cases a with
      | ptr | str | stable => cases hplain
      | _ => exact .pure h.forget (.ret (.cons (.plain rfl) .nil))

/-! ## Returning -/

end States

/-- Corresponding values are single references to corresponding addresses, or neither are. -/
theorem single_ref_cases {as bs : List Atom} (h : List.Forall₂ M.Atoms as bs) :
    (∃ a, M.live a ∧ as = [.ptr a] ∧ bs = [.ptr (M.addr a)]) ∨
      (∀ a, as ≠ [.ptr a]) ∧ ∀ a, bs ≠ [.ptr a] := by
  rcases h with _ | @⟨c, d, _, _, hab, _ | _⟩
  · exact .inr ⟨by simp, by simp⟩
  · cases hab with
    | ptr hlive => exact .inl ⟨_, hlive, rfl, rfl⟩
    | str | stable => exact .inr ⟨by simp, by simp⟩
    | plain hplain =>
        have hnot : ∀ a, [c] ≠ [Atom.ptr a] := by
          rintro a ⟨⟩
          cases hplain
        exact .inr ⟨hnot, hnot⟩
  · exact .inr ⟨by simp, by simp⟩

namespace States

theorem update (h : M.States reads s t) {target : Addr} (hlive : M.live target) {as bs : List Atom}
    (hvalues : List.Forall₂ M.Atoms as bs) :
    M.Outcomes (fun _ => False) Codes (Exec.update target as s) (Exec.update (M.addr target) bs t) := by
  rcases single_ref_cases hvalues with ⟨result, hresult, rfl, rfl⟩ | ⟨hnot, hnot'⟩
  · refine (h.read hresult).bind fun _ o o' _ _ hgrows h₁ ho => ?_
    rw [← hgrows.addr hlive, ← hgrows.addr hresult]
    refine (h₁.write (hgrows.live hlive) ho).bind fun _ _ _ _ _ hgrows₂ h₂ _ => ?_
    rw [← hgrows₂.addr (hgrows.live hresult)]
    exact .pure h₂.forget (.ret (.cons (.ptr (hgrows₂.live (hgrows.live hresult))) .nil))
  · unfold Exec.update
    split
    · exact absurd rfl (hnot _)
    · exact h.fail (.invalidUpdate hlive hvalues)

theorem apply (h : M.States reads s t) {a : Addr} (hlive : M.live a) {args args' : List Atom}
    (hargs : List.Forall₂ M.Atoms args args') :
    M.Outcomes (fun _ => False) Codes (Exec.apply a args s) (Exec.apply (M.addr a) args' t) := by
  refine (h.read hlive).bind fun N o o' s₁ t₁ hgrows h₁ ho => ?_
  have hlive₁ := hgrows.live hlive
  have hargs₁ := values_mono hgrows hargs
  rw [← hgrows.addr hlive]
  cases ho with
  | con k _ => exact h₁.fail (.notApplicable hlive₁ _)
  | blackhole _ => exact h₁.fail (.notApplicable hlive₁ _)
  | @closure c d hclosures =>
      simp only [hclosures.missing, ← hargs₁.length_eq]
      by_cases hthunk : c.missing = 0
      · rw [if_pos hthunk, if_pos hthunk, Object.shape, Object.shape, hclosures.shape]
        exact h₁.fail (.notApplicable hlive₁ _)
      rw [if_neg hthunk, if_neg hthunk]
      by_cases hfew : args.length < c.missing
      · rw [if_pos hfew, if_pos hfew]
        have hpartial : N.Closures { c with args := c.args ++ args, missing := c.missing - args.length }
            { d with args := d.args ++ args', missing := c.missing - args.length } :=
          { hclosures with args := List.rel_append hclosures.args hargs₁, missing := rfl }
        refine (h₁.allocate (.closure hpartial)).bind fun _ _ _ _ _ _ h₂ href => ?_
        rw [href.2]
        exact .pure h₂.forget (.ret (.cons (.ptr href.1) .nil))
      · rw [if_neg hfew, if_neg hfew]
        refine h₁.pushArgs (List.forall₂_drop c.missing hargs₁) fun O s₂ t₂ hgrows₂ h₂ => ?_
        have hvalues : List.Forall₂ O.Atoms (c.args ++ args.take c.missing)
            (d.args ++ args'.take c.missing) :=
          values_mono hgrows₂ (List.rel_append hclosures.args (List.forall₂_take c.missing hargs₁))
        rw [hclosures.name, hclosures.lambda]
        have henv := (hclosures.env.mono hgrows₂).extend (pairs_zip c.lambda.params hvalues)
        exact .ok (.refl _) (h₂.enterScope c.name henv) (.eval c.lambda.body)

end States

/-! ### Alternatives -/

/-- The same choice, with corresponding values: the constructor behind a scrutinee with its fields, or an
alternative with the values for its binders. -/
def Choices {α : Type} (M : Matching) : Option (α × List Atom) → Option (α × List Atom) → Prop :=
  Option.Rel fun x y => y.1 = x.1 ∧ List.Forall₂ M.Atoms x.2 y.2

/-- Corresponding atoms are equal to the same literals. -/
theorem Atoms.beq_literal {a b expected : Atom} (h : M.Atoms a b) {l : Lit} (hl : l.atom? = some expected) :
    (b == expected) = (a == expected) := by
  cases h with
  | plain => rfl
  | _ => cases l <;> cases hl <;> rfl

/-- An alternative binds corresponding values. -/
theorem fields?_of_choices (alt : Alt) (altType : AltType) {atoms atoms' : List Atom}
    {scrutinee scrutinee' : Option (DataCon × List Atom)} (hvalues : List.Forall₂ M.Atoms atoms atoms')
    (hscrutinee : M.Choices scrutinee scrutinee') :
    Option.Rel (List.Forall₂ M.Atoms) (alt.fields? altType atoms scrutinee)
      (alt.fields? altType atoms' scrutinee') := by
  obtain ⟨con, binders, rhs⟩ := alt
  cases con with
  | default =>
      simp only [Alt.fields?]
      split
      · exact .some hvalues
      · exact .some .nil
  | data k =>
      cases hscrutinee with
      | none => exact .none
      | @some found found' hfound =>
          simp only [Alt.fields?, hfound.1]
          split
          · exact .some hfound.2
          · exact .none
  | lit l =>
      cases hl : l.atom? with
      | none =>
          rcases hvalues with _ | ⟨_, _ | _⟩ <;> simp only [Alt.fields?, hl] <;> exact .none
      | some expected =>
          rcases hvalues with _ | ⟨hab, _ | _⟩
          · exact .none
          · simp only [Alt.fields?, hl, hab.beq_literal hl]
            split
            · exact .some .nil
            · exact .none
          · exact .none

/-- The same alternative is the first one that matches. -/
theorem first?_of_choices (alts : List Alt) (altType : AltType) {atoms atoms' : List Atom}
    {scrutinee scrutinee' : Option (DataCon × List Atom)} (hvalues : List.Forall₂ M.Atoms atoms atoms')
    (hscrutinee : M.Choices scrutinee scrutinee') :
    M.Choices (Alt.first? alts altType atoms scrutinee) (Alt.first? alts altType atoms' scrutinee') := by
  unfold Alt.first?
  induction alts with
  | nil => exact .none
  | cons alt alts ih =>
      have hfields := fields?_of_choices alt altType hvalues hscrutinee
      rw [List.findSome?_cons, List.findSome?_cons]
      generalize alt.fields? altType atoms scrutinee = fields at hfields
      generalize alt.fields? altType atoms' scrutinee' = fields' at hfields
      cases hfields with
      | none => exact ih
      | some hfields => exact .some ⟨rfl, hfields⟩

namespace States

theorem bindValue (h : M.States reads s t) (binder : Ident) {atoms atoms' : List Atom}
    (hvalues : List.Forall₂ M.Atoms atoms atoms') :
    M.Outcomes reads Same (Exec.bindValue binder atoms s) (Exec.bindValue binder atoms' t) := by
  rcases hvalues with _ | ⟨hab, _ | _⟩
  · exact .pure h rfl
  · exact .ok (.refl M) (h.bind binder hab) rfl
  · exact .pure h rfl

theorem scrutinee? (h : M.States reads s t) (alts : List Alt) {atoms atoms' : List Atom}
    (hvalues : List.Forall₂ M.Atoms atoms atoms') :
    M.Outcomes reads Choices (Exec.scrutinee? alts atoms s) (Exec.scrutinee? alts atoms' t) := by
  rcases single_ref_cases hvalues with ⟨a, hlive, rfl, rfl⟩ | ⟨hnot, hnot'⟩
  · simp only [Exec.scrutinee?]
    split
    · exact (h.readCon hlive).bind fun _ _ _ _ _ _ h₁ hfound => .pure h₁ (.some hfound)
    · exact .pure h .none
  · unfold Exec.scrutinee?
    split
    · exact absurd rfl (hnot _)
    · exact .pure h .none

theorem select (h : M.States reads s t) (binder : Ident) (altType : AltType) (alts : List Alt)
    {atoms atoms' : List Atom} (hvalues : List.Forall₂ M.Atoms atoms atoms') :
    M.Outcomes (fun _ => False) Codes (Exec.select binder altType alts atoms s)
      (Exec.select binder altType alts atoms' t) := by
  refine (h.bindValue binder hvalues).bind fun N _ _ _ _ hgrows₁ h₁ _ => ?_
  have hvalues₁ := values_mono hgrows₁ hvalues
  refine (h₁.scrutinee? alts hvalues₁).bind fun O scrutinee scrutinee' _ _ hgrows₂ h₂ hscrutinee => ?_
  have hvalues₂ := values_mono hgrows₂ hvalues₁
  have hfirst := first?_of_choices alts altType hvalues₂ hscrutinee
  generalize Alt.first? alts altType atoms scrutinee = found at hfirst
  generalize Alt.first? alts altType atoms' scrutinee' = found' at hfirst
  cases hfirst with
  | @some found found' hfound =>
      obtain ⟨alt, fields⟩ := found
      obtain ⟨alt', fields'⟩ := found'
      obtain ⟨rfl, hfields⟩ : alt' = alt ∧ List.Forall₂ O.Atoms fields fields' := hfound
      exact .ok (.refl _) (h₂.bindAll (pairs_zip alt'.binders hfields)).forget (.eval alt'.rhs)
  | none =>
      cases hscrutinee with
      | none => exact h₂.fail (.noMatch binder hvalues₂)
      | @some k k' hk =>
          obtain ⟨con, fields⟩ := k
          obtain ⟨con', fields'⟩ := k'
          obtain rfl : con' = con := hk.1
          exact h₂.fail (.plain rfl)

/-! ## Transitions -/

/-- Handing corresponding values to corresponding frames. -/
theorem resume (h : M.States reads s t) {frame frame' : Frame} {rest rest' : Stack}
    (hpop : s.stack.pop? = some (frame, rest)) (hpop' : t.stack.pop? = some (frame', rest'))
    {atoms atoms' : List Atom} (hvalues : List.Forall₂ M.Atoms atoms atoms') :
    M.Outcomes (fun _ => False) Codes (Exec.resume frame atoms { s with stack := rest })
      (Exec.resume frame' atoms' { t with stack := rest' }) := by
  obtain ⟨hconts, hresumed⟩ := h.resumed hpop hpop'
  obtain ⟨k, env, trace⟩ := frame
  obtain ⟨k', env', trace'⟩ := frame'
  unfold Exec.resume
  rw [Exec.modify_bind, Exec.modify_bind]
  cases hconts with
  | update hlive => exact hresumed.update hlive hvalues
  | caseOf binder altType alts => exact hresumed.select binder altType alts hvalues
  | @apply args args' hargs =>
      rcases single_ref_cases hvalues with ⟨a, hlive, rfl, rfl⟩ | ⟨hnot, hnot'⟩
      · exact hresumed.apply hlive hargs
      · dsimp only
        split
        · exact absurd rfl (hnot _)
        · exact hresumed.fail (.notAFunction hvalues)

/-- The states of corresponding snapshots, if the first one gets along without the lost variables. -/
theorem regain {e : Expr} (h : M.States reads s t) (havoids : avoids M.lost ⟨.eval e, s⟩ = true) :
    M.States e.Reads s t :=
  { h with held := fun _ hread hlost => isSome_of_avoids havoids hread hlost }

/-- One transition. -/
theorem step {code code' : Code} (h : M.States reads s t) (hcodes : M.Codes code code')
    (havoids : avoids M.lost ⟨code, s⟩ = true) (host : Host) (base : Nat) :
    M.Outcomes (fun _ => False) Nexts (Spineless.step (.standard host) base code s)
      (Spineless.step (.standard host) base code' t) := by
  cases hcodes with
  | eval e => exact (h.regain havoids).eval.bind fun _ _ _ _ _ _ h₁ hnext => .pure h₁ (.code hnext)
  | enter hab => exact (h.enter hab).bind fun _ _ _ _ _ _ h₁ hnext => .pure h₁ (.code hnext)
  | @ret atoms atoms' hvalues =>
      have hdepth := h.stack_depth
      by_cases hbase : s.stack.depth ≤ base
      · rw [step_ret_of_le hbase, step_ret_of_le (hdepth ▸ hbase)]
        exact .pure h.forget (.done hvalues)
      · obtain ⟨frame, rest, hpop, hstep⟩ := step_ret_of_lt (.standard host) atoms (Nat.lt_of_not_le hbase)
        obtain ⟨frame', rest', hpop', hstep'⟩ :=
          step_ret_of_lt (.standard host) atoms' (hdepth ▸ Nat.lt_of_not_le hbase)
        rw [hstep, hstep']
        exact (h.resume hpop hpop' hvalues).bind fun _ _ _ _ _ _ h₁ hnext => .pure h₁ (.code hnext)

end States

/-! ## Runs -/

/-- Corresponding ends of two runs: both are still going, or both ended after as many transitions. -/
inductive Endings (M : Matching) :
    Option (Nat × Outcome State (List Atom)) → Option (Nat × Outcome State (List Atom)) → Prop
  /-- Both are still going. -/
  | running : Endings M none none
  /-- Both ended. -/
  | ended (steps : Nat) {x y : Outcome State (List Atom)}
      (outcomes : M.Outcomes (fun _ => False) (fun N => List.Forall₂ N.Atoms) x y) :
      Endings M (some (steps, x)) (some (steps, y))

theorem Endings.after (h : M.Continues N) {x y : Option (Nat × Outcome State (List Atom))}
    (hxy : N.Endings x y) : M.Endings x y := by
  cases hxy with
  | running => exact .running
  | ended steps houtcomes => exact .ended steps (houtcomes.after h)

/-- Runs from corresponding snapshots end in the same way. -/
theorem States.follow {code code' : Code} (h : M.States (fun _ => False) s t) (hcodes : M.Codes code code')
    (budget : Option Nat) (base fuel steps : Nat)
    (havoids : ∀ d, Reaches (.standard host) base ⟨code, s⟩ d → d.avoids M.lost = true) :
    M.Endings (Spineless.follow (.standard host) budget base fuel code steps s)
      (Spineless.follow (.standard host) budget base fuel code' steps t) := by
  induction fuel generalizing M code code' steps s t with
  | zero => exact .running
  | succ fuel ih =>
      rw [Spineless.follow, Spineless.follow]
      cases exceeded? budget (tick steps) with
      | some limit => exact .ended _ (.error (.refl M) h ⟨.plain rfl, h.trace⟩)
      | none =>
          have hstep := h.step hcodes (havoids _ .refl) host base
          have hreach : ∀ c s', Spineless.step (.standard host) base code s = .ok (.code c) s' →
              ∀ d, Reaches (.standard host) base ⟨c, s'⟩ d → d.avoids M.lost = true := by
            intro c s' hfirst d hd
            have hsteps : Steps (.standard host) base ⟨code, s⟩ ⟨c, s'⟩ := hfirst
            exact havoids d (.head hsteps hd)
          generalize Spineless.step (.standard host) base code s = first at hstep hreach
          generalize Spineless.step (.standard host) base code' t = second at hstep
          cases hstep with
          | error hcontinues h₁ hfaults => exact .ended _ (.error hcontinues h₁ hfaults)
          | ok hcontinues h₁ hnexts =>
              cases hnexts with
              | done hvalues => exact .ended _ (.ok hcontinues h₁ hvalues)
              | code hcodes₁ =>
                  refine (ih h₁ hcodes₁ (tick steps) fun d hd => ?_).after hcontinues
                  rw [hcontinues.lost_eq]
                  exact hreach _ _ rfl d hd

/-! ## Calls -/

end Matching

/-- An entry that denotes nothing is not run. -/
theorem Machine.runEntry_of_unbound {m : Machine} {fuel : Nat} {x : Ident} (hentry : m.entry = some x)
    (hlookup : m.state.lookup? x = none) :
    m.runEntry fuel = some (.error ⟨.unboundVariable x, m.state.trace⟩ m) := by
  have hresolve : onState (Exec.resolve x) m = .error ⟨.unboundVariable x, m.state.trace⟩ m := by
    have hfail := Exec.resolve_eq_error.2 ⟨hlookup, rfl, rfl⟩
    simp only [onState, hfail]
  unfold runEntry
  simp only [hentry, hresolve]

namespace Matching

variable {M N : Matching} {reads : String → Prop} {s t : State}

/-- Machines in corresponding states. -/
structure Machines (M : Matching) (m n : Machine) : Prop where
  states : M.States (fun _ => False) m.state n.state
  registry : ∃ host, m.registry = .standard host
  registry' : n.registry = m.registry
  config : n.config = m.config
  entry : n.entry = m.entry
  steps : n.steps = m.steps

/-- Corresponding results of calls on two machines. -/
inductive Results {α β : Type} (M : Matching) (V : Matching → α → β → Prop) :
    Option (Outcome Machine α) → Option (Outcome Machine β) → Prop
  /-- The runs are still going. -/
  | running : Results M V none none
  /-- Both calls succeed. -/
  | returned {N : Matching} {a : α} {b : β} {m n : Machine} (continues : M.Continues N)
      (machines : N.Machines m n) (values : V N a b) : Results M V (some (.ok a m)) (some (.ok b n))
  /-- Both calls fail. -/
  | failed {N : Matching} {e f : Fault} {m n : Machine} (continues : M.Continues N)
      (machines : N.Machines m n) (faults : N.Faults e f) :
      Results M V (some (.error e m)) (some (.error f n))

theorem States.truncateStack (h : M.States reads s t) (base : Nat) :
    M.States reads (s.truncateStack base) (t.truncateStack base) := by
  refine { h with frames := ?_ }
  change List.Forall₂ M.Frames (s.stack.frames.drop (s.stack.depth - base))
    (t.stack.frames.drop (t.stack.depth - base))
  rw [h.stack_depth]
  exact List.forall₂_drop _ h.frames

namespace Machines

variable {m n : Machine}

theorem count (h : M.Machines m n) : n.count = m.count := by
  rw [Machine.count, Machine.count, h.states.stack_depth, h.steps]

/-- What runs left behind, in the scopes of their callers. -/
theorem after (h : M.Machines m n) (hgrows : M.Grows N) (h' : N.States (fun _ => False) s t) (steps : Nat) :
    N.Machines (m.after steps s) (n.after steps t) := by
  refine { h with states := ?_, steps := rfl }
  rw [Machine.after, Machine.after, h.states.trace]
  exact h'.restoreScope (h.states.env.mono hgrows) m.state.trace

/-- Runs of corresponding work in corresponding scopes. -/
theorem runScoped (h : M.Machines m n) (fuel : Nat) (name : Ident) {env env' : Env}
    (henv : M.Envs env env') {code code' : Code} (hcodes : M.Codes code code')
    (havoids : ∀ d, Reaches m.registry m.state.stack.depth ⟨code, m.state.enterScope name env⟩ d →
      d.avoids M.lost = true) :
    M.Results (fun N => List.Forall₂ N.Atoms) (m.runScoped fuel name env code)
      (n.runScoped fuel name env' code') := by
  obtain ⟨host, hregistry⟩ := h.registry
  rw [hregistry] at havoids
  have hends := (h.states.enterScope name henv).follow hcodes m.config.maxSteps m.state.stack.depth fuel
    m.count havoids
  rw [m.runScoped_eq, n.runScoped_eq, h.registry', hregistry, h.config, h.count, h.states.stack_depth]
  generalize Spineless.follow (.standard host) m.config.maxSteps m.state.stack.depth fuel code m.count
    (m.state.enterScope name env) = ending at hends ⊢
  generalize Spineless.follow (.standard host) m.config.maxSteps m.state.stack.depth fuel code' m.count
    (n.state.enterScope name env') = ending' at hends ⊢
  cases hends with
  | running => exact .running
  | ended steps houtcomes =>
      cases houtcomes with
      | ok hcontinues h' hvalues => exact .returned hcontinues (h.after hcontinues.toGrows h' steps) hvalues
      | error hcontinues h' hfaults =>
          rw [Option.map_some, Option.map_some, Machine.finish, Machine.finish, h.states.stack_depth]
          have hends' := h.after hcontinues.toGrows (h'.truncateStack m.state.stack.depth) steps
          exact .failed hcontinues hends' hfaults

/-- Runs of the entry. Both machines know the entry. -/
theorem runEntry (h : M.Machines m n) (fuel : Nat)
    (hentry : ∀ x, m.entry = some x → x.isToken = false → x.key ∈ M.lost →
      (m.state.env.find? x.key).isSome)
    (havoids : ∀ d, m.Visits d → d.avoids M.lost = true) :
    M.Results (fun N => List.Forall₂ N.Atoms) (m.runEntry fuel) (n.runEntry fuel) := by
  cases hm : m.entry with
  | none =>
      unfold Machine.runEntry
      rw [h.entry, hm]
      exact .failed (.refl M) h ⟨.plain rfl, rfl⟩
  | some x =>
      have hreads : M.States (fun key => x.isToken = false ∧ x.key = key) m.state n.state := by
        refine { h.states with held := ?_ }
        rintro _ ⟨htoken, rfl⟩ hlost
        exact hentry x hm htoken hlost
      have hlookup := hreads.lookup? (x := x) fun htoken => ⟨htoken, rfl⟩
      generalize hs : m.state.lookup? x = found at hlookup
      generalize ht : n.state.lookup? x = found' at hlookup
      cases hlookup with
      | none =>
          rw [Machine.runEntry_of_unbound hm hs, Machine.runEntry_of_unbound (h.entry.trans hm) ht]
          exact .failed (.refl M) h ⟨.plain rfl, h.states.trace⟩
      | some hab =>
          rw [Machine.runEntry_of_lookup? hm hs, Machine.runEntry_of_lookup? (h.entry.trans hm) ht]
          refine h.runScoped fuel x .empty (.enter hab) fun d hreach => ?_
          refine havoids d ⟨_, ?_, hreach⟩
          simp only [Command.start?, hm, hs, Option.bind_some, Option.map_some]

/-- Forcing corresponding atoms. -/
theorem force (h : M.Machines m n) (fuel : Nat) {a b : Atom} (hab : M.Atoms a b)
    (havoids : ∀ d, Reaches m.registry m.state.stack.depth
      ⟨.enter a, m.state.enterScope Machine.forceScope m.state.env⟩ d → d.avoids M.lost = true) :
    M.Results Atoms (m.force fuel a) (n.force fuel b) := by
  have hrun := h.runScoped fuel Machine.forceScope h.states.env (.enter hab) havoids
  unfold Machine.force
  generalize m.runScoped fuel Machine.forceScope m.state.env (.enter a) = result at hrun ⊢
  generalize n.runScoped fuel Machine.forceScope n.state.env (.enter b) = result' at hrun ⊢
  cases hrun with
  | running => exact .running
  | failed hcontinues h' hfaults => exact .failed hcontinues h' hfaults
  | @returned N atoms atoms' m' n' hcontinues h' hvalues =>
      -- One value is handed on; anything else is a failure of the call, in the scope of the caller.
      have hfaults : N.Faults ⟨.primOpShape "force" (.notOneValue atoms.length), m'.state.trace⟩
          ⟨.primOpShape "force" (.notOneValue atoms'.length), n'.state.trace⟩ := by
        rw [hvalues.length_eq]
        exact ⟨.plain rfl, h'.states.trace⟩
      rcases hvalues with _ | ⟨hvalue, _ | _⟩
      · exact .failed hcontinues h' hfaults
      · exact .returned hcontinues h' hvalue
      · exact .failed hcontinues h' hfaults

end Machines

end Matching

end Spineless
