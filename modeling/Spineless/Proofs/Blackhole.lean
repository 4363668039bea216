import Mathlib.Data.List.Nodup
import Spineless.Proofs.PrimOp.Standard
import Spineless.Proofs.Session

/-!
# Blackholes and update frames

To blackholes and update frames a transition does one of three things (`Effect`): it touches neither, it
covers a thunk and pushes the frame for its update, or it pops such a frame and overwrites the thunk.
From this follows the discipline of a run that starts without frames: no thunk has two pending updates,
and each thunk with a pending update is covered.

The converse fails. A thunk is covered without a pending update if it was already covered when the call
began, left behind by a failed one, or if its own update copied a blackhole onto it. So entering a
blackhole does not show that a thunk needs its own value; `Session.update_pending_iff` says exactly when
it does.
-/

namespace Spineless

open Snapshot

variable {host : Host}

/-- The thunk that a continuation will overwrite. -/
def Continuation.target? : Continuation → Option Addr
  | .update target => some target
  | .caseOf .. | .apply _ => none

/-- The thunks with a pending update, the topmost first. -/
def State.pending (s : State) : List Addr := s.stack.frames.filterMap fun f => f.cont.target?

/-- An address that holds a blackhole. -/
def State.Blackholed (s : State) (a : Addr) : Prop := ∃ o, s.object? a = some (.blackhole o)

section Pending

variable {s : State}

theorem Continuation.target?_eq_some {k : Continuation} {a : Addr} (h : k.target? = some a) :
    k = .update a := by
  cases k with
  | update target => cases h; rfl
  | caseOf | apply => cases h

/-- An update is pending exactly if its frame is on the stack. -/
theorem State.mem_pending_iff {a : Addr} :
    a ∈ s.pending ↔ ∃ f ∈ s.stack.frames, f.cont = .update a := by
  constructor
  · intro h
    obtain ⟨f, hf, htarget⟩ := List.mem_filterMap.1 h
    exact ⟨f, hf, Continuation.target?_eq_some htarget⟩
  · rintro ⟨f, hf, hcont⟩
    exact List.mem_filterMap.2 ⟨f, hf, by rw [hcont]; rfl⟩

/-- Arguments that wait are no update. -/
@[simp]
theorem State.pending_pushArgs {args : List Atom} : (s.pushArgs args).pending = s.pending := by
  unfold State.pending
  rw [State.frames_pushArgs]
  split
  · rfl
  · rfl

/-- The updates pending after a frame came off the stack. -/
theorem State.pending_of_pop? {frame : Frame} {rest : Stack} (h : s.stack.pop? = some (frame, rest)) :
    s.pending = frame.cont.target?.toList ++ (s.resumed frame rest).pending := by
  unfold State.pending
  rw [Stack.frames_of_pop? h, List.filterMap_cons]
  cases frame.cont.target? with
  | none => rfl
  | some target => rfl

/-- Overwriting the target of the frame that came off the stack. -/
theorem State.overwrite_resumed {frame : Frame} {rest : Stack} {target : Addr}
    (hpop : s.stack.pop? = some (frame, rest)) (hcont : frame.cont = .update target)
    (hknown : target < s.heap.size) (o : Object) :
    s.pending = target :: ((s.resumed frame rest).overwrite target o).pending ∧
      ∀ a, ((s.resumed frame rest).overwrite target o).object? a =
        if a = target then some o else s.object? a := by
  constructor
  · rw [State.pending_of_pop? hpop, hcont]
    rfl
  · intro a
    rw [State.object?_overwrite]
    by_cases ha : a = target
    · rw [if_pos ⟨ha, hknown⟩, if_pos ha]
    · rw [if_neg (fun h => ha h.1), if_neg ha]
      rfl

end Pending

/-! ## The effect of a transition -/

/-- What a transition does to blackholes and update frames. -/
inductive Effect (code : Code) (s : State) (code' : Code) (s' : State) : Prop
  /-- Nothing: objects stay, and new ones are no blackholes. -/
  | keeps (pending : s'.pending = s.pending)
      (old : ∀ a o, s.object? a = some o → s'.object? a = some o)
      (new : ∀ a o, s'.object? a = some o →
        s.object? a = some o ∨ (s.object? a = none ∧ ∀ covered, o ≠ .blackhole covered))
  /-- A thunk is covered. -/
  | covers {p : Addr} {c : Closure} (code : code = .enter (.ptr p))
      (found : s.object? p = some (.closure c)) (thunk : c.missing = 0)
      (pending : s'.pending = p :: s.pending)
      (heap : ∀ a, s'.object? a = if a = p then some (.blackhole (.closure c)) else s.object? a)
  /-- A thunk is overwritten by the object behind the returned reference. -/
  | updates {target result : Addr} {o : Object} {frame : Frame} {rest : Stack}
      (pop : s.stack.pop? = some (frame, rest)) (cont : frame.cont = .update target)
      (code : code = .ret [.ptr result]) (next : code' = .ret [.ptr result])
      (pending : s.pending = target :: s'.pending) (found : s.object? result = some o)
      (heap : ∀ a, s'.object? a = if a = target then some o else s.object? a)

section Effect

variable {base : Nat} {code code' : Code} {s s' : State}

/-- A transition that appends objects and leaves the updates alone. -/
theorem Effect.of_grow (t : State) (objects : List Object)
    (hpending : (t.grow (objects.map some)).pending = s.pending) (hheap : t.heap = s.heap)
    (hobjects : ∀ o ∈ objects, ∀ covered, o ≠ .blackhole covered) :
    Effect code s code' (t.grow (objects.map some)) := by
  have hobject : ∀ a, t.object? a = s.object? a := by
    intro a
    rw [State.object?, hheap, State.object?]
  refine .keeps hpending (fun a o ho => ?_) (fun a o ho => ?_)
  · rw [← hobject] at ho
    rw [State.object?_grow_of_lt (State.lt_of_object? ho)]
    exact ho
  · rcases State.object?_grow_cases ho with ho | ⟨hle, hslot⟩
    · exact .inl (hobject a ▸ ho)
    · obtain ⟨o', ho', heq⟩ := List.mem_map.1 hslot
      cases heq
      refine .inr ⟨?_, hobjects o ho'⟩
      rw [State.object?, ← hheap, Array.getElem?_eq_none hle]
      rfl

theorem Effect.of_grow_one (t : State) (o : Object) (hpending : (t.grow [some o]).pending = s.pending)
    (hheap : t.heap = s.heap) (ho : ∀ covered, o ≠ .blackhole covered) :
    Effect code s code' (t.grow [some o]) := by
  refine Effect.of_grow t [o] hpending hheap fun o' ho' => ?_
  rw [List.mem_singleton.1 ho']
  exact ho

/-- A transition that leaves the heap and the updates alone. -/
theorem Effect.of_heap_eq (hpending : s'.pending = s.pending) (hheap : s'.heap = s.heap) :
    Effect code s code' s' := by
  have hobject : ∀ a, s'.object? a = s.object? a := by
    intro a
    rw [State.object?, hheap, State.object?]
  exact .keeps hpending (fun a o ho => by rw [hobject]; exact ho) (fun a o ho => .inl (hobject a ▸ ho))

/-- What a right-hand side becomes is no blackhole. -/
theorem Rhs.Builds.ne_blackhole {lookup : Ident → Option Atom} {rhs : Rhs} {name : Ident} {o : Object}
    (h : rhs.Builds lookup name o) : ∀ covered, o ≠ .blackhole covered := by
  cases rhs with
  | con k args =>
      obtain ⟨atoms, -, rfl⟩ := h
      rintro _ ⟨⟩
  | closure freeVars lambda =>
      obtain ⟨env, -, rfl⟩ := h
      rintro _ ⟨⟩

/-- Every transition has one of the three effects. -/
theorem Transition.effect (h : Transition (.standard host) base code s code' s') : Effect code s code' s' := by
  cases h with
  | app => exact .of_heap_eq State.pending_pushArgs State.heap_pushArgs
  | lit | multiVal | case | enterScalar | enterValue => exact .of_heap_eq rfl rfl
  | @conApp _ k _ atoms strings =>
      exact .of_grow_one (s.withStrings strings) (.con k atoms) rfl rfl (fun _ h => (nomatch h))
  | @opApp _ _ _ _ _ _ _ _ strings _ heval =>
      have hans := Registry.standard_evaluate_eq_ok heval
      obtain ⟨-, hstack, -⟩ := hans.frame
      have hpending : s'.pending = s.pending := by
        rw [State.pending, hstack]
        rfl
      rcases hans.object?_cases with hsame | ⟨con, -, -, rfl⟩
      · exact .of_heap_eq hpending hsame
      · exact .of_grow_one (s.withStrings strings) (.con con []) hpending rfl (fun _ h => (nomatch h))
  | @letOne _ x _ _ o strings hbuilds =>
      exact .of_grow_one ((s.withStrings strings).bind x (.ptr s.heap.size)) o rfl rfl hbuilds.ne_blackhole
  | @letGroup _ pairs _ objects strings hbuilds =>
      refine Effect.of_grow ((s.bindAll (references s.heap.size pairs)).withStrings strings) objects rfl rfl
        fun o ho => ?_
      obtain ⟨pair, -, hbuilt⟩ := exists_mem_of_forall₂ hbuilds o ho
      exact hbuilt.ne_blackhole
  | @enterThunk _ p c hfound hthunk =>
      refine .covers rfl hfound hthunk rfl fun a => ?_
      change (s.overwrite p (.blackhole (.closure c))).object? a = _
      rw [State.object?_overwrite]
      by_cases ha : a = p
      · rw [if_pos ⟨ha, State.lt_of_object? hfound⟩, if_pos ha]
      · rw [if_neg (fun h => ha h.1), if_neg ha]
  | @update _ frame rest target result o hpop _ hcont hfound hknown =>
      obtain ⟨hpending, hheap⟩ := State.overwrite_resumed hpop hcont hknown o
      exact .updates hpop hcont rfl rfl hpending hfound hheap
  | @applyPartial _ frame rest args p c hpop _ hcont =>
      refine .of_grow_one (s.resumed frame rest) (.closure (c.supply args)) ?_ rfl (fun _ h => (nomatch h))
      rw [State.pending_of_pop? hpop, hcont]
      rfl
  | @applyFull _ frame rest args p c hpop _ hcont =>
      refine .of_heap_eq ?_ State.heap_pushArgs
      rw [State.pending_of_pop? hpop, hcont]
      exact State.pending_pushArgs
  | @select _ frame rest binder altType alts atoms fields _ alt hpop _ hcont =>
      obtain ⟨env, henv⟩ := State.bindValue_eq (s.resumed frame rest) binder atoms
      rw [henv]
      refine .of_heap_eq ?_ rfl
      rw [State.pending_of_pop? hpop, hcont]
      rfl

end Effect

/-! ## The discipline of update frames -/

/-- No thunk has two pending updates, and each thunk with a pending update is covered. -/
structure State.Disciplined (s : State) : Prop where
  nodup : s.pending.Nodup
  covered : ∀ a ∈ s.pending, s.Blackholed a

/-- A covered thunk without a pending update. Nothing will ever overwrite it. -/
def State.Stuck (s : State) (a : Addr) : Prop := s.Blackholed a ∧ a ∉ s.pending

section Discipline

variable {code code' : Code} {s s' : State}

/-- The discipline is kept. -/
theorem Effect.disciplined (h : Effect code s code' s') (hs : s.Disciplined) : s'.Disciplined := by
  cases h with
  | keeps hpending hold =>
      refine ⟨by rw [hpending]; exact hs.nodup, fun a ha => ?_⟩
      rw [hpending] at ha
      obtain ⟨o, ho⟩ := hs.covered a ha
      exact ⟨o, hold a _ ho⟩
  | @covers p c _ hfound _ hpending hheap =>
      -- The thunk to cover holds a closure, so it has no pending update yet.
      have hfresh : p ∉ s.pending := by
        intro hp
        obtain ⟨o, ho⟩ := hs.covered p hp
        rw [hfound] at ho
        cases ho
      refine ⟨by rw [hpending]; exact hs.nodup.cons hfresh, fun a ha => ?_⟩
      by_cases hap : a = p
      · exact ⟨.closure c, by rw [hheap, if_pos hap]⟩
      · rw [hpending] at ha
        obtain ⟨o, ho⟩ := hs.covered a ((List.mem_cons.1 ha).resolve_left hap)
        exact ⟨o, by rw [hheap, if_neg hap]; exact ho⟩
  | @updates target result o _ _ _ _ _ _ hpending _ hheap =>
      -- The target is not pending twice, so the thunks below it stay covered.
      have hnodup := hs.nodup
      rw [hpending, List.nodup_cons] at hnodup
      refine ⟨hnodup.2, fun a ha => ?_⟩
      have hne : a ≠ target := by
        rintro rfl
        exact hnodup.1 ha
      obtain ⟨covered, ho⟩ := hs.covered a (by rw [hpending]; exact List.mem_cons_of_mem _ ha)
      exact ⟨covered, by rw [hheap, if_neg hne]; exact ho⟩

/-- A stuck thunk stays stuck. -/
theorem Effect.stuck (h : Effect code s code' s') {a : Addr} (hs : s.Stuck a) : s'.Stuck a := by
  obtain ⟨⟨o, ho⟩, hpending⟩ := hs
  cases h with
  | keeps hsame hold => exact ⟨⟨o, hold a _ ho⟩, by rw [hsame]; exact hpending⟩
  | @covers p c _ hfound _ hnext hheap =>
      have hne : a ≠ p := by
        rintro rfl
        rw [ho] at hfound
        cases hfound
      refine ⟨⟨o, by rw [hheap, if_neg hne]; exact ho⟩, ?_⟩
      rw [hnext, List.mem_cons]
      exact fun hmem => hmem.elim hne hpending
  | @updates target result new _ _ _ _ _ _ hnext _ hheap =>
      rw [hnext, List.mem_cons, not_or] at hpending
      exact ⟨⟨o, by rw [hheap, if_neg hpending.1]; exact ho⟩, hpending.2⟩

end Discipline

/-! ## Where blackholes come from -/

/-- The next transition of a snapshot overwrites a thunk with an object, that of the thunk's result. -/
def Snapshot.Updates (d : Snapshot) (a : Addr) (o : Object) : Prop :=
  ∃ frame rest result, d.state.stack.pop? = some (frame, rest) ∧ frame.cont = .update a ∧
    d.code = .ret [.ptr result] ∧ d.state.object? result = some o

/-- The next transition of a snapshot copies a blackhole onto a thunk. -/
def Snapshot.Copies (d : Snapshot) (a : Addr) : Prop := ∃ covered, d.Updates a (.blackhole covered)

section Runs

variable {base : Nat} {start c d : Snapshot} {a : Addr}

/-- With an update frame on top the effect is that of the update. -/
theorem Transition.of_update {code code' : Code} {s s' : State} {atoms : List Atom} {frame : Frame}
    {rest : Stack} (h : Transition (.standard host) base code s code' s') (hcode : code = .ret atoms)
    (hpop : s.stack.pop? = some (frame, rest)) (hcont : frame.cont = .update a) :
    ∃ result o, atoms = [.ptr result] ∧ s.object? result = some o ∧ s.pending = a :: s'.pending ∧
      ∀ b, s'.object? b = if b = a then some o else s.object? b := by
  cases h with
  | app | lit | conApp | multiVal | opApp | case | letOne | letGroup => cases hcode
  | enterScalar | enterValue | enterThunk => cases hcode
  | applyPartial hpop' _ hcont' | applyFull hpop' _ hcont' | select hpop' _ hcont' =>
      rw [hpop] at hpop'
      cases hpop'
      rw [hcont] at hcont'
      cases hcont'
  | @update _ _ _ target result o hpop' _ hcont' hfound hknown =>
      rw [hpop] at hpop'
      cases hpop'
      rw [hcont] at hcont'
      cases hcont'
      cases hcode
      obtain ⟨hpending, hheap⟩ := State.overwrite_resumed hpop hcont hknown o
      exact ⟨result, o, rfl, hfound, hpending, hheap⟩

/-- Where a run gets to, the discipline is kept. -/
theorem Snapshot.Reaches.disciplined (h : Reaches (.standard host) base c d) (hc : c.state.Disciplined) :
    d.state.Disciplined :=
  h.preserves (P := fun d => d.state.Disciplined)
    (fun _ _ hstep hd => hstep.transition.effect.disciplined hd) hc

theorem Snapshot.Reaches.stuck (h : Reaches (.standard host) base c d) (hc : c.state.Stuck a) :
    d.state.Stuck a :=
  h.preserves (P := fun d => d.state.Stuck a) (fun _ _ hstep hd => hstep.transition.effect.stuck hd) hc

/-- A thunk that was overwritten with a blackhole is stuck. -/
theorem Snapshot.Copies.stuck (h : c.Copies a) (hstep : Steps (.standard host) base c d)
    (hc : c.state.Disciplined) : d.state.Stuck a := by
  obtain ⟨covered, frame, rest, result, hpop, hcont, hcode, hcovered⟩ := h
  obtain ⟨result', o, hatoms, hfound, hpending, hheap⟩ := hstep.transition.of_update hcode hpop hcont
  cases hatoms
  rw [hcovered] at hfound
  cases hfound
  have hnodup := hc.nodup
  rw [hpending, List.nodup_cons] at hnodup
  exact ⟨⟨covered, by rw [hheap, if_pos rfl]⟩, hnodup.1⟩

/-- A blackhole of a run has a pending update, was there when the run started, or was copied. -/
theorem Snapshot.Reaches.origin (h : Reaches (.standard host) base start d) (ha : d.state.Blackholed a) :
    a ∈ d.state.pending ∨ start.state.Blackholed a ∨
      ∃ c, Reaches (.standard host) base start c ∧ c.Copies a ∧ Reaches (.standard host) base c d := by
  induction h with
  | refl => exact .inr (.inl ha)
  | @tail b d hbefore hlast ih =>
      -- All but a copy of this step is inherited from the snapshot before.
      have hold : b.state.Blackholed a → (a ∈ b.state.pending → a ∈ d.state.pending) →
          a ∈ d.state.pending ∨ start.state.Blackholed a ∨
            ∃ c, Reaches (.standard host) base start c ∧ c.Copies a ∧ Reaches (.standard host) base c d := by
        intro hb hpending
        rcases ih hb with hmem | hstart | ⟨c, hreach, hcopies, hrest⟩
        · exact .inl (hpending hmem)
        · exact .inr (.inl hstart)
        · exact .inr (.inr ⟨c, hreach, hcopies, hrest.tail hlast⟩)
      obtain ⟨covered, hcovered⟩ := ha
      cases hlast.transition.effect with
      | keeps hsame _ hnew =>
          rcases hnew a _ hcovered with hb | ⟨-, hno⟩
          · exact hold ⟨covered, hb⟩ (by rw [hsame]; exact id)
          · exact absurd rfl (hno covered)
      | @covers p c _ _ _ hnext hheap =>
          by_cases hap : a = p
          · rw [hnext, hap]
            exact .inl List.mem_cons_self
          · rw [hheap, if_neg hap] at hcovered
            exact hold ⟨covered, hcovered⟩ (by rw [hnext]; exact List.mem_cons_of_mem _)
      | @updates target result o frame rest hpop hcont hcode _ hnext hfound hheap =>
          -- The object that is stored is the blackhole itself: this is a copy.
          by_cases hat : a = target
          · subst hat
            rw [hheap, if_pos rfl] at hcovered
            cases hcovered
            have hcopies : b.Copies a := ⟨covered, frame, rest, result, hpop, hcont, hcode, hfound⟩
            exact .inr (.inr ⟨b, hbefore, hcopies, .single hlast⟩)
          · rw [hheap, if_neg hat] at hcovered
            refine hold ⟨covered, hcovered⟩ ?_
            rw [hnext, List.mem_cons]
            exact fun hmem => hmem.resolve_left hat

/-- Entering a blackhole needs a blackhole. -/
theorem Failure.blackholed_of_cause {code : Code} {s s' : State} {e : Fault}
    (h : Failure (.standard host) base code s e s') (hcause : e.cause = .blackholeEntered a) :
    code = .enter (.ptr a) ∧ s.Blackholed a := by
  cases h with
  | blackholed hfound =>
      cases hcause
      exact ⟨rfl, _, hfound⟩
  | unbound | unboundMember | overflow | dangling | covered => cases hcause
  | operation _ heval =>
      obtain ⟨-, -, hrefused | hunknown⟩ := Registry.standard_evaluate_eq_error heval
      · rw [hcause] at hrefused
        cases hrefused
      · rw [hcause] at hunknown
        cases hunknown
  | @rejected _ frame _ _ _ _ _ _ hwhy =>
      generalize frame.cont = cont at hwhy
      cases hwhy with
      | notAReference | unknownTarget | dangling | notAFunction => cases hcause
      | overflow | notAConstructor | noMatch => cases hcause

end Runs

/-! ## Sessions -/

section Session

variable {config : Config} {events : List Event} {m : Machine} {command : Command} {start d : Snapshot}
  {e : Fault} {t : State} {a : Addr}

/-- A run of a session starts with the heap that the calls before left. -/
theorem Command.object?_of_start? (hstart : command.start? m = some start) :
    start.state.object? a = m.state.object? a := by
  cases command with
  | load p => cases hstart
  | runEntry =>
      obtain ⟨entry, b, -, -, rfl⟩ := Command.start?_runEntry hstart
      rfl
  | eval name env e => cases hstart; rfl
  | force b => cases hstart; rfl

/-- When a blackhole is entered, the thunk under it is under evaluation, exactly unless it was already
covered when the call began or its own update in this call copied a blackhole onto it. -/
theorem Session.update_pending_iff (hsession : Session config events m)
    (hstart : command.start? m = some start)
    (hreach : Reaches m.registry m.state.stack.depth start d)
    (hfails : step m.registry m.state.stack.depth d.code d.state = .error e t)
    (hcause : e.cause = .blackholeEntered a) :
    (∃ f ∈ d.state.stack.frames, f.cont = .update a) ↔
      ¬ (m.state.Blackholed a ∨ ∃ c, Reaches m.registry m.state.stack.depth start c ∧ c.Copies a ∧
        Reaches m.registry m.state.stack.depth c d) := by
  have hidle := hsession.idle
  obtain ⟨host, hregistry⟩ := hidle.registry
  rw [hregistry] at hreach hfails ⊢
  have hempty : start.state.pending = [] := by
    rw [State.pending, Command.frames_of_start? hidle hstart]
    rfl
  have hdisciplined : start.state.Disciplined := by
    refine ⟨?_, ?_⟩
    · rw [hempty]
      exact List.nodup_nil
    · rw [hempty]
      exact fun _ hmem => absurd hmem List.not_mem_nil
  have hobject : ∀ b, start.state.Blackholed b ↔ m.state.Blackholed b := by
    intro b
    rw [State.Blackholed, Command.object?_of_start? hstart, State.Blackholed]
  obtain ⟨hcode, hcovered⟩ := (step_eq_error hfails).blackholed_of_cause hcause
  rw [← State.mem_pending_iff]
  constructor
  · rintro hpending (hbefore | ⟨c, hc, hcopies, hcd⟩)
    · have hstuck : start.state.Stuck a := ⟨(hobject a).2 hbefore, by rw [hempty]; exact List.not_mem_nil⟩
      exact (hreach.stuck hstuck).2 hpending
    · -- The copy was made by a transition before this one, because this one returns nothing.
      rcases Relation.ReflTransGen.cases_head hcd with rfl | ⟨c', hstep, hrest⟩
      · obtain ⟨_, _, _, result, _, _, hret, _⟩ := hcopies
        rw [hcode] at hret
        cases hret
      · have hstuck := hcopies.stuck hstep (hc.disciplined hdisciplined)
        exact (Snapshot.Reaches.stuck hrest hstuck).2 hpending
  · intro hnot
    rcases hreach.origin hcovered with hpending | hbefore | hcopied
    · exact hpending
    · exact absurd (.inl ((hobject a).1 hbefore)) hnot
    · exact absurd (.inr hcopied) hnot

end Session

/-- A program whose entry is a thunk with the given code. -/
def entryThunk (body : Expr) : Program :=
  ⟨[.nonRec (.ofName "main") (.closure [] ⟨[], body⟩)], .ofName "main"⟩

/-- An entry that needs its own value is found under evaluation. -/
theorem Session.update_pending_iff_ofSelf :
    ∃ events m start d e t, Session {} events m ∧ Command.runEntry.start? m = some start ∧
      Reaches m.registry m.state.stack.depth start d ∧
      step m.registry m.state.stack.depth d.code d.state = .error e t ∧ e.cause = .blackholeEntered 0 ∧
      (∃ f ∈ d.state.stack.frames, f.cont = .update 0) ∧
      ¬ (m.state.Blackholed 0 ∨ ∃ c, Reaches m.registry m.state.stack.depth start c ∧ c.Copies 0 ∧
        Reaches m.registry m.state.stack.depth c d) := by
  have hplayed : (Session.play {} 10 [.load (entryThunk (.app (.ofName "main") []))]).any (fun result =>
      (Command.runEntry.start? result.2).any fun start =>
        (start.next? result.2.registry result.2.state.stack.depth).any fun c =>
          (c.next? result.2.registry result.2.state.stack.depth).any fun d =>
            match step result.2.registry result.2.state.stack.depth d.code d.state with
            | .error ⟨.blackholeEntered 0, _⟩ _ =>
                d.state.stack.frames.any fun f => f.cont.target? == some 0
            | _ => false) := by
    decide +kernel
  obtain ⟨⟨events, m⟩, hplay, h⟩ := (Option.any_eq_true _ _).1 hplayed
  obtain ⟨start, hstart, h⟩ := (Option.any_eq_true _ _).1 h
  obtain ⟨c, hc, h⟩ := (Option.any_eq_true _ _).1 h
  obtain ⟨d, hd, h⟩ := (Option.any_eq_true _ _).1 h
  have hreach : Reaches m.registry m.state.stack.depth start d :=
    .tail (.single (steps_of_next? hc)) (steps_of_next? hd)
  split at h
  · next trace t hfails =>
    obtain ⟨f, hf, htarget⟩ := List.any_eq_true.1 h
    have hpending : ∃ f ∈ d.state.stack.frames, f.cont = .update 0 :=
      ⟨f, hf, Continuation.target?_eq_some (by simpa using htarget)⟩
    have hsession := Session.of_play hplay
    exact ⟨events, m, start, d, _, t, hsession, hstart, hreach, hfails, rfl, hpending,
      (Session.update_pending_iff hsession hstart hreach hfails rfl).1 hpending⟩
  · cases h

/-- Entering a blackhole does not show that an update is pending: a run that ends for lack of steps
leaves its entry covered, and the next run enters the blackhole with nothing on the stack. -/
theorem Session.blackhole_without_update :
    ¬ ∀ config events m command start d e t a, Session config events m →
      Command.start? m command = some start → Reaches m.registry m.state.stack.depth start d →
      step m.registry m.state.stack.depth d.code d.state = .error e t →
      e.cause = .blackholeEntered a → ∃ f ∈ d.state.stack.frames, f.cont = .update a := by
  intro hclaim
  let unit : DataCon := ⟨"()", 1, 0⟩
  have hplayed : (Session.play { maxSteps := some 1 } 10
      [.runEntry, .load (entryThunk (.conApp unit []))]).any (fun result =>
        (Command.runEntry.start? result.2).any fun start =>
          match step result.2.registry result.2.state.stack.depth start.code start.state with
          | .error ⟨.blackholeEntered _, _⟩ _ => true
          | _ => false) := by
    decide +kernel
  obtain ⟨⟨events, m⟩, hplay, h⟩ := (Option.any_eq_true _ _).1 hplayed
  obtain ⟨start, hstart, h⟩ := (Option.any_eq_true _ _).1 h
  have hsession := Session.of_play hplay
  split at h
  · next a trace t hfails =>
    obtain ⟨f, hf, -⟩ := hclaim _ events m .runEntry start start _ t a hsession hstart .refl hfails rfl
    rw [Command.frames_of_start? hsession.idle hstart] at hf
    cases hf
  · cases h

end Spineless
