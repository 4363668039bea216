import Spineless.Proofs.Blackhole
import Spineless.Proofs.Reentrancy
import Spineless.Proofs.Timeline

/-!
# The life of a heap object

`Moment.Rewrites` says once what an event of a session can do to the heap: append slots, cover a thunk with
a blackhole, or overwrite the target of an update frame. Storing an object checks nothing but that its
address was handed out; that the target of an update holds a blackhole follows from the discipline of
update frames, which every event keeps (`Moment.Orderly`). Blackholes that a failed run left behind are not
pending any more, so they cannot break it.

Hence `Session.update_frames_disciplined` and `Session.heap_lifecycle`: thunks become blackholes,
blackholes become what their update found, and values stay.
-/

namespace Spineless

open Snapshot Moment

variable {host : Host}

/-! ## Growing heaps -/

/-- The heap has more slots behind its end, and none of them holds a blackhole. -/
def State.Extends (s t : State) : Prop :=
  ∃ slots : List (Option Object), (∀ o, some o ∈ slots → ∀ covered, o ≠ .blackhole covered) ∧
    t.heap = (s.grow slots).heap

section Extends

variable {s t : State} {a : Addr} {o : Object}

theorem State.object?_congr (h : s.heap = t.heap) (a : Addr) : s.object? a = t.object? a := by
  rw [State.object?, h, State.object?]

/-- The objects after one of them was overwritten. -/
theorem State.object?_of_overwritten (hknown : a < s.heap.size)
    (hheap : t.heap = (s.overwrite a o).heap) (b : Addr) :
    t.object? b = if b = a then some o else s.object? b := by
  rw [State.object?_congr hheap, State.object?_overwrite]
  by_cases hb : b = a
  · rw [if_pos ⟨hb, hknown⟩, if_pos hb]
  · rw [if_neg (fun h => hb h.1), if_neg hb]

theorem State.heap_size_overwrite : (s.overwrite a o).heap.size = s.heap.size :=
  Array.size_setIfInBounds

theorem State.Extends.of_heap_eq (h : t.heap = s.heap) : s.Extends t :=
  ⟨[], fun _ ho => absurd ho List.not_mem_nil, by rw [h, State.grow_nil]⟩

theorem State.Extends.of_grow {slots : List (Option Object)} (h : t.heap = s.heap)
    (hslots : ∀ o, some o ∈ slots → ∀ covered, o ≠ .blackhole covered) : s.Extends (t.grow slots) := by
  refine ⟨slots, hslots, ?_⟩
  unfold State.grow
  rw [h]

theorem State.Extends.of_grow_one (h : t.heap = s.heap) (ho : ∀ covered, o ≠ .blackhole covered) :
    s.Extends (t.grow [some o]) := by
  refine .of_grow h fun o' ho' => ?_
  cases List.mem_singleton.1 ho'
  exact ho

theorem State.Extends.size_le (h : s.Extends t) : s.heap.size ≤ t.heap.size := by
  obtain ⟨slots, -, hheap⟩ := h
  rw [hheap, State.heap_size_grow]
  omega

/-- The objects that were there stay. -/
theorem State.Extends.object? (h : s.Extends t) (ho : s.object? a = some o) : t.object? a = some o := by
  obtain ⟨slots, -, hheap⟩ := h
  rw [State.object?_congr hheap, State.object?_grow_of_lt (State.lt_of_object? ho)]
  exact ho

/-- An object was there before, or is behind the end and no blackhole. -/
theorem State.Extends.object?_cases (h : s.Extends t) (ho : t.object? a = some o) :
    s.object? a = some o ∨ s.heap.size ≤ a ∧ ∀ covered, o ≠ .blackhole covered := by
  obtain ⟨slots, hslots, hheap⟩ := h
  rw [State.object?_congr hheap] at ho
  rcases State.object?_grow_cases ho with ho | ⟨hle, ho⟩
  · exact .inl ho
  · exact .inr ⟨hle, hslots o ho⟩

/-- The slots of a group, in part or as a whole, hold no blackhole. -/
theorem ne_blackhole_of_built {lookup : Ident × Rhs → Ident → Option Atom} {pairs : List (Ident × Rhs)}
    {objects : List Object} (hbuilds : List.Forall₂ (fun pair o => pair.2.Builds (lookup pair) pair.1 o)
      pairs objects) (n : Nat) :
    ∀ o, some o ∈ objects.map some ++ List.replicate n none → ∀ covered, o ≠ .blackhole covered := by
  intro o ho
  rcases List.mem_append.1 ho with ho | ho
  · obtain ⟨o', ho', heq⟩ := List.mem_map.1 ho
    cases heq
    obtain ⟨pair, -, hbuilt⟩ := exists_mem_of_forall₂ hbuilds o ho'
    exact hbuilt.ne_blackhole
  · cases List.eq_of_mem_replicate ho

/-- Loading a program, or failing to, appends slots. -/
theorem Called.extends {m m' : Machine} {p : Program} {reply : Reply} (h : Called m (.load p) reply m') :
    m.state.Extends m'.state := by
  cases h with
  | loaded hallocates =>
      obtain ⟨strings, objects, hbuilds, rfl⟩ := Exec.allocateGlobals_eq_ok hallocates
      refine ⟨objects.map some, ?_, rfl⟩
      have hslots := ne_blackhole_of_built hbuilds 0
      rw [List.replicate_zero, List.append_nil] at hslots
      exact hslots
  | notLoaded hfails =>
      obtain ⟨strings, done, x, rhs, rest, objects, -, hbuilds, rfl, -⟩ := Exec.allocateGlobals_eq_error hfails
      exact ⟨_, ne_blackhole_of_built hbuilds (rest.length + 1), rfl⟩
  | returned hstart | failed hstart | exhausted hstart => cases hstart

end Extends

/-! ## What a transition does to the heap -/

section Transitions

variable {base : Nat} {code code' : Code} {s t : State} {e : Fault} {a : Addr}

/-- A transition appends slots, covers a thunk, or overwrites the target of an update frame. -/
theorem Transition.heap_cases (h : Transition (.standard host) base code s code' t) :
    s.Extends t ∨
    (∃ p c, s.object? p = some (.closure c) ∧ c.missing = 0 ∧
      t.heap = (s.overwrite p (.blackhole (.closure c))).heap) ∨
    ∃ target o, Snapshot.Updates ⟨code, s⟩ target o ∧ target < s.heap.size ∧
      t.heap = (s.overwrite target o).heap := by
  cases h with
  | app => exact .inl (.of_heap_eq State.heap_pushArgs)
  | lit | multiVal | case | enterScalar | enterValue => exact .inl (.of_heap_eq rfl)
  | conApp => exact .inl (.of_grow_one rfl fun _ h => (nomatch h))
  | @opApp _ _ _ _ _ _ _ _ strings _ heval =>
      rcases (Registry.standard_evaluate_eq_ok heval).object?_cases with hsame | ⟨con, -, -, rfl⟩
      · exact .inl (.of_heap_eq hsame)
      · exact .inl (.of_grow_one rfl fun _ h => (nomatch h))
  | @letOne _ x _ _ o strings hbuilds =>
      exact .inl (.of_grow_one (t := (s.withStrings strings).bind x (.ptr s.heap.size)) rfl hbuilds.ne_blackhole)
  | letGroup hbuilds =>
      have hslots := ne_blackhole_of_built hbuilds 0
      rw [List.replicate_zero, List.append_nil] at hslots
      exact .inl (.of_grow rfl hslots)
  | @enterThunk _ p c hfound hthunk => exact .inr (.inl ⟨p, c, hfound, hthunk, rfl⟩)
  | @update _ frame rest target result o hpop _ hcont hfound hknown =>
      exact .inr (.inr ⟨target, o, ⟨frame, rest, result, hpop, hcont, rfl, hfound⟩, hknown, rfl⟩)
  | applyPartial => exact .inl (.of_grow_one rfl fun _ h => (nomatch h))
  | applyFull => exact .inl (.of_heap_eq State.heap_pushArgs)
  | @select _ frame rest binder _ _ atoms =>
      obtain ⟨env, henv⟩ := State.bindValue_eq (s.resumed frame rest) binder atoms
      rw [henv]
      exact .inl (.of_heap_eq rfl)

/-- A transition that fails appends slots or covers a thunk. -/
theorem Failure.heap_cases (h : Failure (.standard host) base code s e t) :
    s.Extends t ∨ ∃ p c, s.object? p = some (.closure c) ∧ c.missing = 0 ∧
      t.heap = (s.overwrite p (.blackhole (.closure c))).heap := by
  cases h with
  | unbound | overflow | dangling | blackholed | rejected => exact .inl (.of_heap_eq rfl)
  | @unboundMember _ done rest _ _ _ objects _ _ _ _ hbuilds =>
      exact .inl ⟨_, ne_blackhole_of_built hbuilds (rest.length + 1), rfl⟩
  | operation _ heval =>
      obtain ⟨rfl, -⟩ := Registry.standard_evaluate_eq_error heval
      exact .inl (.of_heap_eq rfl)
  | @covered _ p c hfound hthunk => exact .inr ⟨p, c, hfound, hthunk, rfl⟩

/-- A transition that fails makes no update pending. -/
theorem Failure.pending_suffix (h : Failure (.standard host) base code s e t) : t.pending <:+ s.pending := by
  cases h with
  | unbound | unboundMember | overflow | dangling | blackholed | covered => exact List.suffix_rfl
  | operation _ heval =>
      obtain ⟨rfl, -⟩ := Registry.standard_evaluate_eq_error heval
      exact List.suffix_rfl
  | rejected hpop =>
      rw [State.pending_of_pop? hpop]
      exact List.suffix_append _ _

/-- The discipline is kept by a transition that fails. -/
theorem Failure.disciplined (h : Failure (.standard host) base code s e t) (hs : s.Disciplined) :
    t.Disciplined := by
  have hsuffix := h.pending_suffix
  refine ⟨hs.nodup.sublist hsuffix.sublist, fun a ha => ?_⟩
  obtain ⟨covered, hcovered⟩ := hs.covered a (hsuffix.subset ha)
  rcases h.heap_cases with hextends | ⟨p, c, hfound, -, hheap⟩
  · exact ⟨covered, hextends.object? hcovered⟩
  · have hobject := State.object?_of_overwritten (State.lt_of_object? hfound) hheap a
    by_cases hap : a = p
    · exact ⟨.closure c, by rw [hobject, if_pos hap]⟩
    · exact ⟨covered, by rw [hobject, if_neg hap]; exact hcovered⟩

end Transitions

/-! ## What an event does to the heap -/

/-- What an event of a session does to the heap. -/
inductive Moment.Rewrites (μ ν : Moment) : Prop
  /-- Slots are appended. -/
  | grows (more : μ.state.Extends ν.state)
  /-- A thunk is covered. -/
  | covers {p : Addr} {c : Closure} (found : μ.state.object? p = some (.closure c)) (thunk : c.missing = 0)
      (heap : ν.state.heap = (μ.state.overwrite p (.blackhole (.closure c))).heap)
  /-- The target of an update frame is overwritten with the object behind the returned reference. -/
  | updates {m : Machine} {n : Nat} {d : Snapshot} {target : Addr} {o : Object} (running : μ = .running m n d)
      (updates : d.Updates target o) (known : target < μ.state.heap.size)
      (heap : ν.state.heap = (μ.state.overwrite target o).heap)

section Rewrites

variable {config : Config} {μ ν : Moment}

/-- A program that is loaded, or not, is a call that appends slots. -/
theorem Moment.extends_of_load {m m' : Machine} {p : Program} {outcome : Outcome Machine Unit}
    (hload : Machine.load p m = outcome) (hm' : (Reply.ofOutcome (fun _ => []) outcome).2 = m') :
    m.state.Extends m'.state := by
  have hperforms : (Command.load p).perform 0 m =
      some ((Reply.ofOutcome (fun _ => []) outcome).1, m') := by
    rw [Command.perform, hload, ← hm']
  exact (Command.perform_load hperforms).extends

/-- Every event does one of these things to the heap. -/
theorem Moment.Next.rewrites (h : Next μ ν) (hidle : Idle config μ.machine) : Rewrites μ ν := by
  cases h with
  | loaded hload => exact .grows (extends_of_load hload rfl)
  | notLoaded hload => exact .grows (extends_of_load hload rfl)
  | @starts m command start hstart =>
      obtain ⟨name, env, hstate⟩ := Command.exists_scope_of_start? hstart
      refine .grows (.of_heap_eq ?_)
      change start.state.heap = m.state.heap
      rw [hstate]
      rfl
  | @steps m n c d _ hstep =>
      obtain ⟨_, htransition⟩ := hidle.transition hstep
      rcases htransition.heap_cases with
        hextends | ⟨p, c, hfound, hthunk, hheap⟩ | ⟨target, o, hupdates, hknown, hheap⟩
      · exact .grows hextends
      · exact .covers hfound hthunk hheap
      · exact .updates rfl hupdates hknown hheap
  | @fails m n d e t _ hstep =>
      obtain ⟨_, hfailure⟩ := hidle.failure hstep
      rcases hfailure.heap_cases with hextends | ⟨p, c, hfound, hthunk, hheap⟩
      · exact .grows hextends
      · exact .covers hfound hthunk hheap
  | returns | exhausted | unwinds => exact .grows (.of_heap_eq rfl)

/-- The heap never shrinks. -/
theorem Moment.Rewrites.nextAddr_le (h : Rewrites μ ν) :
    μ.state.stats.nextAddr ≤ ν.state.stats.nextAddr := by
  change μ.state.heap.size ≤ ν.state.heap.size
  cases h with
  | grows hextends => exact hextends.size_le
  | covers _ _ hheap => exact Nat.le_of_eq (by rw [hheap, State.heap_size_overwrite])
  | updates _ _ _ hheap => exact Nat.le_of_eq (by rw [hheap, State.heap_size_overwrite])

end Rewrites

/-! ## The discipline of a session -/

/-- Every blackhole covers a thunk. -/
def State.CoversThunks (s : State) : Prop :=
  ∀ a covered, s.object? a = some (.blackhole covered) → ∃ c, covered = .closure c ∧ c.missing = 0

/-- What holds at every moment of a session: its machine is idle between calls, its update frames are
disciplined, and its blackholes cover thunks. -/
structure Moment.Orderly (config : Config) (μ : Moment) : Prop where
  idle : Idle config μ.machine
  disciplined : μ.state.Disciplined
  thunks : μ.state.CoversThunks

section Orderly

variable {config : Config} {events : List Event} {m : Machine} {μ ν : Moment} {a : Addr} {o : Object}

/-- Without frames there is nothing to discipline. -/
theorem State.Disciplined.of_frames_eq_nil {s : State} (h : s.stack.frames = []) : s.Disciplined := by
  have hpending : s.pending = [] := by
    rw [State.pending, h]
    rfl
  refine ⟨?_, ?_⟩
  · rw [hpending]
    exact List.nodup_nil
  · rw [hpending]
    exact fun _ hmem => absurd hmem List.not_mem_nil

theorem Moment.Next.disciplined (h : Next μ ν) (hidle : Idle config μ.machine)
    (hμ : μ.state.Disciplined) : ν.state.Disciplined := by
  have hidle' := h.idle hidle
  cases h with
  | loaded | notLoaded | returns | unwinds => exact .of_frames_eq_nil hidle'.frames
  | starts hstart => exact .of_frames_eq_nil (Command.frames_of_start? hidle hstart)
  | steps _ hstep =>
      obtain ⟨_, htransition⟩ := hidle.transition hstep
      exact htransition.effect.disciplined hμ
  | fails _ hstep =>
      obtain ⟨_, hfailure⟩ := hidle.failure hstep
      exact hfailure.disciplined hμ
  | exhausted => exact hμ

/-- An event leaves every blackhole over a thunk: a new one covers a thunk, and a copy covers the same
thunk as the one it was copied from. -/
theorem Moment.Rewrites.thunks (h : Rewrites μ ν) (hμ : μ.state.CoversThunks) : ν.state.CoversThunks := by
  intro a covered hcovered
  cases h with
  | grows hextends =>
      rcases hextends.object?_cases hcovered with hold | ⟨-, hno⟩
      · exact hμ a covered hold
      · exact absurd rfl (hno covered)
  | @covers p c hfound hthunk hheap =>
      rw [State.object?_of_overwritten (State.lt_of_object? hfound) hheap] at hcovered
      by_cases hap : a = p
      · rw [if_pos hap] at hcovered
        cases hcovered
        exact ⟨c, rfl, hthunk⟩
      · rw [if_neg hap] at hcovered
        exact hμ a covered hcovered
  | @updates m n d target o hrunning hupdates hknown hheap =>
      rw [State.object?_of_overwritten hknown hheap] at hcovered
      by_cases hat : a = target
      · rw [if_pos hat] at hcovered
        cases hcovered
        obtain ⟨_, _, result, _, _, _, hfound⟩ := hupdates
        rw [hrunning] at hμ
        exact hμ result covered hfound
      · rw [if_neg hat] at hcovered
        exact hμ a covered hcovered

theorem Moment.Next.orderly (h : Next μ ν) (hμ : Orderly config μ) : Orderly config ν :=
  ⟨h.idle hμ.idle, h.disciplined hμ.idle hμ.disciplined, (h.rewrites hμ.idle).thunks hμ.thunks⟩

theorem Moment.Later.orderly (h : Later μ ν) (hμ : Orderly config μ) : Orderly config ν := by
  induction h with
  | refl => exact hμ
  | tail _ hnext ih => exact hnext.orderly ih

/-- Every moment of a session is orderly. -/
theorem Session.orderly (hsession : Session config events m) (hlater : Later (.idle m) μ) :
    Orderly config μ := by
  obtain ⟨host, hsince⟩ := hsession.later
  have hfresh : Orderly config (.idle (.new config host)) := by
    refine ⟨(Session.fresh host).idle, .of_frames_eq_nil rfl, fun a covered hcovered => ?_⟩
    cases hcovered
  exact Moment.Later.orderly (hsince.trans hlater) hfresh

/-- The discipline of update frames, at every moment of a session: no two frames have the same target, each
target holds a blackhole, and each blackhole covers a thunk and nothing else. So when a thunk is updated, no
other update of it is pending. -/
theorem Session.update_frames_disciplined (hsession : Session config events m)
    (hlater : Later (.idle m) μ) :
    μ.state.pending.Nodup ∧
    (∀ a ∈ μ.state.pending, ∃ covered, μ.state.object? a = some (.blackhole covered)) ∧
    (∀ a covered, μ.state.object? a = some (.blackhole covered) →
      ∃ c, covered = .closure c ∧ c.missing = 0) ∧
    ∀ m₀ n n' d d' a o, μ = .running m₀ n d → d.Updates a o → Moment.Next μ (.running m₀ n' d') →
      a ∉ d'.state.pending := by
  have horderly := hsession.orderly hlater
  refine ⟨horderly.disciplined.nodup, horderly.disciplined.covered, horderly.thunks, ?_⟩
  rintro m₀ n n' d d' a o rfl ⟨frame, rest, result, hpop, hcont, hcode, -⟩ hnext
  have hnodup : d.state.pending.Nodup := horderly.disciplined.nodup
  cases hnext with
  | steps _ hstep =>
      obtain ⟨_, htransition⟩ := horderly.idle.transition hstep
      obtain ⟨-, -, -, -, hpending, -⟩ := htransition.of_update hcode hpop hcont
      rw [hpending, List.nodup_cons] at hnodup
      exact hnodup.1

end Orderly

/-- A program whose entry needs another thunk. -/
def entryNeeds (needed : Expr) : Program :=
  ⟨[.group [(.ofName "main", .closure [] ⟨[], .app (.ofName "needed") []⟩),
    (.ofName "needed", .closure [] ⟨[], needed⟩)]], .ofName "main"⟩

/-- Two thunks that are both under evaluation. -/
theorem Session.update_frames_disciplined_bothNeeded :
    ∃ events m μ, Session {} events m ∧ Later (.idle m) μ ∧ μ.state.pending = [1, 0] ∧
      μ.state.pending.Nodup ∧
      ∀ a ∈ μ.state.pending, ∃ covered, μ.state.object? a = some (.blackhole covered) := by
  have hplayed : (Session.play {} 10 [.load (entryNeeds (.conApp ⟨"()", 1, 0⟩ []))]).any (fun result =>
      (Command.runEntry.start? result.2).any fun start =>
        (after? result.2.registry result.2.state.stack.depth 3 start).any fun d =>
          d.state.pending == [1, 0]) := by
    decide +kernel
  obtain ⟨⟨events, m⟩, hplay, h⟩ := (Option.any_eq_true _ _).1 hplayed
  obtain ⟨start, hstart, h⟩ := (Option.any_eq_true _ _).1 h
  obtain ⟨d, hd, h⟩ := (Option.any_eq_true _ _).1 h
  have hsession := Session.of_play hplay
  have hbudget : m.config.maxSteps = none := congrArg Config.maxSteps hsession.idle.config
  obtain ⟨n, hrun⟩ := later_of_reaches hbudget (reaches_of_after? hd) _
  have hlater : Later (.idle m) (.running m n d) := .head (.starts hstart) hrun
  obtain ⟨hnodup, hcovered, -, -⟩ := Session.update_frames_disciplined hsession hlater
  exact ⟨events, m, _, hsession, hlater, beq_iff_eq.1 h, hnodup, hcovered⟩

/-! ## The life of an object -/

/-- Addresses are handed out, one or, for a group, one for each member. -/
inductive State.HandsOut (s : State) : List Addr → State → Prop
  /-- An address without an object. -/
  | reserve {a : Addr} {t : State} (reserves : Exec.reserve s = .ok a t) : HandsOut s [a] t
  /-- The address of a new object. -/
  | allocate {o : Object} {a : Addr} {t : State} (allocates : Exec.allocate o s = .ok a t) : HandsOut s [a] t
  /-- The addresses of a recursive group. -/
  | group {pairs : List (Ident × Rhs)} {members : List (Addr × Ident × Rhs)} {t : State}
      (declares : Exec.declare (fun x a s => s.bind x a) pairs s = .ok members t) :
      HandsOut s (members.map Prod.fst) t
  /-- The addresses of the top-level variables of a program. -/
  | globals {pairs : List (Ident × Rhs)} {members : List (Addr × Ident × Rhs)} {t : State}
      (declares : Exec.declare (fun x a s => s.bindGlobal x a) pairs s = .ok members t) :
      HandsOut s (members.map Prod.fst) t

theorem map_fst_numbered (start : Addr) (pairs : List (Ident × Rhs)) :
    (numbered start pairs).map Prod.fst = List.range' start pairs.length := by
  induction pairs generalizing start with
  | nil => rfl
  | cons pair rest ih => rw [numbered, List.map_cons, ih, List.length_cons, List.range'_succ]

/-- The addresses that are handed out are the next ones, in order. -/
theorem State.HandsOut.eq_range' {s t : State} {addrs : List Addr} (h : s.HandsOut addrs t) :
    addrs = List.range' s.stats.nextAddr addrs.length ∧
      t.stats.nextAddr = s.stats.nextAddr + addrs.length := by
  -- A group takes one address for each of its members.
  have hgroup : ∀ (pairs : List (Ident × Rhs)) (u : State), u.heap.size = s.heap.size →
      (numbered s.heap.size pairs).map Prod.fst =
          List.range' s.heap.size ((numbered s.heap.size pairs).map Prod.fst).length ∧
        (u.grow (List.replicate pairs.length none)).heap.size =
          s.heap.size + ((numbered s.heap.size pairs).map Prod.fst).length := by
    intro pairs u hu
    rw [map_fst_numbered, List.length_range', State.heap_size_grow, List.length_replicate, hu]
    exact ⟨rfl, rfl⟩
  cases h with
  | reserve hreserves =>
      rw [Exec.reserve_apply] at hreserves
      cases hreserves
      exact ⟨rfl, State.heap_size_grow⟩
  | allocate hallocates =>
      rw [Exec.allocate_apply] at hallocates
      cases hallocates
      exact ⟨rfl, State.heap_size_grow⟩
  | group hdeclares =>
      rw [Exec.declare_local] at hdeclares
      cases hdeclares
      exact hgroup _ _ rfl
  | globals hdeclares =>
      rw [Exec.declare_global] at hdeclares
      cases hdeclares
      exact hgroup _ _ rfl

/-- What an event does to an object. -/
inductive Moment.Change (μ ν : Moment) (a : Addr) (o : Object) : Prop
  /-- It stays. -/
  | kept (object : ν.state.object? a = some o)
  /-- A thunk is covered with a blackhole. -/
  | covered {c : Closure} (thunk : o = .closure c) (saturated : c.missing = 0)
      (object : ν.state.object? a = some (.blackhole (.closure c)))
  /-- A blackhole is overwritten by the update frame that targets it, with the object behind the returned
  reference. -/
  | updated {m : Machine} {n : Nat} {d : Snapshot} {under new : Object} (blackhole : o = .blackhole under)
      (running : μ = .running m n d) (updates : d.Updates a new) (object : ν.state.object? a = some new)

section Life

variable {config : Config} {events : List Event} {m : Machine} {μ ν : Moment} {a : Addr} {o : Object}

/-- The target of an update holds a blackhole, because the update is pending. -/
theorem Moment.Orderly.blackholed_of_updates {n : Nat} {d : Snapshot} (hμ : Orderly config μ)
    (hrunning : μ = .running m n d) (hupdates : d.Updates a o) : μ.state.Blackholed a := by
  obtain ⟨frame, rest, -, hpop, hcont, -⟩ := hupdates
  refine hμ.disciplined.covered a ?_
  rw [hrunning]
  change a ∈ d.state.pending
  rw [State.pending_of_pop? hpop, hcont]
  exact List.mem_cons_self

/-- The only changes are those of the life of a thunk. -/
theorem Moment.Next.change (h : Next μ ν) (hμ : Orderly config μ) (ho : μ.state.object? a = some o) :
    Change μ ν a o := by
  cases h.rewrites hμ.idle with
  | grows hextends => exact .kept (hextends.object? ho)
  | @covers p c hfound hthunk hheap =>
      have hobject := State.object?_of_overwritten (State.lt_of_object? hfound) hheap a
      by_cases hap : a = p
      · subst hap
        rw [hfound] at ho
        cases ho
        exact .covered rfl hthunk (by rw [hobject, if_pos rfl])
      · exact .kept (by rw [hobject, if_neg hap]; exact ho)
  | @updates m n d target new hrunning hupdates hknown hheap =>
      have hobject := State.object?_of_overwritten hknown hheap a
      by_cases hat : a = target
      · subst hat
        obtain ⟨under, hunder⟩ := hμ.blackholed_of_updates hrunning hupdates
        rw [hunder] at ho
        cases ho
        exact .updated rfl hrunning hupdates (by rw [hobject, if_pos rfl])
      · exact .kept (by rw [hobject, if_neg hat]; exact ho)

/-- An address is filled for the first time by the event that hands it out. -/
theorem Moment.Next.nextAddr_le_of_fresh (h : Next μ ν) (hμ : Orderly config μ)
    (hempty : μ.state.object? a = none) (ho : ν.state.object? a = some o) :
    μ.state.stats.nextAddr ≤ a := by
  cases h.rewrites hμ.idle with
  | grows hextends =>
      rcases hextends.object?_cases ho with hold | ⟨hle, -⟩
      · rw [hempty] at hold
        cases hold
      · exact hle
  | @covers p c hfound _ hheap =>
      rw [State.object?_of_overwritten (State.lt_of_object? hfound) hheap] at ho
      by_cases hap : a = p
      · rw [hap, hfound] at hempty
        cases hempty
      · rw [if_neg hap, hempty] at ho
        cases ho
  | @updates m n d target new hrunning hupdates hknown hheap =>
      rw [State.object?_of_overwritten hknown hheap] at ho
      by_cases hat : a = target
      · obtain ⟨under, hunder⟩ := hμ.blackholed_of_updates hrunning hupdates
        rw [← hat, hempty] at hunder
        cases hunder
      · rw [if_neg hat, hempty] at ho
        cases ho

/-- An object that changes is no value, and another takes its place. -/
theorem Moment.Change.filled (h : Change μ ν a o) :
    (∃ o', ν.state.object? a = some o') ∧ (o.isValue = true → ν.state.object? a = some o) := by
  cases h with
  | kept hobject => exact ⟨⟨o, hobject⟩, fun _ => hobject⟩
  | @covered c hthunk hsaturated hobject =>
      refine ⟨⟨_, hobject⟩, fun hvalue => ?_⟩
      rw [hthunk, Object.isValue, Closure.isThunk, hsaturated] at hvalue
      cases hvalue
  | updated hblackhole _ _ hobject =>
      refine ⟨⟨_, hobject⟩, fun hvalue => ?_⟩
      rw [hblackhole] at hvalue
      cases hvalue

/-- Filled addresses stay filled, and values stay, in all later moments. -/
theorem Moment.Later.filled (h : Later μ ν) (hμ : Orderly config μ) (ho : μ.state.object? a = some o) :
    (∃ o', ν.state.object? a = some o') ∧ (o.isValue = true → ν.state.object? a = some o) := by
  induction h with
  | refl => exact ⟨⟨o, ho⟩, fun _ => ho⟩
  | @tail ξ ν hlater hnext ih =>
      obtain ⟨⟨o', ho'⟩, hvalue⟩ := ih
      have hξ := Moment.Later.orderly hlater hμ
      exact ⟨(hnext.change hξ ho').filled.1, fun h => (hnext.change hξ (hvalue h)).filled.2 h⟩

theorem Moment.Later.nextAddr_le (h : Later μ ν) (hμ : Orderly config μ) :
    μ.state.stats.nextAddr ≤ ν.state.stats.nextAddr := by
  induction h with
  | refl => exact Nat.le_refl _
  | tail hlater hnext ih =>
      exact Nat.le_trans ih (hnext.rewrites (Moment.Later.orderly hlater hμ).idle).nextAddr_le

/-- After an update the thunk and its result hold the same object. -/
theorem Moment.Next.object?_of_updates {n n' : Nat} {d d' : Snapshot} {result : Addr}
    (h : Moment.Next (.running m n d) (.running m n' d')) (hidle : Idle config m)
    (hcode : d.code = .ret [.ptr result]) (hupdates : d.Updates a o) :
    d'.state.object? a = some o ∧ d'.state.object? result = some o := by
  obtain ⟨frame, rest, result', hpop, hcont, hcode', hfound⟩ := hupdates
  rw [hcode] at hcode'
  cases hcode'
  cases h with
  | steps _ hstep =>
      obtain ⟨_, htransition⟩ := hidle.transition hstep
      obtain ⟨_, o', hatoms, hfound', -, hheap⟩ := htransition.of_update hcode hpop hcont
      cases hatoms
      rw [hfound] at hfound'
      cases hfound'
      refine ⟨by rw [hheap, if_pos rfl], ?_⟩
      rw [hheap]
      split
      · rfl
      · exact hfound

/-- The life of heap objects, at every moment of a session. Objects are below the next address, which
grows; addresses are handed out in order and filled for the first time when they are; a filled address stays
filled; the only changes are that a thunk is covered and that an update overwrites a blackhole; so values
stay, and a thunk that was updated with a value has the object of its result for good. -/
theorem Session.heap_lifecycle (hsession : Session config events m) (hlater : Later (.idle m) μ) :
    (∀ a o, μ.state.object? a = some o → a < μ.state.stats.nextAddr) ∧
    (∀ s addrs t, State.HandsOut s addrs t → addrs = List.range' s.stats.nextAddr addrs.length ∧
      t.stats.nextAddr = s.stats.nextAddr + addrs.length) ∧
    (∀ ν, Moment.Next μ ν → (∀ a o, μ.state.object? a = some o → Change μ ν a o) ∧
      ∀ a o, μ.state.object? a = none → ν.state.object? a = some o → μ.state.stats.nextAddr ≤ a) ∧
    (∀ ν, Later μ ν → μ.state.stats.nextAddr ≤ ν.state.stats.nextAddr ∧
      (∀ addrs t, ν.state.HandsOut addrs t → ∀ a ∈ addrs, μ.state.stats.nextAddr ≤ a) ∧
      ∀ a o, μ.state.object? a = some o →
        (∃ o', ν.state.object? a = some o') ∧ (o.isValue = true → ν.state.object? a = some o)) ∧
    ∀ m₀ n n' d d' target result o ν, μ = .running m₀ n d → d.code = .ret [.ptr result] →
      d.Updates target o → o.isValue = true → Moment.Next μ (.running m₀ n' d') →
      Later (.running m₀ n' d') ν →
      ν.state.object? target = some o ∧ ν.state.object? result = some o := by
  have horderly := hsession.orderly hlater
  refine ⟨fun a o => State.lt_of_object?, fun s addrs t => State.HandsOut.eq_range', fun ν hnext => ?_,
    fun ν hν => ?_, ?_⟩
  · exact ⟨fun a o => hnext.change horderly, fun a o => hnext.nextAddr_le_of_fresh horderly⟩
  · have hle := Moment.Later.nextAddr_le hν horderly
    refine ⟨hle, fun addrs t hhands a ha => ?_, fun a o => Moment.Later.filled hν horderly⟩
    rw [hhands.eq_range'.1] at ha
    exact Nat.le_trans hle (List.mem_range'_1.1 ha).1
  · rintro m₀ n n' d d' target result o ν rfl hcode hupdates hvalue hnext hν
    obtain ⟨htarget, hresult⟩ := hnext.object?_of_updates horderly.idle hcode hupdates
    have horderly' := hnext.orderly horderly
    exact ⟨(Moment.Later.filled hν horderly' htarget).2 hvalue,
      (Moment.Later.filled hν horderly' hresult).2 hvalue⟩

end Life

/-- Whether a snapshot is about to update address 1 with the value at address 2, and the update after that
is the last one. -/
def Snapshot.updatesTwice (r : Registry) (base : Nat) (d : Snapshot) : Bool :=
  match d.code, d.state.stack.pop?, d.state.object? 2 with
  | .ret [.ptr 2], some (frame, _), some o =>
    o.isValue && frame.cont.target? == some 1 && (d.next? r base).any fun d' =>
      (d'.next? r base).any fun d'' => d''.state.stack.depth == 0
  | _, _, _ => false

/-- The thunk that the entry needs, after its update and that of the entry. -/
theorem Session.heap_lifecycle_entryUpdated :
    ∃ events m n n' n'' d d' d'' o, Session {} events m ∧ Later (.idle m) (.running m n d) ∧
      d.code = .ret [.ptr 2] ∧ d.Updates 1 o ∧ o.isValue = true ∧
      Moment.Next (.running m n d) (.running m n' d') ∧
      Later (.running m n' d') (.running m n'' d'') ∧ d''.state.stack.depth = 0 ∧
      d''.state.object? 1 = some o ∧ d''.state.object? 2 = some o := by
  have hplayed : (Session.play {} 10 [.load (entryNeeds (.conApp ⟨"()", 1, 0⟩ []))]).any (fun result =>
      (Command.runEntry.start? result.2).any fun start =>
        (after? result.2.registry result.2.state.stack.depth 4 start).any
          (Snapshot.updatesTwice result.2.registry result.2.state.stack.depth)) := by
    decide +kernel
  obtain ⟨⟨events, m⟩, hplay, h⟩ := (Option.any_eq_true _ _).1 hplayed
  obtain ⟨start, hstart, h⟩ := (Option.any_eq_true _ _).1 h
  obtain ⟨d, hd, h⟩ := (Option.any_eq_true _ _).1 h
  unfold Snapshot.updatesTwice at h
  split at h
  · next frame rest o hcode hpop hfound =>
    simp only [Bool.and_eq_true] at h
    obtain ⟨⟨hvalue, htarget⟩, h⟩ := h
    obtain ⟨d', hd', h⟩ := (Option.any_eq_true _ _).1 h
    obtain ⟨d'', hd'', hdepth⟩ := (Option.any_eq_true _ _).1 h
    have hupdates : d.Updates 1 o :=
      ⟨frame, rest, 2, hpop, Continuation.target?_eq_some (beq_iff_eq.1 htarget), hcode, hfound⟩
    have hsession := Session.of_play hplay
    have hbudget : m.config.maxSteps = none := congrArg Config.maxSteps hsession.idle.config
    obtain ⟨n, hrun⟩ := later_of_reaches hbudget (reaches_of_after? hd) _
    have hlater : Later (.idle m) (.running m n d) := .head (.starts hstart) hrun
    have hnext : Moment.Next (.running m n d) (.running m (tick n) d') := by
      refine .steps ?_ (steps_of_next? hd')
      rw [hbudget]
      rfl
    obtain ⟨n'', hlast⟩ := later_of_reaches hbudget (.single (steps_of_next? hd'')) (tick n)
    obtain ⟨-, -, -, -, hlife⟩ := Session.heap_lifecycle hsession hlater
    obtain ⟨htarget, hresult⟩ := hlife m n _ d d' 1 2 o _ rfl hcode hupdates hvalue hnext hlast
    exact ⟨events, m, n, _, n'', d, d', d'', o, hsession, hlater, hcode, hupdates, hvalue, hnext, hlast,
      beq_iff_eq.1 hdepth, htarget, hresult⟩
  · cases h

end Spineless
