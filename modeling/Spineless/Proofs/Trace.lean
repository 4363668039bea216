import Mathlib.Data.List.DropRight
import Spineless.Proofs.Reentrancy

/-!
# What the diagnostic trace says

The trace of a state is kept up step by step and bounded: it loses its outermost binder when it grows
beyond the limit, it is saved with every frame and comes back with it. This module says what it amounts
to. Beside a run we record its `History`, in which nothing is ever dropped: the scope that runs with its
full trace, and for every frame of the run the scope that was saved with it and the transition that
pushed it. The history is a ghost: no transition reads it.

`Machine.trace_eq_rtake` says that at every moment the bounded trace is the end of the full one, in the
state, in every frame and in every fault; and that the full trace is the name of the scope that runs,
followed by the binders of the cases that were opened since it was entered and still wait.
-/

namespace Spineless

open Snapshot

variable {host : Host}

/-! ## The bounded trace -/

namespace State

variable {n k : Nat} {xs : List Ident} {x : Ident}

theorem length_rtake (xs : List Ident) (n : Nat) : (xs.rtake n).length = min n xs.length := by
  rw [List.rtake, List.length_drop]
  omega

theorem rtake_of_length_le (h : xs.length ≤ n) : xs.rtake n = xs := by
  rw [List.rtake, Nat.sub_eq_zero_of_le h, List.drop_zero]

/-- An end of an end is an end. -/
theorem rtake_rtake (h : n ≤ k) (xs : List Ident) : (xs.rtake k).rtake n = xs.rtake n := by
  rw [List.rtake, length_rtake, List.rtake, List.rtake, List.drop_drop]
  congr 1
  omega

/-- A trace that grew beyond its limit has lost its outermost binder, but no end within the limit. -/
theorem rtake_extendTrace (h : n ≤ k) :
    (extendTrace k xs x).rtake n = (xs ++ [x]).rtake n := by
  cases n with
  | zero => simp
  | succ n =>
      have hk : k ≠ 0 := by omega
      rw [extendTrace, if_neg hk, List.rtake_concat_succ]
      split
      · rw [List.rtake_concat_succ, List.rtake, List.rtake, List.drop_drop, List.length_drop]
        congr 2
        omega
      · rw [List.rtake_concat_succ]

/-- Extending the end of a trace gives the end of the extended trace. -/
theorem extendTrace_rtake (n : Nat) (xs : List Ident) (x : Ident) :
    extendTrace n (xs.rtake n) x = (xs ++ [x]).rtake n := by
  have hshort : (extendTrace n (xs.rtake n) x).length ≤ n := by
    have hlength := length_rtake xs n
    unfold extendTrace
    split
    · omega
    · split
      · simp only [List.length_append, List.length_drop, List.length_singleton]
        omega
      · simp only [List.length_append, List.length_singleton]
        omega
  calc extendTrace n (xs.rtake n) x
      = (extendTrace n (xs.rtake n) x).rtake n := (rtake_of_length_le hshort).symm
    _ = (xs.rtake n ++ [x]).rtake n := rtake_extendTrace (Nat.le_refl n)
    _ = (xs ++ [x]).rtake n := by
        cases n with
        | zero => simp
        | succ n => rw [List.rtake_concat_succ, List.rtake_concat_succ, rtake_rtake (Nat.le_succ n)]

/-- The trace of a new scope is its name, if the limit leaves room for it. -/
theorem trace_enterScope (s : State) (name : Ident) (env : Env) :
    (s.enterScope name env).trace = [name].rtake s.traceLimit := by
  have hextend := extendTrace_rtake s.traceLimit [] name
  rw [List.rtake_nil] at hextend
  exact hextend

end State

/-! ## Histories -/

/-- A scope in which code runs. -/
structure Scope where
  /-- The closure whose code it is, or the name under which the run was started. -/
  name : Ident
  /-- The transition that entered the scope; 0 for the start of the run. -/
  entered : Nat
  /-- The full trace. -/
  trace : List Ident

/-- What is recorded of a frame. -/
structure Mark where
  /-- The transition that pushed the frame. -/
  pushed : Nat
  /-- The scope to which the frame comes back. -/
  scope : Scope

/-- What is recorded of a run. -/
structure History where
  /-- The number of transitions, the current one included. -/
  clock : Nat
  /-- The scope that runs. -/
  scope : Scope
  /-- The marks of the frames of the run, from the top downwards. -/
  marks : List Mark

/-- What a transition does to the full trace. -/
inductive TraceEvent where
  /-- A frame is pushed, and the full trace is saved with it. -/
  | saved
  /-- A case is opened. -/
  | opened (binder : Ident)
  /-- The code of a closure is entered. -/
  | entered (name : Ident)
  /-- The topmost frame is resumed. -/
  | resumed

namespace History

/-- The history of a run that starts in a scope. -/
def start (name : Ident) : History := ⟨0, ⟨name, 0, [name]⟩, []⟩

/-- Records an event. -/
def record (h : History) : TraceEvent → History
  | .saved => { h with marks := ⟨h.clock, h.scope⟩ :: h.marks }
  | .opened binder => { h with scope := { h.scope with trace := h.scope.trace ++ [binder] } }
  | .entered name => { h with scope := ⟨name, h.clock, [name]⟩ }
  | .resumed =>
    match h.marks with
    | [] => h
    | mark :: marks => { h with scope := mark.scope, marks }

/-- The history when a transition fails: values that return have resumed the topmost frame by then, and
nothing else was recorded. -/
def atFault (h : History) : Code → History
  | .ret _ => h.record .resumed
  | .eval _ | .enter _ => h

end History

/-- What happens when a closure gets arguments: too few run nothing, and those left over wait. -/
def Closure.traceEvents (c : Closure) (args : List Atom) : List TraceEvent :=
  if c.missing = 0 ∨ args.length < c.missing then []
  else if c.missing < args.length then [.saved, .entered c.name]
  else [.entered c.name]

/-- What the next transition of a run does to the full trace. -/
def Snapshot.traceEvents (c : Snapshot) : List TraceEvent :=
  match c.code with
  | .eval (.case _ binder _ _) => [.saved, .opened binder]
  | .eval (.app _ args) => if args.isEmpty then [] else [.saved]
  | .eval _ => []
  | .enter a =>
    match a.addr?.bind c.state.object? with
    | some (.closure f) => if f.isThunk then [.saved, .entered f.name] else []
    | _ => []
  | .ret atoms =>
    .resumed :: match c.state.stack.peek?.map Frame.cont, atoms with
      | some (.apply args), [.ptr p] =>
        match c.state.object? p with
        | some (.closure f) => f.traceEvents args
        | _ => []
      | _, _ => []

/-- The history after the next transition of a run. -/
def History.advance (h : History) (c : Snapshot) : History :=
  c.traceEvents.foldl History.record { h with clock := h.clock + 1 }

/-- The name of the scope in which a call starts its run. -/
def Command.scopeName? (m : Machine) : Command → Option Ident
  | .load _ => none
  | .runEntry => m.entry
  | .eval name _ _ => some name
  | .force _ => some Machine.forceScope

/-- The snapshots of the run of a call with their histories. -/
inductive Tracked (m : Machine) (command : Command) : Snapshot → History → Prop
  /-- The run starts. -/
  | start {start : Snapshot} {name : Ident} (starts : command.start? m = some start)
      (scope : command.scopeName? m = some name) : Tracked m command start (.start name)
  /-- The run takes a transition. -/
  | step {c d : Snapshot} {h : History} (tracked : Tracked m command c h)
      (steps : Steps m.registry m.state.stack.depth c d) : Tracked m command d (h.advance c)

/-- The binder of a case that waits. -/
def Continuation.binder? : Continuation → Option Ident
  | .caseOf binder _ _ => some binder
  | .update _ | .apply _ => none

/-- The binders of the cases among some frames that were pushed since a scope was entered, outermost
first. -/
def Scope.openCases (scope : Scope) (frames : List (Frame × Mark)) : List Ident :=
  (frames.filterMap fun (f, mark) =>
    if scope.entered < mark.pushed then f.cont.binder? else none).reverse

/-- Where the driver of a run raises a fault, and in which scope: a transition fails, or the budget is
used up before it. -/
inductive History.Raises (r : Registry) (budget : Option Nat) (base : Nat) (h : History) (d : Snapshot) :
    Fault → Scope → Prop
  /-- A transition fails. -/
  | transition {e : Fault} {t : State} (fails : step r base d.code d.state = .error e t) :
      Raises r budget base h d e (h.atFault d.code).scope
  /-- The budget is used up. -/
  | budget {fuel steps limit n : Nat} {e : Fault} {t : State}
      (exceeded : exceeded? budget (tick steps) = some limit)
      (stops : follow r budget base (fuel + 1) d.code steps d.state = some (n, .error e t)) :
      Raises r budget base h d e h.scope

/-! ## What a history tells -/

/-- A history tells the truth about a state with some frames of its own above those of the caller. -/
structure History.Tells (h : History) (limit : Nat) (below : List Frame) (own : List (Frame × Mark))
    (s : State) : Prop where
  frames : s.stack.frames = own.map Prod.fst ++ below
  marks : h.marks = own.map Prod.snd
  traceLimit : s.traceLimit = limit
  trace : s.trace = h.scope.trace.rtake limit
  saved : ∀ f mark, (f, mark) ∈ own → f.trace = mark.scope.trace.rtake limit
  names : h.scope.trace = h.scope.name :: h.scope.openCases own
  savedNames : ∀ f mark rest, (f, mark) :: rest <:+ own →
    mark.scope.trace = mark.scope.name :: mark.scope.openCases rest
  entered : h.scope.entered ≤ h.clock
  past : ∀ f mark, (f, mark) ∈ own → mark.pushed ≤ h.clock ∧ mark.scope.entered ≤ h.clock

namespace History.Tells

variable {h : History} {limit : Nat} {below : List Frame} {own : List (Frame × Mark)} {s t : State}

/-- A state with the same trace and frames is told about as well. -/
theorem congr (htells : h.Tells limit below own s) (htrace : t.trace = s.trace)
    (hstack : t.stack = s.stack) (hlimit : t.traceLimit = s.traceLimit) :
    h.Tells limit below own t where
  frames := by rw [hstack]; exact htells.frames
  marks := htells.marks
  traceLimit := hlimit.trans htells.traceLimit
  trace := htrace.trans htells.trace
  saved := htells.saved
  names := htells.names
  savedNames := htells.savedNames
  entered := htells.entered
  past := htells.past

/-- The clock goes on. -/
theorem tick (htells : h.Tells limit below own s) :
    ({ h with clock := h.clock + 1 } : History).Tells limit below own s where
  frames := htells.frames
  marks := htells.marks
  traceLimit := htells.traceLimit
  trace := htells.trace
  saved := htells.saved
  names := htells.names
  savedNames := htells.savedNames
  entered := Nat.le_succ_of_le htells.entered
  past := by
    intro f mark hmem
    have hpast := htells.past f mark hmem
    constructor
    · show mark.pushed ≤ h.clock + 1
      omega
    · show mark.scope.entered ≤ h.clock + 1
      omega

/-- The mark of the scope that runs. -/
theorem savedNames_cons (htells : h.Tells limit below own s) (f : Frame) :
    ∀ g mark rest, (g, mark) :: rest <:+ (f, ⟨h.clock, h.scope⟩) :: own →
      mark.scope.trace = mark.scope.name :: mark.scope.openCases rest := by
  intro g mark rest hsuffix
  rcases List.suffix_cons_iff.1 hsuffix with heq | hsuffix
  · cases heq
    exact htells.names
  · exact htells.savedNames g mark rest hsuffix

theorem saved_cons (htells : h.Tells limit below own s) (k : Continuation) :
    ∀ f mark, (f, mark) ∈ (⟨k, s.env, s.trace⟩, ⟨h.clock, h.scope⟩) :: own →
      f.trace = mark.scope.trace.rtake limit := by
  intro f mark hmem
  rcases List.mem_cons.1 hmem with heq | hmem
  · cases heq
    exact htells.trace
  · exact htells.saved f mark hmem

theorem past_cons (htells : h.Tells limit below own s) (g : Frame) :
    ∀ f mark, (f, mark) ∈ (g, ⟨h.clock, h.scope⟩) :: own →
      mark.pushed ≤ h.clock ∧ mark.scope.entered ≤ h.clock := by
  intro f mark hmem
  rcases List.mem_cons.1 hmem with heq | hmem
  · cases heq
    exact ⟨Nat.le_refl _, htells.entered⟩
  · exact htells.past f mark hmem

/-- A frame that opens no case is pushed. -/
theorem pushed (htells : h.Tells limit below own s) {k : Continuation} (hk : k.binder? = none) :
    (h.record .saved).Tells limit below ((⟨k, s.env, s.trace⟩, ⟨h.clock, h.scope⟩) :: own)
      (s.pushed k) where
  frames := by
    show _ :: s.stack.frames = _
    rw [htells.frames]
    rfl
  marks := by
    show _ :: h.marks = _
    rw [htells.marks]
    rfl
  traceLimit := htells.traceLimit
  trace := htells.trace
  saved := htells.saved_cons k
  names := by
    show h.scope.trace = h.scope.name :: h.scope.openCases _
    rw [htells.names]
    simp [Scope.openCases, hk]
  savedNames := htells.savedNames_cons _
  entered := htells.entered
  past := htells.past_cons _

/-- A case is opened by a later transition than the one that entered the scope. -/
theorem opened (htells : h.Tells limit below own s) (hlater : h.scope.entered < h.clock)
    {k : Continuation} {binder : Ident} (hk : k.binder? = some binder) :
    ((h.record .saved).record (.opened binder)).Tells limit below
      ((⟨k, s.env, s.trace⟩, ⟨h.clock, h.scope⟩) :: own) ((s.pushed k).pushTrace binder) where
  frames := by
    show _ :: s.stack.frames = _
    rw [htells.frames]
    rfl
  marks := by
    show _ :: h.marks = _
    rw [htells.marks]
    rfl
  traceLimit := htells.traceLimit
  trace := by
    show State.extendTrace s.traceLimit s.trace binder = (h.scope.trace ++ [binder]).rtake limit
    rw [htells.traceLimit, htells.trace]
    exact State.extendTrace_rtake limit h.scope.trace binder
  saved := htells.saved_cons k
  names := by
    show h.scope.trace ++ [binder] = h.scope.name :: h.scope.openCases _
    rw [htells.names]
    simp [Scope.openCases, hk, hlater]
  savedNames := htells.savedNames_cons _
  entered := htells.entered
  past := htells.past_cons _

/-- The code of a closure starts a trace of its own: no case was opened since. -/
theorem entersScope (htells : h.Tells limit below own s) (name : Ident) (env : Env) :
    (h.record (.entered name)).Tells limit below own (s.enterScope name env) where
  frames := htells.frames
  marks := htells.marks
  traceLimit := htells.traceLimit
  trace := by
    rw [State.trace_enterScope, htells.traceLimit]
    rfl
  saved := htells.saved
  names := by
    show [name] = name :: Scope.openCases ⟨name, h.clock, [name]⟩ own
    have hnone : ∀ entry ∈ own, (if h.clock < entry.2.pushed then entry.1.cont.binder? else none) = none := by
      intro entry hmem
      have hpast := htells.past entry.1 entry.2 hmem
      rw [if_neg (by omega)]
    rw [Scope.openCases, List.filterMap_eq_nil_iff.2 hnone]
    rfl
  savedNames := htells.savedNames
  entered := Nat.le_refl _
  past := htells.past

/-- The topmost frame of the run is resumed. -/
theorem resumed {f : Frame} {mark : Mark} (htells : h.Tells limit below ((f, mark) :: own) s)
    {rest : Stack} (hrest : rest.frames = own.map Prod.fst ++ below) :
    (h.record .resumed).Tells limit below own (s.resumed f rest) := by
  have hmarks : h.record .resumed = { h with scope := mark.scope, marks := own.map Prod.snd } := by
    rw [record, htells.marks]
    rfl
  rw [hmarks]
  exact
    { frames := hrest
      marks := rfl
      traceLimit := htells.traceLimit
      trace := htells.saved f mark List.mem_cons_self
      saved := fun g mark' hmem => htells.saved g mark' (List.mem_cons_of_mem _ hmem)
      names := htells.savedNames f mark own List.suffix_rfl
      savedNames := fun g mark' rest' hsuffix =>
        htells.savedNames g mark' rest' (hsuffix.trans (List.suffix_cons _ _))
      entered := (htells.past f mark List.mem_cons_self).2
      past := fun g mark' hmem => htells.past g mark' (List.mem_cons_of_mem _ hmem) }

/-- A frame that comes off above the base is a frame of the run. -/
theorem exists_of_pop? (htells : h.Tells limit below own s) {frame : Frame} {rest : Stack}
    (hpop : s.stack.pop? = some (frame, rest)) (hdepth : below.length < s.stack.depth) :
    ∃ mark own', own = (frame, mark) :: own' ∧ rest.frames = own'.map Prod.fst ++ below := by
  have hframes := htells.frames
  rw [Stack.frames_of_pop? hpop] at hframes
  cases own with
  | nil =>
      rw [s.stack.depth_eq, Stack.frames_of_pop? hpop, hframes] at hdepth
      exact absurd hdepth (Nat.lt_irrefl _)
  | cons entry own' =>
      obtain ⟨f, mark⟩ := entry
      rw [List.map_cons, List.cons_append, List.cons.injEq] at hframes
      obtain ⟨rfl, hrest⟩ := hframes
      exact ⟨mark, own', rfl, hrest⟩

/-- Arguments wait in a frame of their own, if there are any. -/
theorem pushArgs (htells : h.Tells limit below own s) {args : List Atom} (hargs : args ≠ []) :
    (h.record .saved).Tells limit below ((⟨.apply args, s.env, s.trace⟩, ⟨h.clock, h.scope⟩) :: own)
      (s.pushArgs args) := by
  have hpush : s.pushArgs args = s.pushed (.apply args) := by
    rw [State.pushArgs, if_neg (by simpa using hargs)]
  rw [hpush]
  exact htells.pushed rfl

end History.Tells

/-! ## Transitions -/

section Transitions

variable {h : History} {limit : Nat} {below : List Frame} {own : List (Frame × Mark)} {s t : State}
  {code code' : Code} {e : Fault}

theorem Stack.peek?_of_pop? {st rest : Stack} {frame : Frame} (hpop : st.pop? = some (frame, rest)) :
    st.peek? = some frame := by
  rw [Stack.peek?, Stack.frames_of_pop? hpop]
  rfl

/-- Values that resume a case or an update do no more to the trace than that. -/
theorem Snapshot.traceEvents_ret {atoms : List Atom} {frame : Frame} {rest : Stack}
    (hpop : s.stack.pop? = some (frame, rest)) (hcont : ∀ args, frame.cont ≠ .apply args) :
    (Snapshot.mk (.ret atoms) s).traceEvents = [.resumed] := by
  have hpeek := Stack.peek?_of_pop? hpop
  simp only [Snapshot.traceEvents, hpeek, Option.map_some]
  split
  · next heq => exact absurd (Option.some.inj heq) (hcont _)
  · rfl

/-- A closure that is returned to waiting arguments gets them. -/
theorem Snapshot.traceEvents_apply {frame : Frame} {rest : Stack} {args : List Atom} {p : Addr}
    {c : Closure} (hpop : s.stack.pop? = some (frame, rest)) (hcont : frame.cont = .apply args)
    (hfound : s.object? p = some (.closure c)) :
    (Snapshot.mk (.ret [.ptr p]) s).traceEvents = .resumed :: c.traceEvents args := by
  have hpeek := Stack.peek?_of_pop? hpop
  simp only [Snapshot.traceEvents, hpeek, Option.map_some, hcont, hfound]

/-- A primitive operation leaves the trace and its limit alone. -/
theorem Answered.trace_eq {call : Call} {atoms : List Atom} (hanswered : Answered call s atoms t) :
    t.trace = s.trace ∧ t.traceLimit = s.traceLimit := by
  cases hanswered with
  | reply | counted | allocated | appended | overwritten => exact ⟨rfl, rfl⟩

/-- What was recorded of a run stays true along a transition. -/
theorem Transition.tells (hstep : Transition (.standard host) below.length code s code' t)
    (htells : h.Tells limit below own s) :
    ∃ own', (h.advance ⟨code, s⟩).Tells limit below own' t := by
  have htick := htells.tick
  cases hstep with
  | @app _ callee args f atoms strings hhead hdenotes hroom =>
      have hstrings : History.Tells _ limit below own (s.withStrings strings) := htick.congr rfl rfl rfl
      cases hdenotes with
      | nil => exact ⟨own, hstrings⟩
      | cons => exact ⟨_, hstrings.pushArgs (List.cons_ne_nil _ _)⟩
  | lit | conApp | multiVal | letOne | letGroup => exact ⟨own, htick.congr rfl rfl rfl⟩
  | opApp _ heval =>
      have hanswered := Registry.standard_evaluate_eq_ok heval
      obtain ⟨htrace, hlimit⟩ := hanswered.trace_eq
      exact ⟨own, htick.congr htrace hanswered.frame.2.1 hlimit⟩
  | case => exact ⟨_, htick.opened (Nat.lt_succ_of_le htells.entered) rfl⟩
  | enterScalar hscalar =>
      refine ⟨own, ?_⟩
      simp only [History.advance, Snapshot.traceEvents, hscalar]
      exact htick
  | @enterValue _ p o hfound hvalue =>
      refine ⟨own, ?_⟩
      have hevents : (Snapshot.mk (.enter (.ptr p)) s).traceEvents = [] := by
        cases o with
        | con => simp [Snapshot.traceEvents, Atom.addr?, hfound]
        | blackhole => simp [Object.isValue] at hvalue
        | closure c =>
            have hthunk : c.isThunk = false := by simpa [Object.isValue] using hvalue
            simp [Snapshot.traceEvents, Atom.addr?, hfound, hthunk]
      rw [History.advance, hevents]
      exact htick
  | @enterThunk _ p c hfound hthunk hroom =>
      have hevents : (Snapshot.mk (.enter (.ptr p)) s).traceEvents = [.saved, .entered c.name] := by
        simp [Snapshot.traceEvents, Atom.addr?, hfound, Closure.isThunk, hthunk]
      rw [History.advance, hevents]
      have hcovered : History.Tells _ limit below own (s.overwrite p (.blackhole (.closure c))) :=
        htick.congr rfl rfl rfl
      exact ⟨_, (hcovered.pushed rfl).entersScope c.name c.env⟩
  | update hpop hdepth hcont =>
      obtain ⟨mark, own', rfl, hrest⟩ := htells.exists_of_pop? hpop hdepth
      rw [History.advance, Snapshot.traceEvents_ret hpop (by simp [hcont])]
      exact ⟨own', (htick.resumed hrest).congr rfl rfl rfl⟩
  | applyPartial hpop hdepth hcont hfound hfew =>
      obtain ⟨mark, own', rfl, hrest⟩ := htells.exists_of_pop? hpop hdepth
      rw [History.advance, Snapshot.traceEvents_apply hpop hcont hfound, Closure.traceEvents,
        if_pos (.inr hfew)]
      exact ⟨own', (htick.resumed hrest).congr rfl rfl rfl⟩
  | @applyFull _ frame rest args p c hpop hdepth hcont hfound hmisses henough hroom =>
      obtain ⟨mark, own', rfl, hrest⟩ := htells.exists_of_pop? hpop hdepth
      have hresumed := htick.resumed hrest
      rw [History.advance, Snapshot.traceEvents_apply hpop hcont hfound, Closure.traceEvents,
        if_neg (by omega)]
      by_cases hextra : c.missing < args.length
      · -- The arguments left over wait in the scope to which the frame came back.
        rw [if_pos hextra]
        have hwait : args.drop c.missing ≠ [] := by simpa using hextra
        exact ⟨_, (hresumed.pushArgs hwait).entersScope c.name (c.scope args)⟩
      · rw [if_neg hextra]
        have hnone : args.drop c.missing = [] := by simpa using hextra
        rw [hnone]
        exact ⟨_, hresumed.entersScope c.name (c.scope args)⟩
  | @select _ frame rest binder _ _ atoms _ _ _ hpop hdepth hcont =>
      obtain ⟨mark, own', rfl, hrest⟩ := htells.exists_of_pop? hpop hdepth
      rw [History.advance, Snapshot.traceEvents_ret hpop (by simp [hcont])]
      obtain ⟨env, henv⟩ := State.bindValue_eq (s.resumed frame rest) binder atoms
      rw [henv]
      exact ⟨own', (htick.resumed hrest).congr rfl rfl rfl⟩

/-- A transition that fails raises its fault in a state that the history tells about. -/
theorem Failure.tells (hfails : Failure (.standard host) below.length code s e t)
    (htells : h.Tells limit below own s) :
    ∃ own' u, (h.atFault code).Tells limit below own' u ∧ e.trace = u.trace := by
  cases hfails with
  | unbound | unboundMember | overflow | dangling | blackholed | covered => exact ⟨own, s, htells, rfl⟩
  | operation _ heval =>
      obtain ⟨-, htrace, -⟩ := Registry.standard_evaluate_eq_error heval
      exact ⟨own, s, htells, htrace⟩
  | rejected hpop hdepth =>
      obtain ⟨mark, own', rfl, hrest⟩ := htells.exists_of_pop? hpop hdepth
      exact ⟨own', _, htells.resumed hrest, rfl⟩

end Transitions

/-! ## Runs -/

section Runs

variable {m : Machine} {command : Command} {start c d : Snapshot} {h : History} {e : Fault}
  {scope : Scope}

/-- A call that starts a run starts it in a scope that has a name. -/
theorem Command.scopeName?_of_start? (hstart : command.start? m = some start) :
    ∃ name env, command.scopeName? m = some name ∧ start.state = m.state.enterScope name env := by
  cases command with
  | load p => cases hstart
  | runEntry =>
      obtain ⟨entry, a, hentry, -, rfl⟩ := Command.start?_runEntry hstart
      exact ⟨entry, .empty, hentry, rfl⟩
  | eval name env body =>
      cases hstart
      exact ⟨name, env, rfl, rfl⟩
  | force a =>
      cases hstart
      exact ⟨Machine.forceScope, m.state.env, rfl, rfl⟩

/-- Wherever a run gets to, there is a history of it. -/
theorem Tracked.of_reaches (hstart : command.start? m = some start)
    (hreach : Reaches m.registry m.state.stack.depth start d) : ∃ h, Tracked m command d h := by
  induction hreach with
  | refl =>
      obtain ⟨name, -, hname, -⟩ := Command.scopeName?_of_start? hstart
      exact ⟨_, .start hstart hname⟩
  | tail _ hstep ih =>
      obtain ⟨h, htracked⟩ := ih
      exact ⟨_, .step htracked hstep⟩

/-- The history of a run is true at every moment. -/
theorem Tracked.tells (hregistry : m.registry = .standard host) (htracked : Tracked m command d h) :
    ∃ own, h.Tells m.state.traceLimit m.state.stack.frames own d.state := by
  induction htracked with
  | @start start name hstart hname =>
      obtain ⟨name', env, hname', hstate⟩ := Command.scopeName?_of_start? hstart
      cases hname.symm.trans hname'
      rw [hstate]
      exact
        ⟨[], { frames := rfl
               marks := rfl
               traceLimit := rfl
               trace := State.trace_enterScope m.state name env
               saved := by simp
               names := rfl
               savedNames := by simp
               entered := Nat.le_refl _
               past := by simp }⟩
  | step _ hstep ih =>
      obtain ⟨own, htells⟩ := ih
      rw [hregistry, m.state.stack.depth_eq] at hstep
      exact hstep.transition.tells htells

/-- A fault is raised in a state that some history tells about. -/
theorem History.Raises.tells {limit : Nat} {below : List Frame} {own : List (Frame × Mark)}
    {budget : Option Nat} (hraises : h.Raises (.standard host) budget below.length d e scope)
    (htells : h.Tells limit below own d.state) :
    ∃ (h' : History) (own' : List (Frame × Mark)) (u : State),
      h'.Tells limit below own' u ∧ h'.scope = scope ∧ e.trace = u.trace := by
  cases hraises with
  | transition hfails =>
      obtain ⟨own', u, htells', htrace⟩ := (step_eq_error hfails).tells htells
      exact ⟨_, own', u, htells', rfl, htrace⟩
  | budget hexceeded hstops =>
      rcases follow_succ hstops with ⟨_, -, -, heq⟩ | ⟨hwithin, -⟩
      · cases heq
        exact ⟨h, own, d.state, htells, rfl, rfl⟩
      · rw [hexceeded] at hwithin
        cases hwithin

theorem State.rtake_ne_nil {xs : List Ident} {n : Nat} (hn : 1 ≤ n) (hxs : xs ≠ []) :
    xs.rtake n ≠ [] := by
  intro hnil
  have hlength := State.length_rtake xs n
  have hpos : 0 < xs.length := List.length_pos_iff.2 hxs
  rw [hnil, List.length_nil] at hlength
  omega

/-- A run that ends with a fault has it raised by its driver at some moment. -/
theorem Tracked.raises_of_follow {budget : Option Nat} {fuel steps n : Nat} {t : State}
    (htracked : Tracked m command c h)
    (hfollow : follow m.registry budget m.state.stack.depth fuel c.code steps c.state =
      some (n, .error e t)) :
    ∃ d h' scope, Tracked m command d h' ∧
      h'.Raises m.registry budget m.state.stack.depth d e scope := by
  induction fuel generalizing c h steps with
  | zero => cases hfollow
  | succ fuel ih =>
      rcases follow_succ hfollow with ⟨limit, hexceeded, -, -⟩ | ⟨-, hgoes | hdone | hfails⟩
      · exact ⟨c, h, _, htracked, .budget hexceeded hfollow⟩
      · obtain ⟨code', u, hstep, hfollow'⟩ := hgoes
        have hsteps : Steps m.registry m.state.stack.depth c ⟨code', u⟩ := hstep
        exact ih (htracked.step hsteps) hfollow'
      · obtain ⟨_, _, -, -, heq⟩ := hdone
        cases heq
      · obtain ⟨e', u, hstep, -, heq⟩ := hfails
        cases heq
        exact ⟨c, h, _, htracked, .transition hstep⟩

/-- Follows a run for a number of transitions, and its history with it. -/
def History.after? (r : Registry) (base : Nat) : Nat → Snapshot → History → Option (Snapshot × History)
  | 0, c, h => some (c, h)
  | n + 1, c, h => (c.next? r base).bind fun d => after? r base n d (h.advance c)

theorem Tracked.of_after? {n : Nat} {h' : History} (htracked : Tracked m command c h)
    (hafter : History.after? m.registry m.state.stack.depth n c h = some (d, h')) :
    Tracked m command d h' := by
  induction n generalizing c h with
  | zero =>
      cases hafter
      exact htracked
  | succ n ih =>
      obtain ⟨b, hb, hafter'⟩ := Option.bind_eq_some_iff.1 hafter
      exact ih (htracked.step (steps_of_next? hb)) hafter'

/-- The diagnostic trace is the end of the full trace, within the limit. Every snapshot of the run of a
call has a history. In it the trace of the state, of every frame of the run and of every fault that the
driver raises is the end of the full trace recorded for it; and the full trace is the name of the scope
that runs and the binders of the cases opened since it was entered that still wait, outermost first. -/
theorem Machine.trace_eq_rtake (hregistry : m.registry = .standard host)
    (hstart : command.start? m = some start) :
    (∀ d, Reaches m.registry m.state.stack.depth start d → ∃ h, Tracked m command d h) ∧
    (∀ d h, Tracked m command d h →
      (∃ own : List (Frame × Mark),
        d.state.stack.frames = own.map Prod.fst ++ m.state.stack.frames ∧ h.marks = own.map Prod.snd ∧
        d.state.trace = h.scope.trace.rtake m.state.traceLimit ∧
        (∀ f mark, (f, mark) ∈ own → f.trace = mark.scope.trace.rtake m.state.traceLimit) ∧
        h.scope.trace = h.scope.name :: h.scope.openCases own ∧
        ∀ f mark rest, (f, mark) :: rest <:+ own →
          mark.scope.trace = mark.scope.name :: mark.scope.openCases rest) ∧
      ∀ e scope, h.Raises m.registry m.config.maxSteps m.state.stack.depth d e scope →
        e.trace = scope.trace.rtake m.state.traceLimit ∧ (1 ≤ m.state.traceLimit → e.trace ≠ [])) ∧
    ∀ fuel n e t,
      follow m.registry m.config.maxSteps m.state.stack.depth fuel start.code m.count start.state =
        some (n, .error e t) →
      ∃ d h scope, Tracked m command d h ∧
        h.Raises m.registry m.config.maxSteps m.state.stack.depth d e scope := by
  refine ⟨fun d hreach => Tracked.of_reaches hstart hreach, ?_, ?_⟩
  · intro d h htracked
    obtain ⟨own, htells⟩ := htracked.tells hregistry
    refine ⟨⟨own, htells.frames, htells.marks, htells.trace, htells.saved, htells.names,
      htells.savedNames⟩, ?_⟩
    intro e scope hraises
    rw [hregistry, m.state.stack.depth_eq] at hraises
    obtain ⟨h', own', u, htells', rfl, htrace⟩ := hraises.tells htells
    rw [htrace, htells'.trace]
    refine ⟨rfl, fun hlimit => State.rtake_ne_nil hlimit ?_⟩
    rw [htells'.names]
    exact List.cons_ne_nil _ _
  · intro fuel n e t hfollow
    obtain ⟨h, htracked⟩ := Tracked.of_reaches hstart .refl
    exact htracked.raises_of_follow hfollow

end Runs

/-- A machine whose trace keeps one binder. -/
def oneBinderKept : Machine := Machine.new { traceLimit := 1 }

/-- A case whose scrutinee is a thunk, whose code is a case with a scrutinee that is not bound. -/
def caseInThunk : Command :=
  let x := Ident.ofName "x"
  let t := Ident.ofName "t"
  .eval (.ofName "main") .empty
    (.letIn (.nonRec t (.closure [] ⟨[], .case (.app x []) (.ofName "y") .poly []⟩))
      (.case (.app t []) (.ofName "z") .poly []))

/-- Where the run of `caseInThunk` fails, with its history. -/
def caseInThunkFails : Option (Snapshot × History) :=
  (caseInThunk.start? oneBinderKept).bind fun start =>
    History.after? oneBinderKept.registry oneBinderKept.state.stack.depth 5 start (.start (.ofName "main"))

/-- Where the scrutinee is not bound the full trace is `t, y`. The case `y`, the thunk and the case `z`
wait. The state, the frames and the fault keep the last binder of their full traces. -/
theorem Machine.trace_eq_rtake_caseInThunk :
    ∃ start d h e scope, caseInThunk.start? oneBinderKept = some start ∧
      Tracked oneBinderKept caseInThunk d h ∧
      h.scope.trace = [.ofName "t", .ofName "y"] ∧ d.state.trace = [.ofName "y"] ∧
      h.marks.map (fun mark => mark.scope.trace) =
        [[.ofName "t"], [.ofName "main", .ofName "z"], [.ofName "main"]] ∧
      d.state.stack.frames.map Frame.trace = [[.ofName "t"], [.ofName "z"], [.ofName "main"]] ∧
      h.Raises oneBinderKept.registry oneBinderKept.config.maxSteps oneBinderKept.state.stack.depth
        d e scope ∧
      e.trace = [.ofName "y"] := by
  have hcomputes : caseInThunkFails.any (fun (d, h) =>
      h.scope.trace = [.ofName "t", .ofName "y"] ∧
      h.marks.map (fun mark => mark.scope.trace) =
        [[.ofName "t"], [.ofName "main", .ofName "z"], [.ofName "main"]] ∧
      (h.atFault d.code).scope.trace = [.ofName "t", .ofName "y"] ∧
      (match step oneBinderKept.registry oneBinderKept.state.stack.depth d.code d.state with
        | .error _ _ => true
        | .ok _ _ => false) = true) := by
    decide +kernel
  obtain ⟨⟨d, h⟩, hfails, hany⟩ := (Option.any_eq_true _ _).1 hcomputes
  obtain ⟨start, hstart, hafter⟩ := Option.bind_eq_some_iff.1 hfails
  obtain ⟨hfull, hmarks, hatFault, hstep⟩ := of_decide_eq_true hany
  have hregistry : oneBinderKept.registry = .standard := by
    rw [oneBinderKept, Machine.new, Machine.withRegistry]
  have htracked : Tracked oneBinderKept caseInThunk d h := (Tracked.start hstart rfl).of_after? hafter
  obtain ⟨-, htells, -⟩ := Machine.trace_eq_rtake hregistry hstart
  obtain ⟨⟨own, hframes, hown, htrace, hsaved, -, -⟩, hfaults⟩ := htells d h htracked
  cases hresult : step oneBinderKept.registry oneBinderKept.state.stack.depth d.code d.state with
  | ok next t =>
      rw [hresult] at hstep
      cases hstep
  | error e t =>
      have hraises : h.Raises oneBinderKept.registry oneBinderKept.config.maxSteps
          oneBinderKept.state.stack.depth d e (h.atFault d.code).scope := .transition hresult
      refine ⟨start, d, h, e, _, hstart, htracked, hfull, ?_, hmarks, ?_, hraises, ?_⟩
      · rw [htrace, hfull]
        rfl
      · have hkept : d.state.stack.frames.map Frame.trace =
            (h.marks.map fun mark => mark.scope.trace).map (·.rtake 1) := by
          rw [hframes, hown]
          simp only [List.map_append, List.map_map]
          refine (List.append_nil _).trans (List.map_congr_left ?_)
          intro entry hmem
          exact hsaved entry.1 entry.2 hmem
        rw [hkept, hmarks]
        rfl
      · rw [(hfaults e _ hraises).1, hatFault]
        rfl

end Spineless
