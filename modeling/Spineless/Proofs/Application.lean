import Spineless.Proofs.Reentrancy

/-!
# Groups of arguments

The arguments that wait for a function may stand in one frame or in several. `Waiting` says which arguments
a row of frames holds, however they are grouped, and `Applied` what comes of a function that is returned to
them, in terms of the arguments alone: a partial application if they are too few, and otherwise the code of
the function with the arguments left over waiting for its result. `Snapshot.Reaches.applied` follows the
frames one by one; a partial application made on the way takes the place of the function.
-/

namespace Spineless

open Snapshot

/-- Frames that hold arguments, none of them empty, and the arguments from the top downwards. -/
inductive Waiting : List Frame → List Atom → Prop
  /-- No frame holds no arguments. -/
  | nil : Waiting [] []
  /-- The arguments of the topmost frame come first. -/
  | cons {f : Frame} {frames : List Frame} {xs zs : List Atom} (cont : f.cont = .apply xs)
      (nonempty : xs ≠ []) (below : Waiting frames zs) : Waiting (f :: frames) (xs ++ zs)

/-- A state that differs from another one by its scope, its frames, and partial applications of a function
to the first of some arguments. -/
def State.Supplied (s : State) (c : Closure) (zs : List Atom) (t : State) : Prop :=
  ∃ groups : List (List Atom), (∀ ys ∈ groups, ys <+: zs ∧ ys.length < c.missing) ∧
    t = { s.grow (groups.map fun ys => some (.closure (c.supply ys))) with
      env := t.env, trace := t.trace, stack := t.stack }

/-- What comes of a function that is applied to arguments above other frames. -/
inductive Applied (s : State) (below : List Frame) (c : Closure) (zs : List Atom) : Snapshot → Prop
  /-- A partial application is returned to the frames below. -/
  | few {q : Addr} {t : State} (few : zs.length < c.missing) (frames : t.stack.frames = below)
      (found : t.object? q = some (.closure (c.supply zs))) (supplied : s.Supplied c zs t) :
      Applied s below c zs ⟨.ret [.ptr q], t⟩
  /-- The code of the function runs, and the arguments left over wait for its result. -/
  | enough {left : List Frame} {t : State} (enough : c.missing ≤ zs.length)
      (waiting : Waiting left (zs.drop c.missing)) (frames : t.stack.frames = left ++ below)
      (env : t.env = c.env.extend (c.lambda.params.zip (c.args ++ zs.take c.missing)))
      (trace : t.trace = [c.name]) (supplied : s.Supplied c zs t) :
      Applied s below c zs ⟨.eval c.lambda.body, t⟩

section Application

variable {r : Registry} {base : Nat} {s t : State} {c : Closure} {p : Addr} {f : Frame} {frames : List Frame}
  {xs ys zs args : List Atom}

/-! ## One frame -/

namespace Exec

/-- Too few arguments make a partial application. -/
theorem apply_of_few (hfound : s.object? p = some (.closure c)) (hfew : args.length < c.missing) :
    apply p args s = .ok (.ret [.ptr s.heap.size]) (s.grow [some (.closure (c.supply args))]) := by
  have hmissing : c.missing ≠ 0 := by omega
  rw [apply, bind_of_ok (read_eq_ok.2 ⟨hfound, rfl⟩)]
  dsimp only
  rw [if_neg hmissing, if_pos hfew]
  exact bind_of_ok (allocate_apply _)

/-- Enough arguments run the code, if those left over have room. -/
theorem apply_of_enough (hfound : s.object? p = some (.closure c)) (hmissing : 0 < c.missing)
    (henough : c.missing ≤ args.length) (hroom : s.HasRoom) :
    apply p args s = .ok (.eval c.lambda.body)
      ((s.pushArgs (args.drop c.missing)).enterScope c.name (c.scope args)) := by
  rw [apply, bind_of_ok (read_eq_ok.2 ⟨hfound, rfl⟩)]
  dsimp only
  rw [if_neg (by omega), if_neg (by omega)]
  cases hextra : (args.drop c.missing).isEmpty with
  | true =>
      rw [State.pushArgs, if_pos hextra]
      rfl
  | false =>
      rw [State.pushArgs, hextra, if_neg Bool.false_ne_true]
      have hpush : pushFrame (.apply (args.drop c.missing)) s = .ok () (s.pushed _) :=
        pushFrame_eq_ok.2 ⟨hroom, rfl⟩
      exact bind_of_ok hpush

end Exec

/-- A reference that is returned to arguments is applied to them. -/
theorem step_ret_of_args (hframes : s.stack.frames = f :: frames) (hbase : base ≤ frames.length)
    (hcont : f.cont = .apply args) :
    ∃ rest : Stack, rest.frames = frames ∧ ∀ {code t}, Exec.apply p args (s.resumed f rest) = .ok code t →
      Steps r base ⟨.ret [.ptr p], s⟩ ⟨code, t⟩ := by
  have hdepth : base < s.stack.depth := by
    rw [s.stack.depth_eq, hframes, List.length_cons]
    omega
  obtain ⟨frame, rest, hpop, hstep⟩ := step_ret_of_lt r [.ptr p] hdepth
  obtain ⟨rfl, hrest⟩ := List.cons.inj ((Stack.frames_of_pop? hpop).symm.trans hframes)
  refine ⟨rest, hrest, fun {code t} happly => ?_⟩
  have hresume : Exec.resume frame [.ptr p] { s with stack := rest } = .ok code t := by
    rw [Exec.resume, Exec.modify_bind, hcont]
    exact happly
  exact hstep.trans (Exec.bind_of_ok hresume)

/-! ## Arguments in sequence -/

theorem Closure.supply_nil : c.supply [] = c := by
  simp [Closure.supply]

/-- Arguments that are supplied one group after the other are supplied. -/
theorem Closure.supply_append : (c.supply xs).supply ys = c.supply (xs ++ ys) := by
  simp [Closure.supply, Nat.sub_sub]

/-- The code of a partial application runs in the scope of the function, with all arguments. -/
theorem Closure.scope_supply (hfew : xs.length ≤ c.missing) :
    (c.supply xs).scope ys = c.scope (xs ++ ys) := by
  simp only [Closure.scope, Closure.supply, List.append_assoc, List.take_append]
  rw [List.take_of_length_le hfew]

/-- The arguments left over by a partial application are those left over by the function. -/
theorem Closure.drop_supply (hfew : xs.length ≤ c.missing) :
    ys.drop (c.supply xs).missing = (xs ++ ys).drop c.missing := by
  simp only [Closure.supply, List.drop_append]
  rw [List.drop_eq_nil_of_le hfew, List.nil_append]

/-- A partial application of a partial application is one of the function. -/
theorem State.Supplied.of_supply {rest : Stack} (hfew : xs.length < c.missing)
    (h : ((s.resumed f rest).grow [some (.closure (c.supply xs))]).Supplied (c.supply xs) zs t) :
    s.Supplied c (xs ++ zs) t := by
  obtain ⟨groups, hgroups, ht⟩ := h
  refine ⟨xs :: groups.map (xs ++ ·), fun ys hys => ?_, ?_⟩
  · rcases List.mem_cons.1 hys with rfl | hys
    · exact ⟨List.prefix_append ys zs, hfew⟩
    · obtain ⟨group, hgroup, rfl⟩ := List.mem_map.1 hys
      obtain ⟨hinitial, hlength⟩ := hgroups group hgroup
      refine ⟨(List.prefix_append_right_inj xs).2 hinitial, ?_⟩
      simp only [Closure.supply] at hlength
      rw [List.length_append]
      omega
  · rw [State.grow_grow] at ht
    simp only [List.map_cons, List.map_map, Function.comp_def, ← Closure.supply_append]
    exact ht

/-! ## All frames -/

section Run

variable {below : List Frame} {d : Snapshot}

/-- What comes of a partial application comes of the function. -/
theorem Applied.of_supply {rest : Stack} (hfew : xs.length < c.missing)
    (h : Applied ((s.resumed f rest).grow [some (.closure (c.supply xs))]) below (c.supply xs) zs d) :
    Applied s below c (xs ++ zs) d := by
  cases h with
  | few hlt hframes hfound hsupplied =>
      rw [Closure.supply_append] at hfound
      refine .few ?_ hframes hfound (hsupplied.of_supply hfew)
      simp only [Closure.supply] at hlt
      rw [List.length_append]
      omega
  | enough hle hwaiting hframes henv htrace hsupplied =>
      rw [Closure.drop_supply (Nat.le_of_lt hfew)] at hwaiting
      have hscope := Eq.trans henv (Closure.scope_supply (Nat.le_of_lt hfew))
      refine .enough ?_ hwaiting hframes hscope htrace (hsupplied.of_supply hfew)
      simp only [Closure.supply] at hle
      rw [List.length_append]
      omega

/-- The first frame with enough arguments runs the code, and what it leaves over waits with the frames
below it. -/
theorem Applied.of_enough {rest : Stack} (hwaiting : Waiting frames zs) (hrest : rest.frames = frames ++ below)
    (henough : c.missing ≤ xs.length) (htrace : 0 < s.traceLimit) :
    Applied s below c (xs ++ zs) ⟨.eval c.lambda.body,
      ((s.resumed f rest).pushArgs (xs.drop c.missing)).enterScope c.name (c.scope xs)⟩ := by
  have hdrop : (xs ++ zs).drop c.missing = xs.drop c.missing ++ zs := List.drop_append_of_le_length henough
  have htake : (xs ++ zs).take c.missing = xs.take c.missing := List.take_append_of_le_length henough
  have hleft : ∃ left, Waiting left (xs.drop c.missing ++ zs) ∧
      ((s.resumed f rest).pushArgs (xs.drop c.missing)).stack.frames = left ++ below := by
    rw [State.frames_pushArgs]
    cases hextra : xs.drop c.missing with
    | nil => exact ⟨frames, hwaiting, hrest⟩
    | cons x more =>
        have hheld : (Frame.mk (.apply (x :: more)) f.env f.trace).cont = .apply (x :: more) := rfl
        exact ⟨_ :: frames, .cons hheld (List.cons_ne_nil x more) hwaiting, congrArg (List.cons _) hrest⟩
  obtain ⟨left, hwaiting', hframes⟩ := hleft
  refine .enough ?_ (hdrop ▸ hwaiting') hframes ?_ ?_ ⟨[], fun _ h => (nomatch h), ?_⟩
  · rw [List.length_append]
    omega
  · rw [htake]
    rfl
  · have hlimit : ((s.resumed f rest).pushArgs (xs.drop c.missing)).traceLimit = s.traceLimit := by
      unfold State.pushArgs
      split <;> rfl
    change State.extendTrace _ [] c.name = [c.name]
    rw [hlimit, State.extendTrace, if_neg (by omega), List.length_nil, if_neg (by omega), List.nil_append]
  · unfold State.pushArgs
    split <;> rfl

/-- A function that is returned to arguments is applied to them, however they are grouped. -/
theorem Snapshot.Reaches.applied (hwaiting : Waiting frames zs) (hframes : s.stack.frames = frames ++ below)
    (hbase : base ≤ below.length) (hfound : s.object? p = some (.closure c)) (hmissing : 0 < c.missing)
    (hdepth : s.stack.depth ≤ s.maxStackDepth) (htrace : 0 < s.traceLimit) :
    ∃ d, Reaches r base ⟨.ret [.ptr p], s⟩ d ∧ Applied s below c zs d := by
  -- By induction on the frames, for every function: the next one is a partial application of the last.
  induction hwaiting generalizing s p c with
  | nil =>
      have hfound' : s.object? p = some (.closure (c.supply [])) := by
        rw [Closure.supply_nil]
        exact hfound
      refine ⟨_, .refl, .few hmissing hframes hfound' ⟨[], fun _ h => (nomatch h), ?_⟩⟩
      rfl
  | @cons f frames xs zs hcont hnonempty hwaiting ih =>
      have hbase' : base ≤ (frames ++ below).length := by
        rw [List.length_append]
        omega
      rw [List.cons_append] at hframes
      obtain ⟨rest, hrest, hsteps⟩ := step_ret_of_args (r := r) (p := p) hframes hbase' hcont
      -- The frame that came off leaves room for one.
      have hroom : (s.resumed f rest).HasRoom := by
        rw [s.stack.depth_eq, hframes, List.length_cons, ← hrest, ← rest.depth_eq] at hdepth
        exact hdepth
      by_cases hfew : xs.length < c.missing
      · have hstep := hsteps (Exec.apply_of_few (s := s.resumed f rest) hfound hfew)
        have hmissing' : 0 < (c.supply xs).missing := Nat.sub_pos_of_lt hfew
        obtain ⟨d, hreach, happlied⟩ := ih (s := (s.resumed f rest).grow [some (.closure (c.supply xs))]) hrest
          (State.object?_grow_size _) hmissing' (Nat.le_of_lt hroom) htrace
        exact ⟨d, .head hstep hreach, .of_supply hfew happlied⟩
      · have henough : c.missing ≤ xs.length := Nat.le_of_not_lt hfew
        have hstep := hsteps (Exec.apply_of_enough (s := s.resumed f rest) hfound hmissing henough hroom)
        exact ⟨_, .single hstep, .of_enough hwaiting hrest henough htrace⟩

end Run

end Application

/-- Application does not depend on how the arguments are grouped. A function that is returned to frames which
hold some arguments is applied to them, and what comes of it is what comes of a single frame that holds them
all. -/
theorem Snapshot.applied_of_waiting {r : Registry} {base : Nat} {s : State} {p : Addr} {c : Closure}
    {frames below : List Frame} {zs : List Atom} (hwaiting : Waiting frames zs)
    (hframes : s.stack.frames = frames ++ below) (hbase : base ≤ below.length)
    (hfound : s.object? p = some (.closure c)) (hmissing : 0 < c.missing)
    (hdepth : s.stack.depth ≤ s.maxStackDepth) (htrace : 0 < s.traceLimit) :
    (∃ d, Reaches r base ⟨.ret [.ptr p], s⟩ d ∧ Applied s below c zs d) ∧
    ∀ (f : Frame) (stack : Stack), zs ≠ [] → f.cont = .apply zs → stack.frames = f :: below →
      ∃ d, Reaches r base ⟨.ret [.ptr p], { s with stack }⟩ d ∧ Applied s below c zs d := by
  refine ⟨Reaches.applied hwaiting hframes hbase hfound hmissing hdepth htrace, ?_⟩
  intro f stack hnonempty hcont hstack
  have hsingle : Waiting [f] zs := by
    rw [← List.append_nil zs]
    exact .cons hcont hnonempty .nil
  -- Arguments wait in one frame at least, so a single one needs no more room.
  have hdepth' : stack.depth ≤ s.maxStackDepth := by
    rw [s.stack.depth_eq, hframes, List.length_append] at hdepth
    rw [stack.depth_eq, hstack, List.length_cons]
    cases hwaiting with
    | nil => exact absurd rfl hnonempty
    | cons =>
        rw [List.length_cons] at hdepth
        omega
  obtain ⟨d, hreach, happlied⟩ :=
    Reaches.applied (r := r) (s := { s with stack }) hsingle hstack hbase hfound hmissing hdepth' htrace
  refine ⟨d, hreach, ?_⟩
  cases happlied with
  | few hfew hbelow hresult hsupplied => exact .few hfew hbelow hresult hsupplied
  | enough henough hleft hbelow henv htrace' hsupplied =>
      exact .enough henough hleft hbelow henv htrace' hsupplied

/-- A function of two parameters. -/
def constantly : Closure := .ofLambda (.ofName "k") ⟨[.ofName "x", .ofName "y"], .app (.ofName "x") []⟩ .empty

/-- A state with `constantly` in its heap and three arguments waiting, in groups of one and two. -/
def oneThenTwo : State :=
  (((State.ofConfig {}).grow [some (.closure constantly)]).pushed (.apply [.int 2, .int 3])).pushed
    (.apply [.int 1])

/-- The first two arguments run the code of `constantly`, and the third waits for its result. -/
theorem Snapshot.applied_of_waiting_oneThenTwo :
    0 < constantly.missing ∧ Waiting oneThenTwo.stack.frames [.int 1, .int 2, .int 3] ∧
      ∃ d, Reaches .standard 0 ⟨.ret [.ptr 0], oneThenTwo⟩ d ∧ d.code = .eval (.app (.ofName "x") []) ∧
        Applied oneThenTwo [] constantly [.int 1, .int 2, .int 3] d := by
  have hmissing : 0 < constantly.missing := by decide
  have hwaiting : Waiting oneThenTwo.stack.frames ([.int 1] ++ ([.int 2, .int 3] ++ [])) :=
    .cons rfl (List.cons_ne_nil _ _) (.cons rfl (List.cons_ne_nil _ _) .nil)
  have hframes : oneThenTwo.stack.frames = oneThenTwo.stack.frames ++ [] := (List.append_nil _).symm
  have hfound : oneThenTwo.object? 0 = some (.closure constantly) := rfl
  obtain ⟨d, hreach, happlied⟩ := (Snapshot.applied_of_waiting hwaiting hframes (Nat.le_refl 0) hfound
    hmissing (by decide) (by decide)).1
  refine ⟨hmissing, hwaiting, d, hreach, ?_, happlied⟩
  cases happlied with
  | few hfew => exact absurd hfew (by decide)
  | enough => rfl

end Spineless
