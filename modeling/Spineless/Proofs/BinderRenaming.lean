import Mathlib.Logic.Equiv.Basic
import Spineless.Proofs.CallSimulation

/-!
# What variables are called does not matter

Variables are told apart by their keys, and nothing but their keys. Give every variable of a program a new
key, different keys for different variables, and any name to show: the program that results is loaded and
run with the same values, after as many transitions, or fails for the same cause, with the new keys in its
message (`Program.outcome_renamed`). With the old keys the message is the same to the letter.

Names may differ from one occurrence of a variable to the next, so no function takes the one program to the
other. Both are compared with a third program instead, which has the new keys and no names at all: it comes
from the first one by a renaming of keys, from the second one by dropping the names. Each of the two is
coupled with it, and the runs of the third program in the two couplings are one and the same.
-/

namespace Spineless

variable {host : Host}

/-! ## New keys -/

/-- New keys for variables. Different keys stay different, and the two tokens keep theirs. -/
structure KeyMap where
  /-- The new key. -/
  key : String → String
  injective : Function.Injective key
  realWorld : key Ident.realWorldKey = Ident.realWorldKey
  void : key Ident.voidKey = Ident.voidKey

namespace KeyMap

/-- The old keys. -/
def refl : KeyMap := ⟨id, Function.injective_id, rfl, rfl⟩

variable (κ : KeyMap)

/-- The variable with its new key, and without a name. -/
def ident (x : Ident) : Ident := ⟨"", κ.key x.key⟩

theorem isToken_ident (x : Ident) : (κ.ident x).isToken = x.isToken := by
  have hrealWorld : κ.key x.key = Ident.realWorldKey ↔ x.key = Ident.realWorldKey := by
    rw [← κ.injective.eq_iff (a := x.key), κ.realWorld]
  have hvoid : κ.key x.key = Ident.voidKey ↔ x.key = Ident.voidKey := by
    rw [← κ.injective.eq_iff (a := x.key), κ.void]
  simp only [Ident.isToken, ident, Bool.beq_eq_decide_eq, hrealWorld, hvoid]

/-- The renaming of everything that a machine holds: new keys, no names, and the rest as it was. -/
def names : Renaming where
  addr := Equiv.refl Addr
  literal := Equiv.refl Nat
  ident := κ.ident
  key := κ.key
  key_ident _ := rfl
  key_injective := κ.injective
  isToken_ident := κ.isToken_ident

/-- The second program is the first one with new keys, and with any names: without names the two are
equal. -/
def Renames (p p' : Program) : Prop := refl.names.program p' = κ.names.program p

theorem atom_names : κ.names.atom = id := funext (Renaming.atom_eq_self rfl rfl)

theorem map_atom_names (atoms : List Atom) : atoms.map κ.names.atom = atoms :=
  Renaming.map_atom_eq_self rfl rfl atoms

theorem cause_names (c : Cause) : κ.names.cause c = c.mapIdents κ.ident :=
  Renaming.cause_eq_mapIdents (ρ := κ.names) rfl rfl c

end KeyMap

/-! ## What a fault shows -/

/-- The wording of a cause shows the keys of its variables. -/
theorem Cause.message_mapIdents {f : Ident → Ident} (hkey : ∀ x, (f x).key = x.key) (c : Cause) :
    (c.mapIdents f).message = c.message := by
  cases c with
  | unboundVariable x => exact congrArg ("unbound variable: " ++ ·) (hkey x)
  | nonExhaustiveMatch binder scrutinee =>
      exact congrArg ("non-exhaustive match on " ++ · ++ ": no alternative for " ++ scrutinee.text)
        (hkey binder)
  | _ => rfl

/-- The text of a trace shows the keys of its variables. -/
theorem traceText_eq (trace : List Ident) :
    traceText trace =
      if (trace.map Ident.key).isEmpty then ""
      else
        "\nEvaluation stack (innermost last):" ++
          String.join ((trace.map Ident.key).zipIdx.map fun entry =>
            "\n  #" ++ toString entry.2 ++ ": " ++ entry.1) := by
  rw [traceText, List.isEmpty_map, List.zipIdx_map, List.map_map]
  rfl

/-! ## Corresponding outcomes -/

namespace KeyMap

variable (κ : KeyMap)

/-- Faults of the same cause. The variables in the second one have the new keys, and nothing else differs;
with the old keys the two have the same text. -/
structure Faults (e e' : Fault) : Prop where
  cause : e'.cause.mapIdents refl.ident = e.cause.mapIdents κ.ident
  trace : e'.trace.map Ident.key = e.trace.map fun x => κ.key x.key
  text : κ.key = id → e'.message = e.message

/-- The same values, or faults of the same cause. -/
inductive Replies : Reply → Reply → Prop
  | values (atoms : List Atom) : Replies (.ok atoms) (.ok atoms)
  | faults {e e' : Fault} (faults : κ.Faults e e') : Replies (.error e) (.error e')

/-- Machines that took as many steps and hold the same, but for the variables in closures. -/
structure Leaves (m m' : Machine) : Prop where
  steps : m'.steps = m.steps
  stats : m'.state.stats = m.state.stats
  heap : m'.state.heap.map (Option.map refl.names.object) = m.state.heap.map (Option.map κ.names.object)
  globals : ∀ key, m'.state.globals.find? (κ.key key) = m.state.globals.find? key
  strings : m'.state.strings = m.state.strings
  spaces : m'.state.spaces = m.state.spaces
  entry : m'.entry.map Ident.key = m.entry.map fun x => κ.key x.key

/-- Calls that both came back, or are both still running. -/
inductive Answers : Option (Reply × Machine) → Option (Reply × Machine) → Prop
  | running : Answers none none
  | answered {reply reply' : Reply} {m m' : Machine} (replies : κ.Replies reply reply')
      (leaves : κ.Leaves m m') : Answers (some (reply, m)) (some (reply', m'))

/-! ## A program and the one without names -/

/-- A trace under new keys drops the binder that it dropped under the old ones. -/
theorem extendTrace_map (f : Ident → Ident) (limit : Nat) (trace : List Ident) (x : Ident) :
    State.extendTrace limit (trace.map f) (f x) = (State.extendTrace limit trace x).map f := by
  unfold State.extendTrace
  rw [List.length_map]
  split
  · rfl
  · split <;> simp

/-- A run beside the one with new keys and no names. -/
def coupling (limit : Nat) : Coupling where
  names := κ.names
  below := []
  spare := 0
  limit := limit
  limit' := limit
  inScope xs ys := ys = xs.map κ.ident
  always xs ys := ys = xs.map κ.ident
  always_nil := List.map_nil.symm
  always_of_inScope h := h
  inScope_enter x := extendTrace_map κ.ident limit [] x
  inScope_extend {xs ys} x h := by
    rw [h]
    exact extendTrace_map κ.ident limit xs x

/-- A fresh machine corresponds to itself: it has no variables. -/
theorem machines_new (config : Config) (host : Host) :
    (κ.coupling config.traceLimit).Machines (.new config host) (.new config host) := by
  have hregistry : (Machine.new config host).registry = .standard host := by
    rw [Machine.new, Machine.withRegistry]
  exact {
    states := {
      store := {
        heap_size := rfl
        slot := fun _ => rfl
        fresh := fun _ _ => rfl
        globals := fun _ => rfl
        strings := .refl _
        spaces := (Renaming.spaces_eq_self κ.atom_names _).symm
        thread := rfl }
      limit := rfl
      limit' := rfl
      depth := rfl
      frames := .bottom
      trace := rfl
      scope := fun _ => ⟨κ.names.env_empty.symm, rfl⟩ }
    entry := rfl
    registry := ⟨host, hregistry⟩
    registry' := rfl
    budget := rfl
    count := .inl rfl }

/-- A program and the one with new keys and no names are loaded and run alike. -/
theorem answers_erased (config : Config) (host : Host) (fuel : Nat) (p : Program) :
    ∃ reply m reply' n, (Command.load p).perform fuel (.new config host) = some (reply, m) ∧
      (Command.load (κ.names.program p)).perform fuel (.new config host) = some (reply', n) ∧
      (κ.coupling config.traceLimit).Answers (some (reply, m)) (some (reply', n)) ∧
      (κ.coupling config.traceLimit).Answers (Command.runEntry.perform fuel m)
        (Command.runEntry.perform fuel n) := by
  have hnew := κ.machines_new config host
  have hload := hnew.answers_load rfl rfl fuel p
  obtain ⟨⟨reply, m⟩, hfirst⟩ :
      ∃ result, (Command.load p).perform fuel (.new config host) = some result := ⟨_, rfl⟩
  obtain ⟨⟨reply', n⟩, hsecond⟩ :
      ∃ result, (Command.load (κ.names.program p)).perform fuel (.new config host) = some result :=
    ⟨_, rfl⟩
  have hnames : (κ.coupling config.traceLimit).names = κ.names := rfl
  rw [hnames, hfirst, hsecond] at hload
  refine ⟨reply, m, reply', n, hfirst, hsecond, hload, ?_⟩
  cases hload with
  | answered hreplies hstore hentry hsteps =>
      have hloaded := hnew.called rfl (Command.perform_eq_some hfirst) (Command.perform_eq_some hsecond)
        hstore hentry hsteps
      exact hloaded.answers_runEntry rfl rfl hsteps fuel

end KeyMap

/-! ## Two programs -/

namespace KeyMap

variable {κ : KeyMap} {config : Config} {limit : Nat}

/-- Under new keys a heap holds the renamed objects, each in its place. -/
theorem heap_eq_map {s t : State} (h : s.Renamed κ.names t) :
    t.heap = s.heap.map (Option.map κ.names.object) := by
  refine Array.ext_getElem? fun a => ?_
  rw [Array.getElem?_map]
  exact h.slot a

theorem spaces_eq {s t : State} (h : s.Renamed κ.names t) : t.spaces = s.spaces := by
  rw [h.spaces, Renaming.spaces_eq_self κ.atom_names]

/-- As many addresses hold an object. -/
theorem heapObjects_eq {s t : State} (h : s.Renamed κ.names t) :
    t.heap.countP Option.isSome = s.heap.countP Option.isSome := by
  have hisSome : Option.isSome ∘ Option.map κ.names.object = Option.isSome :=
    funext fun _ => Option.isSome_map
  rw [heap_eq_map h, Array.countP_map, hisSome]

/-- States that hold the same as a third one, one of them under new keys, have the same sizes. -/
theorem stats_of_erased {s s' t : State} (h : s.Renamed κ.names t) (h' : s'.Renamed refl.names t)
    (hdepth : s'.stack.depth = s.stack.depth) : s'.stats = s.stats := by
  have hobjects := (heapObjects_eq h').symm.trans (heapObjects_eq h)
  have hsize := h'.heap_size.symm.trans h.heap_size
  have hspaces := (spaces_eq h').symm.trans (spaces_eq h)
  rw [State.stats, hobjects, hsize, hdepth, hspaces, State.stats]

/-- Two faults that correspond to a third one, one of them under new keys. -/
theorem faults_of_erased {e e' f : Fault} (h : (κ.coupling limit).Faults e f)
    (h' : (refl.coupling limit).Faults e' f) : κ.Faults e e' := by
  have hcause : e'.cause.mapIdents refl.ident = e.cause.mapIdents κ.ident :=
    calc e'.cause.mapIdents refl.ident
      _ = refl.names.cause e'.cause := (refl.cause_names e'.cause).symm
      _ = f.cause := (Coupling.cause_eq _ rfl _).symm.trans h'.cause.symm
      _ = κ.names.cause e.cause := h.cause.trans (Coupling.cause_eq _ rfl _)
      _ = e.cause.mapIdents κ.ident := κ.cause_names e.cause
  have hidents : e'.trace.map refl.ident = e.trace.map κ.ident := h'.trace.symm.trans h.trace
  have htrace : e'.trace.map Ident.key = e.trace.map fun x => κ.key x.key := by
    have hkeys := congrArg (List.map Ident.key) hidents
    rw [List.map_map, List.map_map] at hkeys
    exact hkeys
  refine ⟨hcause, htrace, fun hid => ?_⟩
  have hkey : ∀ x, (κ.ident x).key = x.key := fun x => congrFun hid x.key
  have hmessage := congrArg Cause.message hcause
  rw [Cause.message_mapIdents (f := refl.ident) fun _ => rfl, Cause.message_mapIdents hkey] at hmessage
  have hkeys : e'.trace.map Ident.key = e.trace.map Ident.key :=
    htrace.trans (List.map_congr_left fun x _ => hkey x)
  rw [Fault.message, hmessage, traceText_eq, hkeys, ← traceText_eq, Fault.message]

theorem replies_of_erased {reply reply' erased : Reply} (h : (κ.coupling limit).Replied reply erased)
    (h' : (refl.coupling limit).Replied reply' erased) : κ.Replies reply reply' := by
  cases h with
  | values atoms =>
      generalize hvalues : atoms.map (κ.coupling limit).names.atom = values at h'
      cases h' with
      | values atoms' =>
          have heq : atoms = atoms' := by
            rw [← κ.map_atom_names atoms, ← refl.map_atom_names atoms']
            exact hvalues
          rw [heq]
          exact .values atoms'
  | faults hfaults =>
      cases h' with
      | faults hfaults' => exact .faults (faults_of_erased hfaults hfaults')

theorem leaves_of_erased {m m' n : Machine} (hidle : Idle config m) (hidle' : Idle config m')
    (hstore : m.state.Renamed κ.names n.state) (hstore' : m'.state.Renamed refl.names n.state)
    (hentry : n.entry = m.entry.map κ.ident) (hentry' : n.entry = m'.entry.map refl.ident)
    (hsteps : n.steps = m.steps) (hsteps' : n.steps = m'.steps) : κ.Leaves m m' where
  steps := hsteps'.symm.trans hsteps
  -- The stack is not part of the store; between two calls it is empty.
  stats := stats_of_erased hstore hstore' (hidle'.depth.trans hidle.depth.symm)
  heap := (heap_eq_map hstore').symm.trans (heap_eq_map hstore)
  globals key := by
    have hglobals := hstore.globals key
    have hglobals' := hstore'.globals (κ.key key)
    rw [atom_names, Option.map_id] at hglobals hglobals'
    exact hglobals'.symm.trans hglobals
  strings := hstore'.strings.eq_of_refl.symm.trans hstore.strings.eq_of_refl
  spaces := (spaces_eq hstore').symm.trans (spaces_eq hstore)
  entry := by
    have hkeys := congrArg (Option.map Ident.key) (hentry'.symm.trans hentry)
    rw [Option.map_map, Option.map_map] at hkeys
    exact hkeys

/-- Two calls that answer as a third one does, one of them under new keys, answer alike. -/
theorem answers_of_erased {x y z : Option (Reply × Machine)} (h : (κ.coupling limit).Answers x z)
    (h' : (refl.coupling limit).Answers y z) (hx : ∀ reply m, x = some (reply, m) → Idle config m)
    (hy : ∀ reply m, y = some (reply, m) → Idle config m) : κ.Answers x y := by
  cases h with
  | running =>
      cases h'
      exact .running
  | answered hreplies hstore hentry hsteps =>
      cases h' with
      | answered hreplies' hstore' hentry' hsteps' =>
          exact .answered (replies_of_erased hreplies hreplies')
            (leaves_of_erased (hx _ _ rfl) (hy _ _ rfl) hstore hstore' hentry hentry' hsteps hsteps')

end KeyMap

/-- Evaluation is invariant under renaming of binders. Give the variables of a program new keys, different
keys for different variables, and any names. On fresh machines with the same limits both programs are
loaded, or neither can be; then both entries come back after as many transitions, or neither does. They come
back with the same values, or fail for the same cause with the new keys in the cause and the trace, and
leave behind heaps that differ in the variables inside closures only. If the keys stay as they were, so does
the text of the fault. -/
theorem Program.outcome_renamed (κ : KeyMap) {p p' : Program} (h : κ.Renames p p') (config : Config)
    (host : Host) (fuel : Nat) :
    ∃ reply m reply' m', (Command.load p).perform fuel (.new config host) = some (reply, m) ∧
      (Command.load p').perform fuel (.new config host) = some (reply', m') ∧
      κ.Replies reply reply' ∧ κ.Leaves m m' ∧
      κ.Answers (Command.runEntry.perform fuel m) (Command.runEntry.perform fuel m') := by
  obtain ⟨reply, m, erased, n, hload, herased, hanswers, hruns⟩ := κ.answers_erased config host fuel p
  obtain ⟨reply', m', erased', n', hload', herased', hanswers', hruns'⟩ :=
    KeyMap.refl.answers_erased config host fuel p'
  -- Without names the two programs are one, so the machine and the reply in the middle are the same.
  rw [h, herased] at herased'
  cases herased'
  have hsession : Session config [⟨.load p, reply⟩] m := .call fuel (.fresh host) hload
  have hsession' : Session config [⟨.load p', reply'⟩] m' := .call fuel (.fresh host) hload'
  have hcalls : κ.Answers (some (reply, m)) (some (reply', m')) :=
    KeyMap.answers_of_erased hanswers hanswers' (by rintro _ _ ⟨⟩; exact hsession.idle)
      (by rintro _ _ ⟨⟩; exact hsession'.idle)
  have hentries : κ.Answers (Command.runEntry.perform fuel m) (Command.runEntry.perform fuel m') :=
    KeyMap.answers_of_erased hruns hruns' (fun _ _ hrun => (Session.call fuel hsession hrun).idle)
      fun _ _ hrun => (Session.call fuel hsession' hrun).idle
  cases hcalls with
  | answered hreplies hleaves => exact ⟨reply, m, reply', m', hload, hload', hreplies, hleaves, hentries⟩

/-- New keys that swap `x` and `y`. -/
def swapXY : KeyMap where
  key := Equiv.swap "x" "y"
  injective := (Equiv.swap "x" "y").injective
  realWorld := Equiv.swap_apply_of_ne_of_ne (by decide) (by decide)
  void := Equiv.swap_apply_of_ne_of_ne (by decide) (by decide)

/-- A program whose entry is a case on a variable that is not bound. -/
def caseOfUnbound (main entry scrutinee binder : Ident) : Program :=
  { bindings := [.nonRec main (.closure [] ⟨[], .case (.app scrutinee []) binder .poly []⟩)]
    entry := entry }

/-- A case on `x` that binds `y`. -/
def unboundX : Program := caseOfUnbound (.ofName "main") (.ofName "main") (.ofName "x") (.ofName "y")

/-- A case on `y` that binds `x`, under other names. The entry has two of them. -/
def unboundY : Program := caseOfUnbound ⟨"start", "main"⟩ ⟨"go", "main"⟩ ⟨"free", "y"⟩ ⟨"bound", "x"⟩

/-- The program on `y` fails as the one on `x` does, with `x` in its trace and not `y`. -/
theorem Program.outcome_renamed_unboundX :
    ∃ atoms m m' n n' e e', swapXY.Renames unboundX unboundY ∧
      (Command.load unboundX).perform 5 (.new {}) = some (.ok atoms, m) ∧
      (Command.load unboundY).perform 5 (.new {}) = some (.ok atoms, m') ∧
      Command.runEntry.perform 5 m = some (.error e, n) ∧
      Command.runEntry.perform 5 m' = some (.error e', n') ∧ swapXY.Leaves n n' ∧
      e.trace.map Ident.key = ["main", "y"] ∧ e'.trace.map Ident.key = ["main", "x"] := by
  have hmain : swapXY.key "main" = "main" := Equiv.swap_apply_of_ne_of_ne (by decide) (by decide)
  have hx : swapXY.key "x" = "y" := Equiv.swap_apply_left "x" "y"
  have hy : swapXY.key "y" = "x" := Equiv.swap_apply_right "x" "y"
  have hrenames : swapXY.Renames unboundX unboundY := by
    simp [KeyMap.Renames, unboundX, unboundY, caseOfUnbound, Renaming.program, Renaming.binding,
      Renaming.rhs, Renaming.expr, Renaming.alts, KeyMap.names, KeyMap.ident, KeyMap.refl, Ident.ofName,
      hmain, hx, hy]
  have hcomputes : ((Command.load unboundX).perform 5 (.new {})).any fun loaded =>
      loaded.1.isOk && (Command.runEntry.perform 5 loaded.2).any fun ran =>
        ((ran.1.map fun _ => []).tryCatch fun e => .ok (e.trace.map Ident.key)).toOption ==
          some ["main", "y"] := by
    decide +kernel
  obtain ⟨reply, m, reply', m', hload, hload', hreplies, -, hruns⟩ :=
    Program.outcome_renamed swapXY hrenames {} .usual 5
  rw [hload, Option.any_some, Bool.and_eq_true] at hcomputes
  obtain ⟨hok, hany⟩ := hcomputes
  obtain ⟨⟨ending, n⟩, hrun, hfails⟩ := (Option.any_eq_true _ _).1 hany
  generalize hrun' : Command.runEntry.perform 5 m' = result' at hruns
  rw [hrun] at hruns
  cases hreplies with
  | faults hfaults => cases hok
  | values atoms =>
      cases hruns with
      | answered hreplies hleaves =>
          cases hreplies with
          | values atoms' => cases hfails
          | @faults e e' hfaults =>
              have htrace : e.trace.map Ident.key = ["main", "y"] := Option.some.inj (eq_of_beq hfails)
              refine ⟨atoms, m, m', n, _, e, e', hrenames, hload, hload', hrun, hrun', hleaves, htrace, ?_⟩
              have hkeys : e.trace.map (fun x => swapXY.key x.key) =
                  (e.trace.map Ident.key).map swapXY.key := List.map_map.symm
              rw [hfaults.trace, hkeys, htrace, List.map_cons, hmain, List.map_singleton, hy]

end Spineless
