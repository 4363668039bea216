import Spineless.Proofs.Blackhole
import Spineless.Proofs.Dangling
import Spineless.Proofs.MatchedRuns

/-!
# What a failed load leaves behind

A load that fails leaves two things behind: more addresses are handed out, and the top-level variables that
it declared are bound to them. The entry stays the one of the program loaded before. So a run of the entry
goes as it would have gone without the failed load, with later addresses moved up, as long as it does not
look up at top level what the failed load declared (`Session.runEntry_after_failed_load`); where it does, it
may fail (`Session.runEntry_after_failed_load_clash`).

That the parts of a store in use correspond to themselves is shown along the session that led to it: a call
is compared with itself. It holds if callers pass in no references and literals of their own making
(`Honest`).
-/

namespace Spineless

open Snapshot

variable {host : Host}

theorem Snapshot.avoids_nil (d : Snapshot) : d.avoids [] = true := by
  unfold avoids
  split
  · refine List.all_eq_true.2 fun x _ => ?_
    rw [List.contains_nil, Bool.not_false, Bool.or_true, Bool.true_or]
  · rfl
  · rfl

namespace Matching

variable {M N : Matching} {reads reads' : String → Prop} {s t : State} {α β : Type}
  {V : Matching → α → β → Prop}

/-! ## Loading on corresponding machines -/

namespace States

/-- Anything may be read if no variable is lost. -/
theorem readAll (h : M.States reads s t) (hlost : M.lost = []) : M.States reads' s t :=
  h.weaken fun _ _ hmem => absurd (hlost ▸ hmem) List.not_mem_nil

theorem within (h : M.States reads s t) (name : Ident) {env env' : Env} (henv : M.Envs env env')
    {x : Exec α} {y : Exec β}
    (hxy : ∀ s' t', M.States (fun _ => False) s' t' → M.Outcomes reads' V (x s') (y t')) :
    M.Outcomes (fun _ => False) V (Exec.within name env x s) (Exec.within name env' y t) := by
  have hinside := hxy _ _ (h.enterScope name henv)
  unfold Exec.within
  simp only
  generalize x (s.enterScope name env) = first at hinside ⊢
  generalize y (t.enterScope name env') = second at hinside ⊢
  rw [h.trace]
  cases hinside with
  | ok hcontinues h' hvalues =>
      exact .ok hcontinues (h'.restoreScope (h.env.mono hcontinues.toGrows) s.trace) hvalues
  | error hcontinues h' hfaults =>
      exact .error hcontinues (h'.restoreScope (h.env.mono hcontinues.toGrows) s.trace) hfaults

theorem allocateGlobals (h : M.States reads s t) (hlost : M.lost = []) (pairs : List (Ident × Rhs)) :
    M.Outcomes (fun _ => False) Same (Exec.allocateGlobals pairs s) (Exec.allocateGlobals pairs t) := by
  obtain ⟨hgrown, haddrs⟩ := h.reserveAll pairs.length
  have hcontinues := M.continues_link s.heap.size pairs.length
  have hglobals : (M.link s.heap.size pairs.length).Envs s.globals t.globals := by
    intro key
    refine hgrown.globals key ?_
    rw [hcontinues.lost_eq, hlost]
    exact List.not_mem_nil
  have hdeclared : (M.link s.heap.size pairs.length).States (fun _ => False)
      ((Exec.declared s pairs).grow (List.replicate pairs.length none))
      ((Exec.declared t pairs).grow (List.replicate pairs.length none)) :=
    { hgrown.forget with globals := fun key _ => hglobals.extend (pairs_references haddrs) key }
  rw [Exec.allocateGlobals, Exec.bind_of_ok (Exec.declare_global pairs s),
    Exec.bind_of_ok (Exec.declare_global pairs t)]
  refine (hdeclared.define (members_numbered haddrs) fun m _ N s' t' hgrew h' => ?_).after hcontinues
  have hnone : N.lost = [] := by rw [hgrew.lost_eq, hcontinues.lost_eq, hlost]
  have hbuilt : ∀ s'' t'', N.States (fun _ => False) s'' t'' →
      N.Outcomes (fun _ => True) Objects (Exec.build m.2.1 m.2.2 s'') (Exec.build m.2.1 m.2.2 t'') := by
    intro s'' t'' h''
    have hall : N.States (fun _ => True) s'' t'' := h''.readAll hnone
    exact hall.build m.2.1 fun _ _ _ => trivial
  exact h'.within m.2.1 .empty hbuilt

end States

theorem Machines.load {m n : Machine} (h : M.Machines m n) (hlost : M.lost = []) (p : Program) :
    M.Results Same (some (Machine.load p m)) (some (Machine.load p n)) := by
  have hallocates := h.states.allocateGlobals hlost p.pairs
  generalize hm : Exec.allocateGlobals p.pairs m.state = first at hallocates
  generalize hn : Exec.allocateGlobals p.pairs n.state = second at hallocates
  cases hallocates with
  | ok hcontinues h' hsame =>
      rw [Machine.load_of_ok hm, Machine.load_of_ok hn]
      exact .returned hcontinues { h with states := h', entry := rfl } hsame
  | error hcontinues h' hfaults =>
      rw [Machine.load_of_error hm, Machine.load_of_error hn]
      exact .failed hcontinues { h with states := h' } hfaults

/-! ## Calls that are compared with themselves -/

/-- What a call gives back corresponds to itself after the call. -/
theorem Results.self {m' : Machine} {reply : Reply} {result : Option (Outcome Machine α)}
    {V : Matching → α → α → Prop} {values : α → List Atom} (h : M.Results V result result)
    (hvalues : ∀ N a b, V N a b → List.Forall₂ N.Atoms (values a) (values b))
    (hreply : result.map (Reply.ofOutcome values) = some (reply, m')) :
    ∃ N, M.Continues N ∧ N.Machines m' m' ∧
      ∀ atoms, reply = .ok atoms → List.Forall₂ N.Atoms atoms atoms := by
  cases h with
  | running => cases hreply
  | @returned N a _ m' _ hcontinues hmachines hvalue =>
      cases hreply
      refine ⟨N, hcontinues, hmachines, fun atoms heq => ?_⟩
      cases heq
      exact hvalues N a a hvalue
  | @failed N _ _ m' _ hcontinues hmachines _ =>
      cases hreply
      exact ⟨N, hcontinues, hmachines, fun atoms heq => by cases heq⟩

/-- A machine that corresponds to itself goes on to do so if what is passed in does. -/
theorem Machines.perform_self {m m' : Machine} {command : Command} {reply : Reply} {fuel : Nat}
    (h : M.Machines m m) (hlost : M.lost = []) (hpassed : ∀ a ∈ command.passed, M.Atoms a a)
    (hperforms : command.perform fuel m = some (reply, m')) :
    ∃ N, M.Continues N ∧ N.Machines m' m' ∧
      ∀ atoms, reply = .ok atoms → List.Forall₂ N.Atoms atoms atoms := by
  have havoids : ∀ d : Snapshot, d.avoids M.lost = true := by
    rw [hlost]
    exact avoids_nil
  cases command with
  | load p => exact (h.load hlost p).self (fun _ _ _ _ => .nil) hperforms
  | runEntry =>
      have hentry : ∀ x, m.entry = some x → x.isToken = false → x.key ∈ M.lost →
          (m.state.env.find? x.key).isSome := by
        rw [hlost]
        exact fun _ _ _ hmem => absurd hmem List.not_mem_nil
      exact (h.runEntry fuel hentry fun d _ => havoids d).self (fun _ _ _ hvalues => hvalues) hperforms
  | eval name env e =>
      have henv : M.Envs env env := by
        intro key
        cases hfound : env.find? key with
        | none => exact .none
        | some a =>
            obtain ⟨before, after, hentries, -⟩ := List.lookup_eq_some_iff.1 hfound
            refine .some (hpassed a (List.mem_map.2 ⟨(key, a), ?_, rfl⟩))
            rw [hentries]
            exact List.mem_append_right _ List.mem_cons_self
      exact (h.runScoped fuel name henv (.eval e) fun d _ => havoids d).self
        (fun _ _ _ hvalues => hvalues) hperforms
  | force a =>
      have ha := hpassed a (List.mem_singleton_self a)
      exact (h.force fuel ha fun d _ => havoids d).self (fun _ _ _ hvalue => .cons hvalue .nil) hperforms

end Matching

/-! ## Sessions -/

/-- Every atom that a caller passes in is plain or was returned by an earlier call. -/
def Honest : List Event → Prop
  | [] => True
  | event :: earlier =>
    Honest earlier ∧
      ∀ a ∈ event.command.passed, a.isPlain = true ∨ ∃ old ∈ earlier, a ∈ old.returned

/-- A machine of a session corresponds to itself, and so do the atoms that its calls returned. -/
structure Matching.Mirrors (M : Matching) (events : List Event) (m : Machine) : Prop where
  addr : M.addr = id
  lost : M.lost = []
  machines : M.Machines m m
  returned : ∀ event ∈ events, ∀ a ∈ event.returned, M.Atoms a a

section Session

variable {config : Config} {events : List Event} {m : Machine}

/-- A fresh machine holds nothing that could be matched. -/
theorem Matching.mirrors_new (config : Config) (host : Host) :
    ∃ M : Matching, M.Mirrors [] (.new config host) := by
  let M : Matching := ⟨id, Function.injective_id, fun _ => False, fun _ _ _ => False, []⟩
  have hstates : M.States (fun _ => False) (Machine.new config host).state (Machine.new config host).state :=
    { bound := fun _ ha => ha.elim
      fresh := fun _ => rfl
      object := fun _ ha => ha.elim
      literal := fun _ _ _ hij => hij.elim
      distinct := List.nodup_nil
      distinct' := List.nodup_nil
      env := .empty
      globals := fun _ _ => .none
      held := fun _ hread => hread.elim
      frames := .nil
      cells := ⟨.empty, .empty, fun kind => by cases kind <;> exact .empty, rfl, rfl⟩
      trace := rfl
      traceLimit := rfl
      maxStackDepth := rfl
      thread := rfl }
  have hregistry : (Machine.new config host).registry = .standard host := by
    rw [Machine.new, Machine.withRegistry]
  exact ⟨M, rfl, rfl, ⟨hstates, ⟨host, hregistry⟩, rfl, rfl, rfl, rfl⟩,
    fun _ h => absurd h List.not_mem_nil⟩

/-- The machines of a session of honest callers correspond to themselves. -/
theorem Session.mirrors (h : Session config events m) (hhonest : Honest events) :
    ∃ M : Matching, M.Mirrors events m := by
  induction h with
  | fresh host => exact Matching.mirrors_new config host
  | @call events m m' command reply fuel _ hperforms ih =>
      obtain ⟨hearlier, hpassed⟩ := hhonest
      obtain ⟨M, hM⟩ := ih hearlier
      have hself : ∀ a ∈ command.passed, M.Atoms a a := by
        intro a ha
        rcases hpassed a ha with hplain | ⟨old, hold, hreturned⟩
        · exact .plain hplain
        · exact hM.returned old hold a hreturned
      obtain ⟨N, hcontinues, hmachines, hvalues⟩ := hM.machines.perform_self hM.lost hself hperforms
      refine ⟨N, hcontinues.addr_eq.trans hM.addr, hcontinues.lost_eq.trans hM.lost, hmachines, ?_⟩
      intro event hevent a ha
      rcases List.mem_cons.1 hevent with rfl | hold
      · cases reply with
        | ok atoms => exact List.forall₂_same.1 (hvalues atoms rfl) a ha
        | error e => exact absurd ha List.not_mem_nil
      · exact (hM.returned event hold a ha).mono hcontinues.toGrows

end Session

/-! ## After a failed load -/

/-- Numbers from `size` on moved up by `n`. -/
def moveUp (size n a : Nat) : Nat := if a < size then a else a + n

theorem moveUp_injective (size n : Nat) : Function.Injective (moveUp size n) := by
  intro a b hab
  unfold moveUp at hab
  split at hab <;> split at hab <;> omega

theorem moveUp_of_lt {size a : Nat} (n : Nat) (h : a < size) : moveUp size n a = a := if_pos h

theorem moveUp_add (size n i : Nat) : moveUp size n (size + i) = size + n + i := by
  rw [moveUp, if_neg (Nat.not_lt.2 (Nat.le_add_right _ _)), Nat.add_right_comm]

namespace Matching

/-- The matching of a store with the one in which `n` more addresses were handed out: what is matched stays
where it is, and later addresses are moved up. -/
def displaced (M : Matching) (size n : Nat) (lost : List String) : Matching where
  addr := moveUp size n
  injective := moveUp_injective size n
  live := M.live
  literal := M.literal
  lost := lost

variable {M : Matching} {s t : State} {e : Fault} {pairs : List (Ident × Rhs)}

/-- A failed load leaves a state that corresponds to the one before, except for what it declared. -/
theorem States.failedLoad (h : M.States (fun _ => False) s s) (haddr : M.addr = id) (hlost : M.lost = [])
    (hfails : Exec.allocateGlobals pairs s = .error e t) :
    (M.displaced s.heap.size pairs.length (keys (pairs.map Prod.fst))).States (fun _ => False) s t := by
  have hself := h.allocateGlobals hlost pairs
  rw [hfails] at hself
  obtain ⟨strings, done, x, rhs, rest, objects, hpairs, hdone, rfl, -⟩ :=
    Exec.allocateGlobals_eq_error hfails
  have hlength : (objects.map some ++ List.replicate (rest.length + 1) none).length = pairs.length := by
    rw [hpairs, List.length_append, List.length_append, List.length_map, List.length_replicate,
      hdone.length_eq, List.length_cons]
  generalize objects.map some ++ List.replicate (rest.length + 1) none = slots at hself hlength ⊢
  have hstays : ∀ {a}, M.live a → moveUp s.heap.size pairs.length a = a :=
    fun ha => moveUp_of_lt _ (h.bound _ ha)
  have hgrows : M.Grows (M.displaced s.heap.size pairs.length (keys (pairs.map Prod.fst))) :=
    ⟨fun ha => (hstays ha).trans (congrFun haddr _).symm, id, id⟩
  cases hself with
  | @error N _ _ _ _ hcontinues h' _ =>
      refine { h with
        fresh := ?_, object := ?_, literal := ?_, distinct' := h'.distinct, env := h.env.mono hgrows
        globals := ?_, frames := h.frames.imp fun _ _ hf => hf.mono hgrows, cells := h.cells.mono hgrows
        held := fun _ hread => hread.elim }
      · intro i
        rw [State.heap_size_grow, hlength]
        exact moveUp_add _ _ i
      · intro a ha
        change Option.Rel _ _ (State.object? _ (moveUp s.heap.size pairs.length a))
        have hobject := h.object a ha
        rw [haddr] at hobject
        have hold : a < ((Exec.declared s pairs).withStrings strings).heap.size := h.bound a ha
        rw [hstays ha, State.object?_grow_of_lt hold]
        exact rel_mono (fun _ _ ho => ho.mono hgrows) hobject
      · intro i j bytes hij
        exact ⟨(h.literal i j bytes hij).1, (h'.literal i j bytes (hcontinues.literal hij)).2⟩
      · -- What the load did not declare is still bound as before.
        intro key hkey
        have hnot : key ∉ keys ((references s.heap.size pairs).map Prod.fst) := by
          rw [map_fst_references]
          exact hkey
        have hglobal := h.globals key (by rw [hlost]; exact List.not_mem_nil)
        change Option.Rel _ _ ((s.globals.extend (references s.heap.size pairs)).find? key)
        rw [Env.find?_extend_of_notMem hnot]
        exact rel_mono (fun _ _ hab => hab.mono hgrows) hglobal

end Matching

/-! ## Texts of results -/

/-- Whether the text of a result shows no address and no number of a literal. -/
def Machine.showsPlain (m : Machine) : Atom → Bool
  | .ptr a =>
    match m.state.object? a with
    | some (.con _ args) => args.all Atom.isPlain
    | some _ => true
    | none => false
  | a => a.isPlain

theorem Matching.eq_of_all_plain {M : Matching} {as bs : List Atom} (h : List.Forall₂ M.Atoms as bs)
    (hplain : as.all Atom.isPlain = true) : bs = as := by
  induction h with
  | nil => rfl
  | cons hab _ ih =>
      obtain ⟨ha, hrest⟩ := Bool.and_eq_true_iff.1 hplain
      rw [(atoms_plain_iff ha).1 hab, ih hrest]

/-- Corresponding results have the same text if it shows no address and no number of a literal. -/
theorem Matching.Machines.render {M : Matching} {m n : Machine} (h : M.Machines m n) {a b : Atom}
    (hab : M.Atoms a b) (hplain : m.showsPlain a = true) : n.render b = m.render a := by
  cases hab with
  | str | stable => cases hplain
  | plain ha =>
      cases a with
      | ptr | str | stable => cases ha
      | _ => rfl
  | @ptr a hlive =>
      have hobject := h.states.object a hlive
      unfold Machine.render
      unfold Machine.showsPlain at hplain
      simp only at hplain ⊢
      generalize m.state.object? a = o at hobject hplain ⊢
      generalize n.state.object? (M.addr a) = o' at hobject ⊢
      cases hobject with
      | none => cases hplain
      | some ho =>
          cases ho with
          | con k hfields => rw [eq_of_all_plain hfields hplain]
          | closure hclosures =>
              simp only [Object.summary, hclosures.shape, hclosures.name]
          | blackhole _ => rfl

/-- Values that correspond to values whose texts show no address have the same texts. -/
theorem Matching.Machines.renderAll {M : Matching} {m n : Machine} (h : M.Machines m n) {as bs : List Atom}
    (hvalues : List.Forall₂ M.Atoms as bs) (hplain : as.all m.showsPlain = true) :
    bs.map n.render = as.map m.render := by
  induction hvalues with
  | nil => rfl
  | cons hab _ ih =>
      obtain ⟨ha, hrest⟩ := Bool.and_eq_true_iff.1 hplain
      rw [List.map_cons, List.map_cons, h.render hab ha, ih hrest]

/-! ## The entry after a failed load -/

/-- A run of the entry goes as it would have gone without the failed load, up to the addresses and the
literals that come later, if it looks up nothing at top level that the failed load declared. It takes as
many transitions, its values or the cause of its failure correspond, and its values have the same text if
the text shows neither addresses nor numbers of literals. -/
theorem Session.runEntry_after_failed_load {config : Config} {events : List Event} {m m' : Machine}
    (h : Session config events m) (hhonest : Honest events) {p : Program} {e : Fault}
    (hfails : Machine.load p m = .error e m')
    (hentry : ∀ x, m.entry = some x → x.isToken = false → x.key ∉ p.tops)
    (havoids : ∀ d, m.Visits d → d.avoids p.tops = true) (fuel : Nat) :
    (∃ M : Matching, M.addr = moveUp m.state.heap.size p.pairs.length ∧ M.lost = p.tops ∧
      M.Results (fun N => List.Forall₂ N.Atoms) (m.runEntry fuel) (m'.runEntry fuel)) ∧
    ∀ atoms n, m.runEntry fuel = some (.ok atoms n) → atoms.all n.showsPlain = true →
      ∃ atoms' n', m'.runEntry fuel = some (.ok atoms' n') ∧ n'.steps = n.steps ∧
        atoms'.map n'.render = atoms.map n.render := by
  obtain ⟨M, hM⟩ := h.mirrors hhonest
  cases hallocates : Exec.allocateGlobals p.pairs m.state with
  | ok u s =>
      rw [Machine.load_of_ok hallocates] at hfails
      cases hfails
  | error f t =>
      rw [Machine.load_of_error hallocates] at hfails
      cases hfails
      have hstates := hM.machines.states.failedLoad hM.addr hM.lost hallocates
      have hmachines : (M.displaced m.state.heap.size p.pairs.length p.tops).Machines m
          { m with state := t } := { hM.machines with states := hstates }
      have hresults := hmachines.runEntry fuel
        (fun x hx htoken hlost => absurd hlost (hentry x hx htoken)) havoids
      refine ⟨⟨_, rfl, rfl, hresults⟩, fun atoms n hrun hplain => ?_⟩
      rw [hrun] at hresults
      generalize Machine.runEntry fuel { m with state := t } = result at hresults ⊢
      cases hresults with
      | returned _ hreturned hvalues =>
          exact ⟨_, _, rfl, hreturned.steps, hreturned.renderAll hvalues hplain⟩

section Check

variable {r : Registry} {base : Nat} {check : Snapshot → Bool} {c d : Snapshot} {n : Nat}

/-- Whether a run ends within a number of transitions, with all its snapshots passing a check. -/
def Snapshot.allPass (r : Registry) (base : Nat) (check : Snapshot → Bool) : Nat → Snapshot → Bool
  | 0, _ => false
  | n + 1, c => check c && (c.next? r base).all (allPass r base check n)

theorem Snapshot.check_of_allPass (h : allPass r base check n c = true) (hreach : Reaches r base c d) :
    check d = true := by
  induction n generalizing c with
  | zero => cases h
  | succ n ih =>
      obtain ⟨hfirst, hrest⟩ := Bool.and_eq_true_iff.1 h
      rcases hreach.cases_head with rfl | ⟨b, hsteps, hreach⟩
      · exact hfirst
      · have hnext : c.next? r base = some b := by
          unfold Steps at hsteps
          unfold next?
          rw [hsteps]
        rw [hnext] at hrest
        exact ih hrest hreach

/-- Whether the entry has none of the keys and ends within a number of transitions without looking up any
of them at top level. -/
def Machine.entryAvoids (lost : List String) (n : Nat) (m : Machine) : Bool :=
  m.entry.all (fun x => x.isToken || !lost.contains x.key) &&
    (Command.runEntry.start? m).all (allPass m.registry m.state.stack.depth (avoids lost) n)

theorem Machine.of_entryAvoids {m : Machine} {lost : List String} (h : m.entryAvoids lost n = true) :
    (∀ x, m.entry = some x → x.isToken = false → x.key ∉ lost) ∧
      ∀ d, m.Visits d → d.avoids lost = true := by
  obtain ⟨hentry, hruns⟩ := Bool.and_eq_true_iff.1 h
  constructor
  · intro x hx htoken hlost
    rw [hx, Option.all_some, htoken, List.contains_iff_mem.2 hlost] at hentry
    cases hentry
  · rintro d ⟨start, hstart, hreach⟩
    rw [hstart, Option.all_some] at hruns
    exact check_of_allPass hruns hreach

end Check

theorem Honest.of_passed_isEmpty {events : List Event}
    (h : events.all (fun event => event.command.passed.isEmpty) = true) : Honest events := by
  induction events with
  | nil => trivial
  | cons event earlier ih =>
      obtain ⟨hevent, hearlier⟩ := Bool.and_eq_true_iff.1 h
      refine ⟨ih hearlier, fun a ha => ?_⟩
      rw [List.isEmpty_iff.1 hevent] at ha
      exact absurd ha List.not_mem_nil

/-- The machine after a failed load. -/
def Machine.failedLoad? (p : Program) (m : Machine) : Option Machine :=
  match load p m with
  | .error _ m' => some m'
  | .ok _ _ => none

theorem Machine.load_of_failedLoad? {m m' : Machine} {p : Program} (h : m.failedLoad? p = some m') :
    ∃ e, load p m = .error e m' := by
  unfold failedLoad? at h
  split at h
  · next e n hload =>
    cases h
    exact ⟨e, hload⟩
  · cases h

/-- Whether a run came back with values whose texts show no address, in a number of transitions. -/
def Outcome.returnsPlain (steps : Nat) : Outcome Machine (List Atom) → Bool
  | .ok atoms n => n.steps == steps && atoms.all n.showsPlain
  | .error _ _ => false

theorem Outcome.exists_of_returnsPlain {steps : Nat} {outcome : Outcome Machine (List Atom)}
    (h : outcome.returnsPlain steps = true) :
    ∃ atoms n, outcome = .ok atoms n ∧ n.steps = steps ∧ atoms.all n.showsPlain = true := by
  cases outcome with
  | error e n => cases h
  | ok atoms n =>
      obtain ⟨hsteps, hplain⟩ := Bool.and_eq_true_iff.1 h
      exact ⟨atoms, n, rfl, beq_iff_eq.1 hsteps, hplain⟩

/-- Whether a run failed for want of an object at an address, in a number of transitions. -/
def Outcome.misses (a : Addr) (steps : Nat) : Outcome Machine (List Atom) → Bool
  | .error ⟨.unknownAddress b, _⟩ n => b == a && n.steps == steps
  | _ => false

theorem Outcome.exists_of_misses {a : Addr} {steps : Nat} {outcome : Outcome Machine (List Atom)}
    (h : outcome.misses a steps = true) :
    ∃ f n, outcome = .error f n ∧ f.cause = .unknownAddress a ∧ n.steps = steps := by
  unfold misses at h
  split at h
  · next b trace n =>
    obtain ⟨hb, hsteps⟩ := Bool.and_eq_true_iff.1 h
    exact ⟨_, n, rfl, congrArg Cause.unknownAddress (beq_iff_eq.1 hb), beq_iff_eq.1 hsteps⟩
  · cases h

/-- A program that binds one variable and cannot be loaded, for want of another one. -/
def unloadable (name : String) : Program :=
  ⟨[.nonRec (.ofName name) (.closure [.ofName "ghost"] ⟨[], .conApp ⟨"()", 1, 0⟩ []⟩)], .ofName name⟩

/-- The unit value, by way of a local variable. -/
def localUnit : Expr :=
  .letIn (.nonRec (.ofName "x") (.con ⟨"()", 1, 0⟩ [])) (.app (.ofName "x") [])

/-- A failed load of a variable with the name of a local one. -/
theorem Session.runEntry_after_failed_load_local :
    ∃ events m e m' atoms n atoms' n', Session.play {} 10 [.load (entryThunk localUnit)] = some (events, m) ∧
      Machine.load (unloadable "x") m = .error e m' ∧ m.runEntry 10 = some (.ok atoms n) ∧
      m'.runEntry 10 = some (.ok atoms' n') ∧ n'.steps = n.steps ∧
      atoms'.map n'.render = atoms.map n.render := by
  have hplayed : (Session.play {} 10 [.load (entryThunk localUnit)]).any (fun result =>
      result.1.all (fun event => event.command.passed.isEmpty) &&
        (result.2.failedLoad? (unloadable "x")).isSome &&
        result.2.entryAvoids (unloadable "x").tops 10 &&
        (result.2.runEntry 10).any (Outcome.returnsPlain 6)) := by
    decide +kernel
  obtain ⟨⟨events, m⟩, hplay, hresult⟩ := (Option.any_eq_true _ _).1 hplayed
  simp only [Bool.and_eq_true] at hresult
  obtain ⟨⟨⟨hpassed, hfails⟩, havoids⟩, hruns⟩ := hresult
  obtain ⟨m', hm'⟩ := Option.isSome_iff_exists.1 hfails
  obtain ⟨e, hload⟩ := Machine.load_of_failedLoad? hm'
  obtain ⟨hentry, hvisits⟩ := Machine.of_entryAvoids havoids
  obtain ⟨outcome, hrun, hplain⟩ := (Option.any_eq_true _ _).1 hruns
  obtain ⟨atoms, n, rfl, -, hplain⟩ := Outcome.exists_of_returnsPlain hplain
  obtain ⟨atoms', n', hrun', hsteps, hrender⟩ :=
    (Session.runEntry_after_failed_load (Session.of_play hplay) (.of_passed_isEmpty hpassed) hload hentry
      hvisits 10).2 atoms n hrun hplain
  exact ⟨events, m, e, m', atoms, n, atoms', n', hplay, hload, hrun, hrun', hsteps, hrender⟩

/-- A failed load of a variable with the name of the entry: the entry returned the unit value before, and
now there is no object where it is looked for. -/
theorem Session.runEntry_after_failed_load_clash :
    ∃ events m e m' atoms n f n', Session.play {} 10 [.load (entryThunk (.conApp ⟨"()", 1, 0⟩ []))] =
        some (events, m) ∧ Machine.load (unloadable "main") m = .error e m' ∧
      m.runEntry 10 = some (.ok atoms n) ∧ n.steps = 4 ∧
      m'.runEntry 10 = some (.error f n') ∧ f.cause = .unknownAddress 1 ∧ n'.steps = 1 ∧
      ¬ ∃ M : Matching, M.Results (fun N => List.Forall₂ N.Atoms) (m.runEntry 10) (m'.runEntry 10) := by
  have hplayed : (Session.play {} 10 [.load (entryThunk (.conApp ⟨"()", 1, 0⟩ []))]).any (fun result =>
      (result.2.runEntry 10).any (Outcome.returnsPlain 4) &&
        (result.2.failedLoad? (unloadable "main")).any fun m' =>
          (m'.runEntry 10).any (Outcome.misses 1 1)) := by
    decide +kernel
  obtain ⟨⟨events, m⟩, hplay, hresult⟩ := (Option.any_eq_true _ _).1 hplayed
  obtain ⟨hbefore, hafter⟩ := Bool.and_eq_true_iff.1 hresult
  obtain ⟨m', hm', hafter⟩ := (Option.any_eq_true _ _).1 hafter
  obtain ⟨e, hload⟩ := Machine.load_of_failedLoad? hm'
  obtain ⟨outcome, hrun, hreturns⟩ := (Option.any_eq_true _ _).1 hbefore
  obtain ⟨atoms, n, rfl, hsteps, -⟩ := Outcome.exists_of_returnsPlain hreturns
  obtain ⟨outcome', hrun', hmisses⟩ := (Option.any_eq_true _ _).1 hafter
  obtain ⟨f, n', rfl, hcause, hsteps'⟩ := Outcome.exists_of_misses hmisses
  refine ⟨events, m, e, m', atoms, n, f, n', hplay, hload, hrun, hsteps, hrun', hcause, hsteps', ?_⟩
  rintro ⟨M, hresults⟩
  rw [hrun, hrun'] at hresults
  cases hresults

end Spineless
