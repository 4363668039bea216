import Spineless.Proofs.PrimOp.Writers

/-!
# Synchronising variables are one-place buffers

A log of calls is read for the values that went into a synchronising variable (`Entry.puts`) and those
that came out of it (`Entry.takes`). One law carries everything: what the variable holds before a call,
followed by what the call puts in, is what the call takes out, followed by what the variable holds
afterwards (`Entry.Conserves`). A call that does not write into synchronising variables, or writes into
another one, moves nothing. Over a log the law adds up, so the values come out in the order in which they
went in and at most one is inside.
-/

namespace Spineless

open PrimOp

variable {host : Host}

/-- The state with other contents of a synchronising variable. -/
def State.withMVar (s : State) (h : Handle) (contents : Option Atom) : State :=
  { s with spaces := { s.spaces with mvars := s.spaces.mvars.setIfInBounds h contents } }

/-! ## What goes in and what comes out -/

namespace Entry

variable {h : Handle} {entry : Entry}

/-- The value that a call put into a synchronising variable: that of a put that succeeded, or of an attempt
that answered 1. -/
def put? (h : Handle) (entry : Entry) : Option Atom :=
  match entry.call.name, entry.call.args, entry.outcome with
  | "putMVar#", .mvar k :: value :: _, .ok _ => if k = h then some value else none
  | "tryPutMVar#", .mvar k :: value :: _, .ok (.int n :: _) =>
    if k = h ∧ n = 1 then some value else none
  | _, _, _ => none

/-- The value that a call took out of a synchronising variable: what a take that succeeded gave back, or
an attempt that answered 1. -/
def taken? (h : Handle) (entry : Entry) : Option Atom :=
  match entry.call.name, entry.call.args, entry.outcome with
  | "takeMVar#", .mvar k :: _, .ok (value :: _) => if k = h then some value else none
  | "tryTakeMVar#", .mvar k :: _, .ok (.int n :: value :: _) =>
    if k = h ∧ n = 1 then some value else none
  | _, _, _ => none

/-- Only the four operations that write into synchronising variables move values. -/
theorem moves_nothing {call : Call} (hname : call.name ∉ Space.mvar.writers)
    (outcome : Except Fault (List Atom)) :
    put? h ⟨call, outcome⟩ = none ∧ taken? h ⟨call, outcome⟩ = none := by
  simp only [Space.writers, List.mem_cons, List.not_mem_nil, or_false, not_or] at hname
  constructor
  · unfold put?
    split <;> simp_all
  · unfold taken?
    split <;> simp_all

/-- The values that went into a synchronising variable, in order. -/
def puts (h : Handle) (log : List Entry) : List Atom := log.filterMap (put? h)

/-- The values that came out of a synchronising variable, in order. -/
def takes (h : Handle) (log : List Entry) : List Atom := log.filterMap (taken? h)

/-- Nothing is lost or doubled: what a variable held and what went in is what came out and what it
holds. -/
def Conserves (h : Handle) (old : Option Atom) (log : List Entry) (new : Option Atom) : Prop :=
  old.toList ++ puts h log = takes h log ++ new.toList

theorem Conserves.nil (h : Handle) (contents : Option Atom) : Conserves h contents [] contents :=
  List.append_nil _

/-- The law for one call and the law for the rest add up. -/
theorem Conserves.cons {old mid new : Option Atom} {log : List Entry}
    (hentry : old.toList ++ (entry.put? h).toList = (entry.taken? h).toList ++ mid.toList)
    (hlog : Conserves h mid log new) : Conserves h old (entry :: log) new := by
  have hputs : puts h (entry :: log) = (entry.put? h).toList ++ puts h log := by
    cases hput : entry.put? h <;> simp [puts, hput]
  have htakes : takes h (entry :: log) = (entry.taken? h).toList ++ takes h log := by
    cases htaken : entry.taken? h <;> simp [takes, htaken]
  calc old.toList ++ puts h (entry :: log)
      = (old.toList ++ (entry.put? h).toList) ++ puts h log := by rw [hputs, List.append_assoc]
    _ = (entry.taken? h).toList ++ (mid.toList ++ puts h log) := by rw [hentry, List.append_assoc]
    _ = (entry.taken? h).toList ++ (takes h log ++ new.toList) := by rw [hlog]
    _ = takes h (entry :: log) ++ new.toList := by rw [htakes, List.append_assoc]

end Entry

/-! ## The operations -/

namespace PrimOp.MVarOp

/-- The name of an operation. -/
def name : MVarOp → String
  | new => "newMVar#"
  | take => "takeMVar#"
  | put => "putMVar#"
  | read => "readMVar#"
  | tryTake => "tryTakeMVar#"
  | tryPut => "tryPutMVar#"
  | tryRead => "tryReadMVar#"
  | isEmpty => "isEmptyMVar#"

theorem ofName?_name (op : MVarOp) : ofName? op.name = some op := by
  cases op <;> rfl

/-- The operations that write into synchronising variables are of this family. -/
theorem exists_of_mem_writers {n : String} (h : n ∈ Space.mvar.writers) : ∃ op : MVarOp, n = op.name := by
  simp only [Space.writers, List.mem_cons, List.not_mem_nil, or_false] at h
  rcases h with rfl | rfl | rfl | rfl
  exacts [⟨.take, rfl⟩, ⟨.put, rfl⟩, ⟨.tryTake, rfl⟩, ⟨.tryPut, rfl⟩]

variable {call : Call} {s t : State} {h k : Handle} {old found : Option Atom} {atoms : List Atom}

theorem readMVar_apply (hfound : s.spaces.mvars[h]? = some found) : Exec.readMVar h s = .ok found s :=
  Exec.orFail_eq_ok.2 ⟨hfound, rfl⟩

/-- A synchronising variable that is there can be written. -/
theorem writeMVar_apply (hfound : s.spaces.mvars[h]? = some found) (new : Option Atom) :
    Exec.writeMVar h new s = .ok () (s.withMVar h new) := by
  rw [Exec.writeMVar, Exec.bind_of_ok (readMVar_apply hfound)]
  rfl

theorem run_take (hargs : call.args = [.mvar h, .void]) (hfound : s.spaces.mvars[h]? = some found) :
    run .take call s =
      match found with
      | some value => .ok (some [value]) (s.withMVar h none)
      | none => .error ⟨.wouldBlock call.name h, s.trace⟩ s := by
  unfold run
  simp only [hargs]
  rw [Exec.bind_of_ok (readMVar_apply hfound)]
  cases found with
  | none => rfl
  | some value => exact Exec.bind_of_ok (writeMVar_apply hfound none)

theorem run_read (hargs : call.args = [.mvar h, .void]) (hfound : s.spaces.mvars[h]? = some found) :
    run .read call s =
      match found with
      | some value => .ok (some [value]) s
      | none => .error ⟨.wouldBlock call.name h, s.trace⟩ s := by
  unfold run
  simp only [hargs]
  rw [Exec.bind_of_ok (readMVar_apply hfound)]
  cases found <;> rfl

theorem run_put {value : Atom} (hargs : call.args = [.mvar h, value, .void])
    (hfound : s.spaces.mvars[h]? = some found) :
    run .put call s =
      match found with
      | some _ => .error ⟨.wouldBlock call.name h, s.trace⟩ s
      | none => .ok (some []) (s.withMVar h (some value)) := by
  unfold run
  simp only [hargs]
  rw [Exec.bind_of_ok (readMVar_apply hfound)]
  cases found with
  | none => exact Exec.bind_of_ok (writeMVar_apply hfound (some value))
  | some _ => rfl

theorem run_tryTake (hargs : call.args = [.mvar h, .void]) (hfound : s.spaces.mvars[h]? = some found) :
    run .tryTake call s =
      match found with
      | some value => .ok (some [.int 1, value]) (s.withMVar h none)
      | none => .ok (some [.int 0, .void]) s := by
  unfold run
  simp only [hargs]
  rw [Exec.bind_of_ok (readMVar_apply hfound)]
  cases found with
  | none => rfl
  | some value => exact Exec.bind_of_ok (writeMVar_apply hfound none)

theorem run_tryRead (hargs : call.args = [.mvar h, .void]) (hfound : s.spaces.mvars[h]? = some found) :
    run .tryRead call s =
      match found with
      | some value => .ok (some [.int 1, value]) s
      | none => .ok (some [.int 0, .void]) s := by
  unfold run
  simp only [hargs]
  rw [Exec.bind_of_ok (readMVar_apply hfound)]
  cases found <;> rfl

theorem run_tryPut {value : Atom} (hargs : call.args = [.mvar h, value, .void])
    (hfound : s.spaces.mvars[h]? = some found) :
    run .tryPut call s =
      match found with
      | some _ => .ok (some [.int 0]) s
      | none => .ok (some [.int 1]) (s.withMVar h (some value)) := by
  unfold run
  simp only [hargs]
  rw [Exec.bind_of_ok (readMVar_apply hfound)]
  cases found with
  | none => exact Exec.bind_of_ok (writeMVar_apply hfound (some value))
  | some _ => rfl

theorem run_isEmpty (hargs : call.args = [.mvar h, .void]) (hfound : s.spaces.mvars[h]? = some found) :
    run .isEmpty call s = .ok (some [.int (if found.isNone then 1 else 0)]) s := by
  unfold run
  simp only [hargs]
  rw [Exec.bind_of_ok (readMVar_apply hfound)]
  rfl

/-- An operation that reads a synchronising variable first is answered only if the variable is there. -/
theorem exists_mvar_of_bind {f : Option Atom → Exec Answer}
    (hrun : (Exec.readMVar k >>= f) s = .ok (some atoms) t) : ∃ found, s.spaces.mvars[k]? = some found := by
  obtain ⟨found, u, hread, -⟩ := Exec.bind_eq_ok.1 hrun
  exact ⟨found, (Exec.orFail_eq_ok.1 hread).1⟩

/-- A new synchronising variable is empty. -/
theorem mvar_of_new (hrun : run .new call s = .ok (some [.mvar h]) t) : t.spaces.mvars[h]? = some none := by
  generalize hop : MVarOp.new = op at hrun
  revert hrun
  fun_cases MVarOp.run op call with
  | case1 =>
      rintro ⟨⟩
      simp
  | case9 => rintro ⟨⟩
  | case2 | case3 | case4 | case5 | case6 | case7 | case8 => cases hop

/-! ## What one call moves -/

/-- A write into one synchronising variable obeys the law at all of them, if it does at its own and moves
nothing at the others. -/
theorem exists_mvar_withMVar {new : Option Atom} {entry : Entry} (hold : s.spaces.mvars[h]? = some old)
    (hfound : s.spaces.mvars[k]? = some found)
    (hsame : k = h → found.toList ++ (entry.put? h).toList = (entry.taken? h).toList ++ new.toList)
    (hother : k ≠ h → entry.put? h = none ∧ entry.taken? h = none) :
    ∃ contents, (s.withMVar k new).spaces.mvars[h]? = some contents ∧
      old.toList ++ (entry.put? h).toList = (entry.taken? h).toList ++ contents.toList := by
  by_cases hkh : k = h
  · have hmoves := hsame hkh
    subst hkh
    cases hold.symm.trans hfound
    have hlt : k < s.spaces.mvars.size := (Array.getElem?_eq_some_iff.1 hold).1
    exact ⟨new, by simp [State.withMVar, hlt], hmoves⟩
  · obtain ⟨hput, htaken⟩ := hother hkh
    refine ⟨old, ?_, by simp [hput, htaken]⟩
    rw [State.withMVar, Array.getElem?_setIfInBounds_ne hkh]
    exact hold

/-- An answered operation that writes into synchronising variables obeys the law at every one of them. -/
theorem conserves_of_run {op : MVarOp} (hop : call.name = op.name) (hwriter : op.name ∈ Space.mvar.writers)
    (hrun : op.run call s = .ok (some atoms) t) (hold : s.spaces.mvars[h]? = some old) :
    ∃ new, t.spaces.mvars[h]? = some new ∧
      old.toList ++ (Entry.put? h ⟨call, .ok atoms⟩).toList =
        (Entry.taken? h ⟨call, .ok atoms⟩).toList ++ new.toList := by
  have hbind := hrun
  revert hbind
  fun_cases MVarOp.run op call with
  | case2 k hargs =>
      intro hbind
      obtain ⟨found, hfound⟩ := exists_mvar_of_bind hbind
      rw [run_take hargs hfound] at hrun
      cases found with
      | none => cases hrun
      | some value =>
          cases hrun
          refine exists_mvar_withMVar hold hfound (fun hkh => ?_) (fun hkh => ?_)
          · simp [Entry.put?, Entry.taken?, hop, name, hargs, hkh]
          · simp [Entry.put?, Entry.taken?, hop, name, hargs, hkh]
  | case4 k value hargs =>
      intro hbind
      obtain ⟨found, hfound⟩ := exists_mvar_of_bind hbind
      rw [run_put hargs hfound] at hrun
      cases found with
      | some _ => cases hrun
      | none =>
          cases hrun
          refine exists_mvar_withMVar hold hfound (fun hkh => ?_) (fun hkh => ?_)
          · simp [Entry.put?, Entry.taken?, hop, name, hargs, hkh]
          · simp [Entry.put?, Entry.taken?, hop, name, hargs, hkh]
  | case5 k hargs =>
      intro hbind
      obtain ⟨found, hfound⟩ := exists_mvar_of_bind hbind
      rw [run_tryTake hargs hfound] at hrun
      cases found with
      | none =>
          cases hrun
          exact ⟨old, hold, by simp [Entry.put?, Entry.taken?, hop, name, hargs]⟩
      | some value =>
          cases hrun
          refine exists_mvar_withMVar hold hfound (fun hkh => ?_) (fun hkh => ?_)
          · simp [Entry.put?, Entry.taken?, hop, name, hargs, hkh]
          · simp [Entry.put?, Entry.taken?, hop, name, hargs, hkh]
  | case7 k value hargs =>
      intro hbind
      obtain ⟨found, hfound⟩ := exists_mvar_of_bind hbind
      rw [run_tryPut hargs hfound] at hrun
      cases found with
      | some _ =>
          cases hrun
          exact ⟨old, hold, by simp [Entry.put?, Entry.taken?, hop, name, hargs]⟩
      | none =>
          cases hrun
          refine exists_mvar_withMVar hold hfound (fun hkh => ?_) (fun hkh => ?_)
          · simp [Entry.put?, Entry.taken?, hop, name, hargs, hkh]
          · simp [Entry.put?, Entry.taken?, hop, name, hargs, hkh]
  | case1 | case3 | case6 | case8 => exact absurd hwriter (by decide)
  | case9 => rintro ⟨⟩

end PrimOp.MVarOp

namespace Registry

variable {call : Call} {s t : State} {h : Handle} {old : Option Atom} {atoms : List Atom}

/-- The family of synchronising variables is a standard one. -/
theorem mvarHandler_mem (host : Host) : mvarHandler ∈ standardHandlers host := by simp [standardHandlers]

theorem mvar_evaluate_iff_run (op : MVarOp) (hname : call.name = op.name) :
    (standard host).evaluate call s = .ok atoms t ↔ op.run call s = .ok (some atoms) t := by
  have hop : MVarOp.ofName? call.name = some op := hname ▸ op.ofName?_name
  exact standard_evaluate_iff_run (mvarHandler_mem host)
    (MVarOp.isSome_ofName?_iff.1 (Option.isSome_of_eq_some hop)) hop

theorem mvar_evaluate_of_run_error (op : MVarOp) (hname : call.name = op.name) {e : Fault}
    (hrun : op.run call s = .error e t) : (standard host).evaluate call s = .error e t := by
  have hop : MVarOp.ofName? call.name = some op := hname ▸ op.ofName?_name
  exact standard_evaluate_of_run_error (mvarHandler_mem host)
    (MVarOp.isSome_ofName?_iff.1 (Option.isSome_of_eq_some hop)) hop hrun

/-- An answered call obeys the law at every synchronising variable. -/
theorem standard_conserves (hcall : (standard host).evaluate call s = .ok atoms t)
    (hold : s.spaces.mvars[h]? = some old) :
    ∃ new, t.spaces.mvars[h]? = some new ∧
      old.toList ++ (Entry.put? h ⟨call, .ok atoms⟩).toList =
        (Entry.taken? h ⟨call, .ok atoms⟩).toList ++ new.toList := by
  by_cases hname : call.name ∈ Space.mvar.writers
  · obtain ⟨op, hop⟩ := MVarOp.exists_of_mem_writers hname
    exact MVarOp.conserves_of_run hop (hop ▸ hname) ((mvar_evaluate_iff_run op hop).1 hcall) hold
  · -- The variables are as they were, and nothing went in or came out.
    have hcell := standard_retains hcall hname h (.mvar old) (by simp [Spaces.cell?, hold])
    obtain ⟨new, hnew, heq⟩ := Option.map_eq_some_iff.1 hcell
    cases heq
    obtain ⟨hput, htaken⟩ := Entry.moves_nothing hname (.ok atoms)
    exact ⟨old, hnew, by rw [hput, htaken]; exact List.append_nil _⟩

/-- The calls of a log obey the law together. -/
theorem standard_log_conserves (hold : s.spaces.mvars[h]? = some old) (calls : List Call) :
    ∃ new, ((standard host).log calls s).2.spaces.mvars[h]? = some new ∧
      Entry.Conserves h old ((standard host).log calls s).1 new := by
  refine standard_log_induction (motive := fun s log t => ∀ old, s.spaces.mvars[h]? = some old →
    ∃ new, t.spaces.mvars[h]? = some new ∧ Entry.Conserves h old log new) ?_ ?_ ?_ calls s old hold
  · exact fun s old hold => ⟨old, hold, .nil h old⟩
  · intro call s atoms t log u hcall ih old hold
    obtain ⟨mid, hmid, hentry⟩ := standard_conserves hcall hold
    obtain ⟨new, hnew, hlog⟩ := ih mid hmid
    exact ⟨new, hnew, hlog.cons hentry⟩
  · intro call s e log u _ ih old hold
    obtain ⟨new, hnew, hlog⟩ := ih old hold
    exact ⟨new, hnew, hlog.cons (by simp [Entry.put?, Entry.taken?])⟩

end Registry

/-! ## The buffer -/

/-- A synchronising variable is a one-place buffer after some values went in and some came out. -/
structure OnePlace (host : Host) (h : Handle) (puts takes : List Atom) (s : State)
    (contents : Option Atom) : Prop where
  /-- This is what the variable holds. -/
  holds : s.spaces.mvars[h]? = some contents
  /-- Values come out in the order in which they went in. -/
  takes_prefix : takes <+: puts
  /-- At most one value is inside. -/
  length_le : puts.length ≤ takes.length + 1
  /-- The variable is empty exactly if every value came out. -/
  empty_iff : contents = none ↔ takes = puts
  /-- A full variable holds the value that went in last. -/
  last : ∀ value, contents = some value → puts.getLast? = some value
  /-- `readMVar#` gives that value and changes nothing; on an empty variable it would have to wait. -/
  read : ∀ call : Call, call.Asks "readMVar#" [.mvar h, .void] →
    (Registry.standard host).evaluate call s =
      match contents with
      | some value => .ok [value] s
      | none => .error ⟨.wouldBlock call.name h, s.trace⟩ s
  /-- `tryReadMVar#` gives that value behind a 1 and changes nothing. -/
  tryRead : ∀ call : Call, call.Asks "tryReadMVar#" [.mvar h, .void] →
    (Registry.standard host).evaluate call s =
      match contents with
      | some value => .ok [.int 1, value] s
      | none => .ok [.int 0, .void] s
  /-- `isEmptyMVar#` answers 1 exactly if every value came out. -/
  isEmpty : ∀ call : Call, call.Asks "isEmptyMVar#" [.mvar h, .void] →
    ∃ n, (Registry.standard host).evaluate call s = .ok [.int n] s ∧ (n = 1 ↔ takes = puts)
  /-- `takeMVar#` would have to wait exactly if the variable is empty. -/
  take : ∀ call : Call, call.Asks "takeMVar#" [.mvar h, .void] →
    (Registry.standard host).evaluate call s =
      match contents with
      | some value => .ok [value] (s.withMVar h none)
      | none => .error ⟨.wouldBlock call.name h, s.trace⟩ s
  /-- `putMVar#` would have to wait exactly if the variable is full. -/
  put : ∀ (call : Call) (value : Atom), call.Asks "putMVar#" [.mvar h, value, .void] →
    (Registry.standard host).evaluate call s =
      match contents with
      | some _ => .error ⟨.wouldBlock call.name h, s.trace⟩ s
      | none => .ok [] (s.withMVar h (some value))

section OnePlace

open Registry

variable {s : State} {h : Handle} {contents : Option Atom} {puts takes : List Atom}

/-- The law, from an empty variable on, makes a one-place buffer. -/
theorem OnePlace.of_conserved (hholds : s.spaces.mvars[h]? = some contents)
    (hlaw : puts = takes ++ contents.toList) : OnePlace host h puts takes s contents := by
  have hempty : contents = none ↔ takes = puts := by
    rw [hlaw]
    cases contents <;> simp
  refine ⟨hholds, ⟨contents.toList, hlaw.symm⟩, ?_, hempty, ?_, ?_, ?_, ?_, ?_, ?_⟩
  · rw [hlaw]
    cases contents <;> simp
  · rintro value rfl
    simp [hlaw]
  · intro call hasks
    have hrun := MVarOp.run_read hasks.args hholds
    cases contents with
    | none => exact mvar_evaluate_of_run_error .read hasks.name hrun
    | some value => exact (mvar_evaluate_iff_run .read hasks.name).2 hrun
  · intro call hasks
    have hrun := MVarOp.run_tryRead hasks.args hholds
    cases contents with
    | none => exact (mvar_evaluate_iff_run .tryRead hasks.name).2 hrun
    | some value => exact (mvar_evaluate_iff_run .tryRead hasks.name).2 hrun
  · intro call hasks
    have hrun := MVarOp.run_isEmpty hasks.args hholds
    refine ⟨_, (mvar_evaluate_iff_run .isEmpty hasks.name).2 hrun, ?_⟩
    rw [← hempty]
    cases contents <;> simp
  · intro call hasks
    have hrun := MVarOp.run_take hasks.args hholds
    cases contents with
    | none => exact mvar_evaluate_of_run_error .take hasks.name hrun
    | some value => exact (mvar_evaluate_iff_run .take hasks.name).2 hrun
  · intro call value hasks
    have hrun := MVarOp.run_put hasks.args hholds
    cases contents with
    | none => exact (mvar_evaluate_iff_run .put hasks.name).2 hrun
    | some _ => exact mvar_evaluate_of_run_error .put hasks.name hrun

/-- From its creation on, whatever calls are made on whatever handles, a synchronising variable is a
one-place buffer for the values that the calls put in and took out. -/
theorem Registry.mvar_onePlace (before s : State) (create : Call) (h : Handle)
    (hname : create.name = "newMVar#")
    (hcreate : (standard host).evaluate create before = .ok [.mvar h] s) (calls : List Call) :
    ∃ contents, OnePlace host h (Entry.puts h ((standard host).log calls s).1)
      (Entry.takes h ((standard host).log calls s).1) ((standard host).log calls s).2 contents := by
  have hfresh : s.spaces.mvars[h]? = some none :=
    MVarOp.mvar_of_new ((mvar_evaluate_iff_run .new hname).1 hcreate)
  obtain ⟨contents, hholds, hlaw⟩ := standard_log_conserves hfresh calls
  exact ⟨contents, .of_conserved hholds hlaw⟩

/-- A value is put, a second one is turned away, the first is taken and a third is put. -/
def Registry.refilled : List Call := [
  { name := "putMVar#", args := [.mvar 0, .int 7, .void] },
  { name := "tryPutMVar#", args := [.mvar 0, .int 8, .void] },
  { name := "takeMVar#", args := [.mvar 0, .void] },
  { name := "putMVar#", args := [.mvar 0, .int 9, .void] }]

/-- The value that was turned away is neither among those that went in nor in the variable. -/
theorem Registry.mvar_onePlace_refilled :
    let create : Call := { name := "newMVar#", args := [.void] }
    let before : State := { traceLimit := 0, maxStackDepth := 0 }
    let s : State := { before with spaces := { mvars := #[none] } }
    create.name = "newMVar#" ∧ standard.evaluate create before = .ok [.mvar 0] s ∧
      OnePlace .usual 0 [.int 7, .int 9] [.int 7] (standard.log refilled s).2 (some (.int 9)) := by
  intro create before s
  have hcreate : standard.evaluate create before = .ok [.mvar 0] s :=
    (standard_evaluate_iff_run (mvarHandler_mem .usual) (by decide) rfl).2 rfl
  obtain ⟨contents, hbuffer⟩ := mvar_onePlace before s create 0 rfl hcreate refilled
  have hlog : standard.log refilled s =
      (List.zipWith Entry.mk refilled [.ok [], .ok [.int 0], .ok [.int 7], .ok []],
        { before with spaces := { mvars := #[some (.int 9)] } }) := by
    rw [refilled, log_cons_of_ok ((standard_evaluate_iff_run (mvarHandler_mem .usual) (by decide) rfl).2 rfl),
      log_cons_of_ok ((standard_evaluate_iff_run (mvarHandler_mem .usual) (by decide) rfl).2 rfl),
      log_cons_of_ok ((standard_evaluate_iff_run (mvarHandler_mem .usual) (by decide) rfl).2 rfl),
      log_cons_of_ok ((standard_evaluate_iff_run (mvarHandler_mem .usual) (by decide) rfl).2 rfl)]
    rfl
  have hputs : Entry.puts 0 (standard.log refilled s).1 = [.int 7, .int 9] := by rw [hlog]; rfl
  have htakes : Entry.takes 0 (standard.log refilled s).1 = [.int 7] := by rw [hlog]; rfl
  have hcontents : contents = some (.int 9) := by
    have hholds := hbuffer.holds
    rw [hlog] at hholds
    exact (Option.some.inj hholds).symm
  rw [hputs, htakes, hcontents] at hbuffer
  exact ⟨rfl, hcreate, hbuffer⟩

end OnePlace

end Spineless
