import Spineless.Proofs.BoundedRuns
import Spineless.Proofs.Closures
import Spineless.Proofs.Partial.Step

/-!
# No operation is undefined

`Partial.always_defined` collects what the modules before say: the primitive operations and the transitions
use partial operations only where they are defined, and what they rely on is kept up by the machine. Offsets
stay signed integers because pointers come from literals and from moves only. The arguments of closures are
counted right because they were when the closures came from their sources (`State.WellFormed.counted`).

Two things are left to callers (`Command.Fits`): the atoms that they pass in are bounded, and the functions
in their code have no more parameters than a machine word can count.
-/

namespace Spineless

open Snapshot

/-- What a call brings to a machine has bounded atoms, and numbers of parameters that are machine words. -/
structure Command.Fits (command : Command) : Prop where
  passed : ∀ a ∈ command.passed, a.Bounded
  arity : ∀ closure ∈ command.closures, closure.2.arity < Bound.word

/-- A closure that agrees with its source has the arguments that its source takes. -/
theorem State.WellFormed.counted {sources : List (List Ident × Lambda)} {s : State} (h : s.WellFormed sources)
    (hsources : ∀ closure ∈ sources, closure.2.arity < Bound.word) : s.Counted := by
  intro a c ho
  have hclosure := h a _ ho c rfl
  obtain ⟨freeVars, hsource, -⟩ := hclosure.source
  exact ⟨hclosure.arity, hsources _ hsource⟩

/-- Where the run of a call gets to, the state is bounded and its closures are counted. -/
theorem Command.Fits.reaches {config : Config} {events : List Event} {m : Machine} {command : Command}
    {start d : Snapshot} (hsession : Session config events m) (hevents : ∀ event ∈ events, event.command.Fits)
    (hcommand : command.Fits) (hstart : command.start? m = some start)
    (hreach : Reaches m.registry m.state.stack.depth start d) : d.Bounded ∧ d.state.Counted := by
  have hidle := hsession.idle
  have hpassed : ∀ event ∈ events, ∀ a ∈ event.command.passed, a.Bounded :=
    fun event hevent => (hevents event hevent).passed
  have hmore : m.state.WellFormed (command.closures ++ Event.closuresAll events) :=
    hsession.wellFormed.mono (List.subset_append_right _ _)
  obtain ⟨host, hregistry⟩ := hidle.registry
  rw [hregistry] at hreach
  constructor
  · exact (bounded_of_start? (hsession.bounded hpassed).1 hcommand.passed hstart).reaches hreach
  · have hstarted := wellFormed_of_start? hidle hmore hstart (List.subset_append_left _ _)
    refine (hstarted.reaches hreach).heap.counted fun closure hclosure => ?_
    rcases List.mem_append.1 hclosure with hnow | hearlier
    · exact hcommand.arity closure hnow
    · obtain ⟨event, hevent, hclosure⟩ := List.mem_flatMap.1 hearlier
      exact (hevents event hevent).arity closure hclosure

/-- Nothing that the machine does is undefined. A call of a primitive operation is defined in every state if
the offsets of its pointers are signed integers, and so is a transition if that holds of all pointers in its
state and the arguments of closures are counted right. Where the sizes of byte arrays are machine words, both
do what they do with total operations. The offset of a literal is a signed integer, and so is that of a
pointer that was moved; operations and transitions keep states bounded, also where they fail. So no
transition of a session is undefined if its calls bring nothing unbounded. -/
theorem Partial.always_defined (host : Host) :
    (∀ (call : Call) (s : State), call.Offsets →
      (evaluate host call).Defined s ∧
        (s.spaces.Fits → evaluate host call s = lift ((Registry.standard host).evaluate call) s)) ∧
    (∀ (base : Nat) (code : Code) (s : State), s.Bounded → s.Counted →
      (step host base code).Defined s ∧
        (s.spaces.Fits → step host base code s = lift (Spineless.step (.standard host) base code) s)) ∧
    (∀ (l : Lit) (s t : State) (a : Atom), Exec.literal l s = .ok a t → a.Bounded) ∧
    (∀ (s : State) (p : StringPtr) (n : Int64) (a : Atom), p.offset < Bound.int →
      Registry.Gives s "plusAddr#" [.str p, .int n] a → a.Bounded) ∧
    (∀ call : Call, (∀ a ∈ call.args, a.Bounded) →
      ((Registry.standard host).evaluate call).Bounds fun atoms => ∀ a ∈ atoms, a.Bounded) ∧
    (∀ (base : Nat) (code : Code), (∀ a ∈ code.atoms, a.Bounded) →
      (Spineless.step (.standard host) base code).Bounds fun next => ∀ a ∈ next.atoms, a.Bounded) ∧
    ∀ (config : Config) (events : List Event) (m : Machine) (command : Command) (start d : Snapshot),
      Session config events m → (∀ event ∈ events, event.command.Fits) → command.Fits →
      command.start? m = some start → Reaches m.registry m.state.stack.depth start d →
      d.Bounded ∧ d.state.Counted ∧
        ∃ own, m.registry = .standard own ∧ (step own m.state.stack.depth d.code).Defined d.state := by
  have hstep : ∀ (own : Host) (base : Nat) (code : Code) (s : State), s.Bounded → s.Counted →
      (step own base code).Defined s ∧
        (s.spaces.Fits → step own base code s = lift (Spineless.step (.standard own) base code) s) := by
    intro own base code s hstate hcounted
    have hagrees : Agrees s.spaces.Fits (step own base code)
        (Spineless.step (.standard own) base code) s := step_agrees hstate hcounted base code
    exact ⟨hagrees.defined, hagrees.eq_lift⟩
  refine ⟨fun call s hoffsets => ?_, hstep host, fun l s t a => Exec.literal_bounded, ?_,
    fun call => Registry.standard_bounds, fun base code => step_bounds base, ?_⟩
  · have hagrees : Agrees s.spaces.Fits (evaluate host call) ((Registry.standard host).evaluate call) s :=
      evaluate_agrees hoffsets id
    exact ⟨hagrees.defined, hagrees.eq_lift⟩
  · intro s p n a hp hgives
    obtain ⟨q, hmoved, rfl⟩ := Option.map_eq_some_iff.1 ((Registry.yields_plus hp).gives_iff.1 hgives)
    exact Atom.bounded_str.2 (StringPtr.moved?_eq_some.1 hmoved).2.2
  · intro config events m command start d hsession hevents hcommand hstart hreach
    obtain ⟨hbounded, hcounted⟩ := hcommand.reaches hsession hevents hstart hreach
    obtain ⟨own, hregistry⟩ := hsession.idle.registry
    exact ⟨hbounded, hcounted, own, hregistry, (hstep own _ _ _ hbounded.state hcounted).1⟩

/-- The difference of two pointers into one literal that are as far apart as offsets can be. -/
def farthestApart : Call where
  name := "minusAddr#"
  args := [.str ⟨0, 0⟩, .str ⟨0, Bound.int - 1⟩]

/-- Pointers that are as far apart as they can be have a difference in a fresh machine, and the entry of
`appliedInParts` gets to where it supplies more arguments than are missing. -/
theorem Partial.always_defined_appliedInParts :
    (evaluate .usual farthestApart).Defined (Machine.new {}).state ∧
      ∃ events m start d args, Session {} events m ∧ Command.runEntry.start? m = some start ∧
        Reaches m.registry m.state.stack.depth start d ∧ d.call? = some (5, args) ∧
        d.Bounded ∧ d.state.Counted ∧
        ∃ own, m.registry = .standard own ∧ (step own m.state.stack.depth d.code).Defined d.state := by
  obtain ⟨hcalls, -, -, -, -, -, hsessions⟩ := Partial.always_defined .usual
  constructor
  · refine (hcalls farthestApart _ fun p hp => ?_).1
    simp only [farthestApart, List.mem_cons, List.not_mem_nil, or_false, Atom.str.injEq] at hp
    rcases hp with rfl | rfl <;> decide
  · have hcomputes : appliedInPartsEnters.any (fun (events, _, _, c, _) =>
        (c.call?.map Prod.fst) = some 5 ∧ ∀ event ∈ events, event.command.passed.isEmpty = true ∧
          ∀ closure ∈ event.command.closures, closure.2.arity < Bound.word) = true := by
      decide +kernel
    obtain ⟨⟨events, m, start, c, d⟩, henters, hany⟩ := (Option.any_eq_true _ _).1 hcomputes
    obtain ⟨⟨events, m⟩, hplay, h⟩ := Option.bind_eq_some_iff.1 henters
    obtain ⟨start, hstart, h⟩ := Option.bind_eq_some_iff.1 h
    obtain ⟨c, hafter, h⟩ := Option.bind_eq_some_iff.1 h
    obtain ⟨d, hnext, heq⟩ := Option.map_eq_some_iff.1 h
    cases heq
    obtain ⟨hcall, hbrings⟩ := of_decide_eq_true hany
    obtain ⟨⟨a, args⟩, hcall, rfl⟩ := Option.map_eq_some_iff.1 hcall
    have hfits : ∀ event ∈ events, event.command.Fits := by
      intro event hevent
      obtain ⟨hempty, harity⟩ := hbrings event hevent
      exact ⟨fun a ha => absurd ha (List.isEmpty_iff.1 hempty ▸ List.not_mem_nil), harity⟩
    have hentry : Command.runEntry.Fits :=
      ⟨fun _ ha => absurd ha List.not_mem_nil, fun _ hclosure => absurd hclosure List.not_mem_nil⟩
    have hsession := Session.of_play hplay
    have hreach := reaches_of_after? hafter
    exact ⟨events, m, start, c, args, hsession, hstart, hreach, hcall,
      hsessions {} events m .runEntry start c hsession hfits hentry hstart hreach⟩

end Spineless
