import Mathlib.Data.Finset.Card
import Mathlib.Data.Finset.Dedup
import Spineless.Proofs.PrimOp.Dispatch

/-!
# Registration

Handlers are offered to a registry one after the other, and may list any operations: the same one twice,
or those of another handler. `registration_consistent` says what comes of it. A handler is refused
exactly if it lists an operation of one that was accepted earlier, and then leaves no mark; every name
that an accepted handler lists is its own, at its position; calls are answered by the handler so found,
and those of other names by the fallback. Handlers that have no operation in common may come in any order.

That every accepted handler owns what it lists is `serves_accepted`. What is added here are the positions,
which a name determines because accepted handlers are separate, and that no name is entered twice, which
makes the length of the map a count of names.
-/

namespace Spineless

namespace Registry

open Handler (accepted)

variable {r : Registry} {handlers : List Handler} {handler : Handler} {name : String}

/-! ## Positions -/

/-- A name has the position of the handler that lists it. -/
theorem Serves.lookup_eq_some_iff (h : r.Serves handlers) (hseparate : handlers.Pairwise Handler.Separate)
    {i : Nat} : r.owners.lookup name = some i ↔
      ∃ handler, handlers[i]? = some handler ∧ name ∈ handler.operations := by
  have hposition : ∀ j : Nat, r.handlers[j]? = handlers[j]? := by
    intro j
    rw [← h.handlers_eq, Array.getElem?_toList]
  -- The owner of a name stands at its position and lists it.
  have howns : ∀ {j : Nat}, r.owners.lookup name = some j →
      ∃ handler, handlers[j]? = some handler ∧ name ∈ handler.operations := by
    intro j hj
    have hlt := h.owners_lt hj
    have howner : r.owner? name = some r.handlers[j] := by
      rw [owner?, hj, Option.bind_some, Array.getElem?_eq_getElem hlt]
    rw [h.owner?_eq] at howner
    refine ⟨r.handlers[j], ?_, by simpa using List.find?_some howner⟩
    rw [← hposition, Array.getElem?_eq_getElem hlt]
  constructor
  · exact howns
  · rintro ⟨handler, hi, hname⟩
    have howner := h.owner?_of_mem hseparate (List.mem_of_getElem? hi) hname
    cases hj : r.owners.lookup name with
    | none => simp [owner?, hj] at howner
    | some j =>
        obtain ⟨other, hother, hlisted⟩ := howns hj
        have hij : j = i := by
          by_contra hne
          obtain ⟨hi', rfl⟩ := List.getElem?_eq_some_iff.1 hi
          obtain ⟨hj', rfl⟩ := List.getElem?_eq_some_iff.1 hother
          rcases Nat.lt_or_gt_of_ne hne with hlt | hgt
          · exact List.pairwise_iff_getElem.1 hseparate _ _ hj' hi' hlt name hlisted hname
          · exact List.pairwise_iff_getElem.1 hseparate _ _ hi' hj' hgt name hname hlisted
        rw [hij]

/-! ## The count of names -/

/-- What is left after duplicates are dropped is distinct. -/
private theorem nodup_eraseDups (names : List String) : names.eraseDups.Nodup := by
  match names with
  | [] => exact .nil
  | first :: rest =>
      rw [List.eraseDups_cons, List.nodup_cons]
      exact ⟨by simp [List.mem_eraseDups], nodup_eraseDups _⟩
termination_by names.length
decreasing_by exact Nat.lt_succ_of_le (List.length_filter_le _ _)

/-- A name is entered when it is claimed. -/
theorem mem_keys_iff : name ∈ r.owners.map Prod.fst ↔ r.claims name = true := by
  rw [claims, List.lookup_isSome_iff]
  simp

/-- An offer enters no name twice. -/
theorem nodup_afterOffer (hnodup : (r.owners.map Prod.fst).Nodup) (handler : Handler) :
    ((r.afterOffer handler).owners.map Prod.fst).Nodup := by
  rw [afterOffer, offer_apply]
  cases hfind : handler.operations.find? r.claims with
  | some name => exact hnodup
  | none =>
      have hkeys : (handler.operations.eraseDups.map (·, r.handlers.size)).map Prod.fst =
          handler.operations.eraseDups := by
        rw [List.map_map]
        exact List.map_id _
      simp only [enter]
      rw [List.map_append, hkeys, List.nodup_append']
      refine ⟨hnodup, nodup_eraseDups _, fun name hold hnew => ?_⟩
      exact List.find?_eq_none.1 hfind name (List.mem_eraseDups.1 hnew) (mem_keys_iff.1 hold)

/-- No name is entered twice. -/
theorem nodup_ofHandlers (offered : List Handler) : ((ofHandlers offered).owners.map Prod.fst).Nodup := by
  induction offered using List.reverseRecOn with
  | nil => exact .nil
  | append_singleton offered handler ih =>
      rw [ofHandlers_concat]
      exact nodup_afterOffer ih handler

/-- The size of a registry is the number of names that its handlers list. -/
theorem Serves.size_eq (h : r.Serves handlers) (hnodup : (r.owners.map Prod.fst).Nodup) :
    r.size = (handlers.flatMap Handler.operations).toFinset.card := by
  have hkeys : (r.owners.map Prod.fst).toFinset = (handlers.flatMap Handler.operations).toFinset := by
    ext name
    rw [List.mem_toFinset, mem_keys_iff, h.claims_eq, List.find?_isSome]
    simp
  rw [← hkeys, List.toFinset_card_of_nodup hnodup, List.length_map, size]

/-! ## What registration does -/

/-- A refused handler leaves any registry as it was. -/
theorem eq_of_offer_eq_error {e : Fault} {r' : Registry} (h : offer handler r = .error e r') : r' = r := by
  rw [offer_apply] at h
  split at h
  · cases h
    rfl
  · cases h

/-- Registering a handler gives what an offer leaves behind. -/
theorem register_eq_ok_iff {r' : Registry} : r.register handler = .ok r' ↔ offer handler r = .ok () r' := by
  unfold register
  cases offer handler r with
  | ok u r'' => simp
  | error e r'' => simp

/-- Registering a handler fails as the offer does. The caller goes on with the registry as it was, which is
what the offer leaves behind. -/
theorem register_eq_error_iff {e : Fault} :
    r.register handler = .error e ↔ offer handler r = .error e r := by
  unfold register
  cases hoffer : offer handler r with
  | ok u r'' => simp
  | error e' r'' =>
      rw [eq_of_offer_eq_error hoffer]
      simp

/-- What comes of a handler that is offered after others. -/
structure Offers (offered : List Handler) (handler : Handler) : Prop where
  /-- It is refused when an operation that it lists is one of an accepted handler. -/
  refused_iff : (∃ e r, offer handler (ofHandlers offered) = .error e r) ↔
    ∃ name ∈ handler.operations, ∃ other ∈ accepted offered, name ∈ other.operations
  /-- The failure names the first such operation, and leaves the registry as it was. -/
  refused : ∀ e r, offer handler (ofHandlers offered) = .error e r →
    (∃ before name after, handler.operations = before ++ name :: after ∧
      (∃ other ∈ accepted offered, name ∈ other.operations) ∧
      (∀ earlier ∈ before, ∀ other ∈ accepted offered, earlier ∉ other.operations) ∧
      e = { cause := .duplicatePrimOp name }) ∧
    r = ofHandlers offered ∧ ofHandlers (offered ++ [handler]) = r ∧
    accepted (offered ++ [handler]) = accepted offered
  registered : ∀ u r, offer handler (ofHandlers offered) = .ok u r →
    ofHandlers (offered ++ [handler]) = r ∧
    accepted (offered ++ [handler]) = accepted offered ++ [handler]

/-- A registry in which every name belongs to the one handler that lists it. -/
structure Consistent (r : Registry) (handlers : List Handler) : Prop where
  handlers_eq : r.handlers.toList = handlers
  separate : handlers.Pairwise Handler.Separate
  owners : ∀ name i, r.owners.lookup name = some i ↔
    ∃ handler, handlers[i]? = some handler ∧ name ∈ handler.operations
  size : r.size = (handlers.flatMap Handler.operations).toFinset.card
  claimed : ∀ handler ∈ handlers, ∀ name ∈ handler.operations,
    r.claimedBy? name = some handler.family ∧
    ∀ call : Call, call.name = name → ∀ fallback,
      r.evaluateWith call fallback = handler.orElse call (fallback call)
  unclaimed : ∀ name, (∀ handler ∈ handlers, name ∉ handler.operations) →
    r.claimedBy? name = none ∧
    ∀ call : Call, call.name = name → ∀ fallback, r.evaluateWith call fallback = fallback call

/-- Two registries that cannot be told apart by their claims, their sizes and what they evaluate. -/
structure Agrees (r r' : Registry) : Prop where
  claimedBy?_eq : ∀ name, r.claimedBy? name = r'.claimedBy? name
  size_eq : r.size = r'.size
  evaluateWith_eq : ∀ call fallback s, r.evaluateWith call fallback s = r'.evaluateWith call fallback s

/-- A handler that is offered is registered or refused. -/
theorem offers (offered : List Handler) (handler : Handler) : Offers offered handler := by
  have hserves := serves_accepted offered
  have haccepted := Handler.accepted_concat offered handler
  by_cases hseparate : ∀ other ∈ accepted offered, other.Separate handler
  · obtain ⟨hoffer, -⟩ := hserves.offer hseparate
    rw [if_pos hseparate] at haccepted
    refine ⟨⟨fun ⟨e, r, herror⟩ => ?_, fun ⟨name, hname, other, hother, hlisted⟩ => ?_⟩,
      fun e r herror => ?_, fun u r hr => ⟨?_, haccepted⟩⟩
    · cases hoffer.symm.trans herror
    · exact (hseparate other hother name hlisted hname).elim
    · cases hoffer.symm.trans herror
    · rw [ofHandlers_concat, afterOffer, hr]
  · obtain ⟨before, name, after, hoperations, hshared, hbefore, hoffer⟩ :=
      hserves.offer_eq_error hseparate
    rw [if_neg hseparate] at haccepted
    refine ⟨⟨fun _ => ⟨name, by simp [hoperations], hshared⟩, fun _ => ⟨_, _, hoffer⟩⟩,
      fun e r herror => ?_, fun u r hr => ?_⟩
    · cases hoffer.symm.trans herror
      refine ⟨⟨before, name, after, hoperations, hshared, hbefore, rfl⟩, rfl, ?_, haccepted⟩
      rw [ofHandlers_concat, afterOffer, hoffer]
    · cases hoffer.symm.trans hr

/-- A registry of separate handlers is consistent if it serves them and enters no name twice. -/
theorem Serves.consistent (h : r.Serves handlers) (hseparate : handlers.Pairwise Handler.Separate)
    (hnodup : (r.owners.map Prod.fst).Nodup) : r.Consistent handlers where
  handlers_eq := h.handlers_eq
  separate := hseparate
  owners _ _ := h.lookup_eq_some_iff hseparate
  size := h.size_eq hnodup
  claimed handler hmem name hname := by
    have howner := h.owner?_of_mem hseparate hmem hname
    refine ⟨by rw [claimedBy?, howner, Option.map_some], ?_⟩
    rintro call rfl fallback
    exact evaluateWith_of_owner? howner
  unclaimed name hname := by
    have howner := h.owner?_of_notMem hname
    refine ⟨by rw [claimedBy?, howner, Option.map_none], ?_⟩
    rintro call rfl fallback
    exact evaluateWith_of_owner?_eq_none howner

/-- What handlers are registered decides what a registry does, and not their order. -/
theorem Consistent.agrees {r' : Registry} {handlers' : List Handler} (h : r.Consistent handlers)
    (h' : r'.Consistent handlers') (hperm : handlers.Perm handlers') : r.Agrees r' := by
  have hsame : ∀ name, r.claimedBy? name = r'.claimedBy? name ∧
      ∀ call : Call, call.name = name → ∀ fallback,
        r.evaluateWith call fallback = r'.evaluateWith call fallback := by
    intro name
    by_cases hlisted : ∃ handler ∈ handlers, name ∈ handler.operations
    · obtain ⟨handler, hmem, hname⟩ := hlisted
      obtain ⟨hclaimed, hroute⟩ := h.claimed handler hmem name hname
      obtain ⟨hclaimed', hroute'⟩ := h'.claimed handler (hperm.mem_iff.1 hmem) name hname
      exact ⟨hclaimed.trans hclaimed'.symm, fun call hcall fallback =>
        (hroute call hcall fallback).trans (hroute' call hcall fallback).symm⟩
    · have hname : ∀ handler ∈ handlers, name ∉ handler.operations :=
        fun handler hmem hop => hlisted ⟨handler, hmem, hop⟩
      obtain ⟨hclaimed, hroute⟩ := h.unclaimed name hname
      obtain ⟨hclaimed', hroute'⟩ := h'.unclaimed name fun handler hmem =>
        hname handler (hperm.mem_iff.2 hmem)
      exact ⟨hclaimed.trans hclaimed'.symm, fun call hcall fallback =>
        (hroute call hcall fallback).trans (hroute' call hcall fallback).symm⟩
  refine ⟨fun name => (hsame name).1, ?_, fun call fallback s => ?_⟩
  · rw [h.size, h'.size, List.toFinset_eq_of_perm _ _ (hperm.flatMap_right _)]
  · rw [(hsame call.name).2 call rfl fallback]

/-- Whatever handlers are offered, each is registered or refused without a mark, and the registry gives
every name to the one accepted handler that lists it. Separate handlers may be offered in any order. -/
theorem registration_consistent :
    (∀ offered handler, Offers offered handler) ∧
    (∀ offered, (ofHandlers offered).Consistent (accepted offered)) ∧
    ∀ offered other : List Handler, offered.Pairwise Handler.Separate → other.Perm offered →
      (ofHandlers other).Agrees (ofHandlers offered) := by
  have hconsistent : ∀ offered, (ofHandlers offered).Consistent (accepted offered) := fun offered =>
    (serves_accepted offered).consistent (Handler.pairwise_accepted offered) (nodup_ofHandlers offered)
  refine ⟨offers, hconsistent, fun offered other hseparate hperm => ?_⟩
  have hseparate' : other.Pairwise Handler.Separate :=
    (hperm.pairwise_iff Handler.Separate.symm).2 hseparate
  have hoffered := hconsistent offered
  have hother := hconsistent other
  rw [Handler.accepted_of_pairwise hseparate] at hoffered
  rw [Handler.accepted_of_pairwise hseparate'] at hother
  exact hother.agrees hoffered hperm

/-- A handler that answers each of its operations with no values. -/
def silent (family : String) (operations : List String) : Handler where
  family
  operations
  evaluate _ := Exec.noValues

/-- A handler that lists an operation twice is accepted, the next one, which lists it too, is refused
although it also lists one of its own, and a third may then have that. -/
theorem registration_consistent_overlapping :
    let twice := silent "Twice" ["a#", "a#"]
    let both := silent "Both" ["b#", "a#"]
    let apart := silent "Apart" ["b#"]
    offer both (ofHandlers [twice]) = .error { cause := .duplicatePrimOp "a#" } (ofHandlers [twice]) ∧
    ofHandlers [twice, both] = ofHandlers [twice] ∧
    (ofHandlers [twice, apart]).size = 2 ∧ (ofHandlers [twice, apart]).claimedBy? "b#" = some "Apart" ∧
    (ofHandlers [apart, twice]).Agrees (ofHandlers [twice, apart]) := by
  intro twice both apart
  obtain ⟨hoffers, hconsistent, hagrees⟩ := registration_consistent
  have hoffer : offer both (ofHandlers [twice]) =
      .error { cause := .duplicatePrimOp "a#" } (ofHandlers [twice]) := rfl
  have hseparate : [twice, apart].Pairwise Handler.Separate := by decide
  have hregistered := hconsistent [twice, apart]
  rw [Handler.accepted_of_pairwise hseparate] at hregistered
  exact ⟨hoffer, ((hoffers [twice] both).refused _ _ hoffer).2.2.1, hregistered.size,
    (hregistered.claimed apart (by simp) "b#" (by decide)).1,
    hagrees [twice, apart] [apart, twice] hseparate (.swap _ _ _)⟩

end Registry

end Spineless
