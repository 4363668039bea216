import Mathlib.Data.List.DropRight
import Mathlib.Data.List.Induction
import Mathlib.Logic.Relation
import Spineless.Path

/-!
# The directories above a path

The parent of a path is the front of its text, without the last component, so it is shorter
(`length_of_parent?`). Hence going from parent to parent comes to an end before the bound in `ancestors` is
reached: the list holds every directory at or above the path, and of any two of them the nearer one,
which is the longer one, stands first (`climb_ancestors`).
-/

namespace Spineless.Path

/-! ## Joining segments -/

theorem join_singleton (segment : List Char) : join [segment] = segment := List.intercalate_singleton

theorem join_cons {segment : List Char} {parts : List (List Char)} (h : parts ≠ []) :
    join (segment :: parts) = segment ++ '/' :: join parts := by
  rw [join, List.intercalate_cons_of_ne_nil h, List.append_assoc]
  rfl

theorem segments_ne_nil (cs : List Char) : segments cs ≠ [] := by
  cases cs with
  | nil => exact List.cons_ne_nil _ _
  | cons c rest =>
      unfold segments
      split
      · exact List.cons_ne_nil _ _
      · split <;> exact List.cons_ne_nil _ _

/-- The segments of a text make up the text. -/
theorem join_segments (cs : List Char) : join (segments cs) = cs := by
  induction cs with
  | nil => rfl
  | cons c rest ih =>
      unfold segments
      split
      · next h => rw [join_cons (segments_ne_nil rest), ih, h, List.nil_append]
      · cases hrest : segments rest with
        | nil => exact absurd hrest (segments_ne_nil rest)
        | cons segment others =>
            rw [hrest] at ih
            cases others with
            | nil => exact congrArg (c :: ·) ih
            | cons other others =>
                rw [join_cons (List.cons_ne_nil _ _)] at ih ⊢
                rw [List.cons_append, ih]

/-- A further segment makes a text longer by the segment at least. -/
theorem length_join_concat (parts : List (List Char)) (segment : List Char) :
    (join parts).length + segment.length ≤ (join (parts ++ [segment])).length := by
  induction parts with
  | nil =>
      rw [List.nil_append, join_singleton]
      exact Nat.le_of_eq (Nat.zero_add _)
  | cons first rest ih =>
      have hlonger : join (first :: (rest ++ [segment])) = first ++ '/' :: join (rest ++ [segment]) :=
        join_cons (by simp)
      rw [List.cons_append, hlonger, List.length_append, List.length_cons]
      cases rest with
      | nil =>
          rw [join_singleton, List.nil_append, join_singleton]
          omega
      | cons second rest =>
          rw [join_cons (List.cons_ne_nil _ _), List.length_append, List.length_cons]
          omega

/-- The fewer segments, the shorter the text. -/
theorem length_join_le {xs ys : List (List Char)} (h : xs <+: ys) :
    (join xs).length ≤ (join ys).length := by
  obtain ⟨rest, rfl⟩ := h
  induction rest using List.reverseRecOn with
  | nil => rw [List.append_nil]
  | append_singleton rest segment ih =>
      have hsegment := length_join_concat (xs ++ rest) segment
      rw [← List.append_assoc]
      omega

/-! ## Parents -/

theorem trimEnd_prefix_self (parts : List (List Char)) : trimEnd parts <+: parts :=
  List.rdropWhile_prefix isVoid parts

/-- Without its last segment that carries something, a text is shorter. -/
theorem length_join_dropLast {parts : List (List Char)} (h : trimEnd parts ≠ []) :
    (join (trimEnd parts).dropLast).length < (join parts).length := by
  have hlast : (trimEnd parts).getLast h ≠ [] := by
    intro hempty
    have hkept : ¬isVoid ((trimEnd parts).getLast h) := List.rdropWhile_last_not isVoid parts h
    rw [hempty] at hkept
    exact hkept rfl
  have hpos := List.length_pos_of_ne_nil hlast
  have hdropped := length_join_concat (trimEnd parts).dropLast ((trimEnd parts).getLast h)
  rw [List.dropLast_append_getLast h] at hdropped
  have htrimmed := length_join_le (trimEnd_prefix_self parts)
  omega

theorem split_append (path : List Char) : (split path).1 ++ (split path).2 = path := by
  unfold split
  split <;> rfl

theorem length_of_parentChars? {path up : List Char} (h : parentChars? path = some up) :
    up.length < path.length := by
  have happend := split_append path
  rw [parentChars?] at h
  rcases hsplit : split path with ⟨front, body⟩
  rw [hsplit] at h happend
  dsimp only at h happend
  cases hparts : trimEnd (segments body) with
  | nil =>
      -- Only a dot in front has a parent then, which is empty.
      rw [hparts] at h
      obtain ⟨rfl, hup⟩ := Option.ite_none_right_eq_some.1 h
      cases hup
      rw [← happend]
      exact Nat.succ_pos _
  | cons first rest =>
      have hkept : trimEnd (segments body) ≠ [] := by
        rw [hparts]
        exact List.cons_ne_nil _ _
      have hdropped := length_join_dropLast hkept
      have htrimmed := length_join_le (trimEnd_prefix_self (first :: rest).dropLast)
      rw [hparts] at h
      rw [hparts, join_segments] at hdropped
      cases h
      rw [← happend, List.length_append, List.length_append]
      omega

/-- The parent of a path is shorter. -/
theorem length_of_parent? {path up : String} (h : parent? path = some up) : up.length < path.length := by
  obtain ⟨chars, hchars, rfl⟩ := Option.map_eq_some_iff.1 h
  rw [String.length_ofList, ← String.length_toList]
  exact length_of_parentChars? hchars

/-! ## Ancestors -/

/-- The directory of a path: its parent, or the current directory if it has none. -/
def directory (path : String) : String := (parent? path).getD "."

/-- Whether a directory is another one, its parent, the parent's parent or so on. -/
def AtOrAbove (upper lower : String) : Prop :=
  Relation.ReflTransGen (fun path up => parent? path = some up) lower upper

variable {path dir start : String} {fuel : Nat}

theorem AtOrAbove.length_le (h : AtOrAbove dir start) : dir.length ≤ start.length := by
  induction h with
  | refl => exact Nat.le_refl _
  | tail _ hparent ih => exact Nat.le_trans (Nat.le_of_lt (length_of_parent? hparent)) ih

theorem mem_ancestorsUpTo (hfuel : path.length < fuel) :
    dir ∈ ancestorsUpTo fuel path ↔ AtOrAbove dir path := by
  induction fuel generalizing path with
  | zero => exact absurd hfuel (Nat.not_lt_zero _)
  | succ fuel ih =>
      rw [AtOrAbove, Relation.ReflTransGen.cases_head_iff, ancestorsUpTo]
      cases hparent : parent? path with
      | none => simp [eq_comm]
      | some up =>
          have hup : up.length < fuel := by
            have := length_of_parent? hparent
            omega
          rw [List.mem_cons, ih hup, eq_comm]
          simp [AtOrAbove]

theorem pairwise_ancestorsUpTo (hfuel : path.length < fuel) :
    (ancestorsUpTo fuel path).Pairwise fun lower upper => upper.length < lower.length := by
  induction fuel generalizing path with
  | zero => exact .nil
  | succ fuel ih =>
      rw [ancestorsUpTo]
      cases hparent : parent? path with
      | none => exact List.pairwise_singleton _ _
      | some up =>
          have hshorter := length_of_parent? hparent
          have hup : up.length < fuel := by omega
          refine List.pairwise_cons.2 ⟨fun dir hdir => ?_, ih hup⟩
          exact Nat.lt_of_le_of_lt ((mem_ancestorsUpTo hup).1 hdir).length_le hshorter

/-- The directories at or above another that have at least some length, the longest one first. -/
structure Climb (start : String) (bound : Nat) (dirs : List String) : Prop where
  mem_iff : ∀ dir, dir ∈ dirs ↔ AtOrAbove dir start ∧ bound ≤ dir.length
  sorted : dirs.Pairwise fun lower upper => upper.length < lower.length

/-- The ancestors of a path are all the directories at or above it. -/
theorem climb_ancestors (start : String) : Climb start 0 (ancestors start) where
  mem_iff dir := by
    rw [ancestors, mem_ancestorsUpTo (Nat.lt_succ_self _)]
    simp
  sorted := pairwise_ancestorsUpTo (Nat.lt_succ_self _)

/-- The ancestors up to one of them are those that are no shorter. -/
theorem climb_of_ancestors_eq {nearer farther : List String}
    (h : ancestors start = nearer ++ [dir] ++ farther) : Climb start dir.length (nearer ++ [dir]) := by
  obtain ⟨hmem, hsorted⟩ := climb_ancestors start
  rw [h] at hsorted hmem
  obtain ⟨hupTo, -, hbeyond⟩ := List.pairwise_append.1 hsorted
  refine ⟨fun other => ⟨fun hother => ?_, fun ⟨habove, hlength⟩ => ?_⟩, hupTo⟩
  · refine ⟨((hmem other).1 (List.mem_append_left _ hother)).1, ?_⟩
    rcases List.mem_append.1 hother with hnearer | hdir
    · have hlonger := (List.pairwise_append.1 hupTo).2.2 other hnearer dir (List.mem_singleton_self _)
      exact Nat.le_of_lt hlonger
    · rw [List.mem_singleton.1 hdir]
  · rcases List.mem_append.1 ((hmem other).2 ⟨habove, Nat.zero_le _⟩) with hother | hfarther
    · exact hother
    · have hshorter := hbeyond dir (by simp) other hfarther
      omega

end Spineless.Path
