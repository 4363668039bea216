import Spineless.Object

/-!
# The control stack

A continuation says what to do with the values that an evaluation returns. It is pushed together
with the scope in which it will resume. The stack knows its depth, so that the limit on the depth
can be checked at every push.
-/

namespace Spineless

/-- What to do with returned values. -/
inductive Continuation where
  /-- Bind the value and choose an alternative. -/
  | caseOf (binder : Ident) (altType : AltType) (alts : List Alt)
  /-- Overwrite the object at an address with the result's. -/
  | update (target : Addr)
  /-- Apply the resulting function. -/
  | apply (args : List Atom)
deriving Inhabited

/-- The name of a continuation's sort. -/
def Continuation.name : Continuation → String
  | .caseOf .. => "CaseOf"
  | .update _ => "Update"
  | .apply _ => "Apply"

/-- The text of a continuation. -/
def Continuation.text : Continuation → String
  | .caseOf binder _ alts => "CaseOf " ++ binder.name ++ " (" ++ toString alts.length ++ " alts)"
  | .update target => "Update " ++ Addr.text target
  | .apply args => "Apply " ++ toString args.length ++ " args"

/-- A continuation with the scope that was active when it was pushed. -/
structure Frame where
  /-- What to do. -/
  cont : Continuation
  /-- The environment to restore. -/
  env : Env
  /-- The trace to restore. -/
  trace : List Ident
deriving Inhabited

/-- The pending frames, the next one to resume first. -/
structure Stack where
  /-- The frames from the top downwards. -/
  frames : List Frame := []
  /-- How many frames there are. -/
  depth : Nat := 0
  /-- The depth is the number of frames. -/
  depth_eq : depth = frames.length := by rfl

namespace Stack

/-- The stack without frames. -/
def empty : Stack := {}

instance : Inhabited Stack := ⟨empty⟩

/-- Puts a frame on top. -/
def push (s : Stack) (frame : Frame) : Stack where
  frames := frame :: s.frames
  depth := s.depth + 1
  depth_eq := by rw [s.depth_eq, List.length_cons]

/-- Takes the topmost frame. -/
def pop? (s : Stack) : Option (Frame × Stack) :=
  match h : s.frames with
  | [] => none
  | frame :: rest => some (frame, ⟨rest, s.depth - 1, by rw [s.depth_eq, h]; rfl⟩)

/-- The topmost frame. -/
def peek? (s : Stack) : Option Frame := s.frames.head?

/-- Drops the frames above a depth. -/
def truncate (s : Stack) (depth : Nat) : Stack where
  frames := s.frames.drop (s.depth - depth)
  depth := min s.depth depth
  depth_eq := by rw [List.length_drop, ← s.depth_eq]; omega

/-! ## The frames of a stack -/

/-- A stack is given by its frames. -/
@[ext]
theorem ext_frames {s t : Stack} (h : s.frames = t.frames) : s = t := by
  obtain ⟨fs, d, hd⟩ := s
  obtain ⟨gs, e, he⟩ := t
  simp_all

end Stack

end Spineless
