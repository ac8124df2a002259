import Egl.Request

namespace Egl

abbrev Op (α : Type) := EStateM Failure World α

namespace Op

variable {α : Type}

def perform (q : Request α) : Op α := fun w =>
  let (a, after) := w.perform q
  .ok a after

/-- The outputs of a call, or the failure that its error code stands for. -/
def accept (subject : Bytes) (outcome : Outcome α) : Op α := fun w =>
  match outcome with
  | .ok a => .ok a w
  | .error code => .error (.coded code subject) w

/-- Makes a call that has to succeed. A failure concerns the given subject. -/
def requireAs (subject : Bytes) (q : Request (Outcome α)) : Op α := do
  let outcome ← perform q
  accept subject outcome

/-- Makes a call that has to succeed. A failure concerns what is named. -/
def require (what : String) (q : Request (Outcome α)) : Op α := requireAs (.ofString what) q

def note (n : Notice) : Op Unit := fun w => .ok () (w.note n)

/-- Runs an operation and then a cleanup, whether or not the operation failed. -/
def ensuring (op : Op α) (cleanup : World → World) : Op α := fun w =>
  match op w with
  | .ok a after => .ok a (cleanup after)
  | .error f after => .error f (cleanup after)

end Op

end Egl
