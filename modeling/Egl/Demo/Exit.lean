import Egl.Display

namespace Egl

inductive Exit
  | success
  | failure
  deriving DecidableEq

def Exit.status : Exit → Nat
  | success => 0
  | failure => 1

namespace Demo

/-- Obtains the default display, and releases it when the body is done or has failed. -/
def withDisplay {α : Type} (body : Display → Op α) : Op α := do
  let d ← Display.connect Display.defaultId
  Op.ensuring (body d) d.release

/-- Obtains a context or a surface, and releases it when the body is done or has failed. -/
def withResource {α : Type} {kind : ResourceKind} (creation : Op (Resource kind))
    (body : Resource kind → Op α) : Op α := do
  let r ← creation
  Op.ensuring (body r) r.release

/-- Runs a demo to its end. A failed call is logged after all cleanups; other failures are not
handled. -/
def conclude (body : Op Exit) (w : World) : Except Failure Exit × World :=
  match body w with
  | .ok exit after => (.ok exit, after)
  | .error (.coded code subject) after => (.ok .failure, after.note (.gaveUp code subject))
  | .error failure after => (.error failure, after)

end Demo

end Egl
