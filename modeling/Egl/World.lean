import Egl.Backend.Answer
import Egl.Notice

namespace Egl

/-- A table of entry points. Those with a number lead to the in-memory implementation and are
recorded; the native one leads to the library that the program is linked to. -/
inductive Table
  | native
  | recorded (number : Nat)
  deriving DecidableEq

/-- The table that is in place at the start. -/
abbrev Table.primary : Table := .recorded 0

/-- Answers that take the place of the implementation's own. Each call of an entry point uses up
the next item of its list; an empty item or an empty list leaves the call to the implementation. -/
structure Script where
  pending : EntryPoint → List (Option Reply) := fun _ => []

namespace Script

def next (s : Script) (e : EntryPoint) : Option Reply × Script :=
  match s.pending e with
  | [] => (none, s)
  | item :: rest => (item, ⟨fun other => if other = e then rest else s.pending other⟩)

def replace (s : Script) (e : EntryPoint) (items : List (Option Reply)) : Script :=
  ⟨fun other => if other = e then items else s.pending other⟩

end Script

/-- The library behind the native table. What it replies to a call may depend on all calls that it
got before; unless told otherwise it replies nothing but zeros. -/
structure Library where
  reply : List Call → Call → Reply := fun _ _ => .null
  /-- The calls that it got, in order. -/
  calls : List Call := []

def Library.answer (l : Library) (c : Call) : Reply × Library :=
  (l.reply l.calls c, { l with calls := l.calls ++ [c] })

/-- Something that happened: a recorded call with its reply, or a line in the log. -/
inductive Event
  | call (through : Table) (call : Call) (reply : Reply)
  | notice (notice : Notice)
  deriving DecidableEq

structure World where
  backend : Backend := {}
  script : Script := {}
  library : Library := {}
  /-- The table that was installed last, if any. -/
  installed : Option Table := some .primary
  /-- What happened so far, in order. -/
  journal : List Event := []

namespace World

/-- The table that calls go through: the native one unless another is installed. -/
def table (w : World) : Table := w.installed.getD .native

/-- Installs a table, or none, and returns the table that calls went through before. -/
def install (w : World) (t : Option Table) : Table × World := (w.table, { w with installed := t })

def record (w : World) (e : Event) : World := { w with journal := w.journal ++ [e] }

def note (w : World) (n : Notice) : World := w.record (.notice n)

def answer (w : World) (c : Call) : Reply × World :=
  match w.script.next c.entry with
  | (some reply, script) => (reply, { w with script := script })
  | (none, script) =>
    let (reply, backend) := w.backend.answer c
    (reply, { w with script := script, backend := backend })

/-- Makes a call through the table that is in place. The library gets those through the native one,
and they are not recorded. -/
def exchange (w : World) (c : Call) : Reply × World :=
  if w.table = .native then
    let (reply, library) := w.library.answer c
    (reply, { w with library := library })
  else
    let (reply, after) := w.answer c
    (reply, after.record (.call w.table c reply))

def calls (w : World) : List Call :=
  w.journal.filterMap fun
    | .call _ c _ => some c
    | .notice _ => none

def log (w : World) : List Notice :=
  w.journal.filterMap fun
    | .call .. => none
    | .notice n => some n

end World

end Egl
