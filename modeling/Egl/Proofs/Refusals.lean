import Egl.Request

namespace Egl.Proofs

variable {α : Type} {c : Call}

/-- What tells that a call failed: a false answer, the null handle or a missing text. The calls that
ask for the state of the thread never fail. -/
inductive Sign
  | answer
  | handle
  | text
  | never
  deriving DecidableEq

def sign : EntryPoint → Sign
  | .createContext | .createPbufferFromClientBuffer | .createPbufferSurface | .createPixmapSurface
  | .createPlatformWindowSurface | .createWindowSurface | .getCurrentContext | .getCurrentDisplay
  | .getCurrentSurface | .getDisplay | .getProcAddress => .handle
  | .queryString => .text
  | .getError | .queryApi => .never
  | _ => .answer

/-- Whether a reply tells that the call failed. -/
def refused (e : EntryPoint) (r : Reply) : Bool :=
  match sign e with
  | .answer => !r.accepted
  | .handle => r.ret = 0
  | .text => r.text.isNone
  | .never => false

/-- The error code that a reply stands for. A text that is there may still not be UTF-8. -/
def failure (e : EntryPoint) (r : Reply) : Option ErrorCode :=
  if refused e r then some (.ofEntry e)
  else if sign e = .text ∧ Utf8.valid (r.text.getD []).upToZero = false then some .invalidUtf8
  else none

/-- A typed call reads its reply by the sign of its entry point: either it hands on what the
implementation wrote, or it returns an error code alone. -/
def Reads (q : Request (Outcome α)) (native : Reply → α) : Prop :=
  ∀ r, q.read r = match failure q.call.entry r with
    | none => .ok (native r)
    | some code => .error code

/-- The part of a filling call that returns a count. -/
def countOf (q : Request (Outcome Int32 × List Handle)) : Request (Outcome Int32) where
  call := q.call
  read r := (q.read r).1

/-- The text of a reply up to its first zero byte, if it is UTF-8. -/
def textOf (r : Reply) : String := ((r.text.getD []).upToZero.toString?).getD ""

theorem reads_status (h : sign c.entry = .answer) : Reads (.status c) fun _ => () := by
  intro r
  simp only [Request.status, failure, refused, h]
  cases r.accepted <;> rfl

theorem reads_value (h : sign c.entry = .answer) : Reads (.value c) fun r => r.output 0 := by
  intro r
  simp only [Request.value, failure, refused, h]
  cases r.accepted <;> rfl

theorem reads_version (display : Handle) :
    Reads (.initializeVersion display) fun r => (r.output 0, r.output 1) := by
  intro r
  simp only [Request.initializeVersion, failure, refused, Call.entry, sign]
  by_cases h : r.accepted
  · simp [h]
  · simp [h]

theorem reads_handle (h : sign c.entry = .handle) : Reads (.handle c) Reply.ret := by
  intro r
  simp only [Request.handle, failure, refused, h]
  by_cases hr : r.ret = 0
  · simp [hr]
  · simp [hr]

/-- A text is handed on exactly if it is there and is UTF-8 up to its first zero byte. -/
theorem reads_text (h : sign c.entry = .text) : Reads (.text c) textOf := by
  intro r
  simp only [Request.text, failure, refused, h]
  cases ht : r.text with
  | none => simp
  | some bytes =>
    cases hd : Utf8.decode bytes.upToZero with
    | none => simp [Bytes.toString?, Utf8.valid, hd]
    | some s => simp [textOf, ht, Bytes.toString?, Utf8.valid, hd]

end Egl.Proofs
