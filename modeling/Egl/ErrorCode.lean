import Egl.EntryPoint
import Egl.Numeral
import Egl.Bytes

namespace Egl

/-- What the value of an error code counts: failing entry points, or faults of a received text. -/
inductive ErrorCategory
  | call
  | text
  deriving DecidableEq

def ErrorCategory.name : ErrorCategory → String
  | .call => "EGL"
  | .text => "EGL string"

/-- An error code. Any value may occur; zero means no error. -/
structure ErrorCode where
  category : ErrorCategory
  value : Int32
  deriving DecidableEq

namespace ErrorCode

def ofEntry (e : EntryPoint) : ErrorCode := ⟨.call, e.tag⟩

def invalidUtf8 : ErrorCode := ⟨.text, 1⟩

def isSet (c : ErrorCode) : Bool := c.value ≠ 0

/-- The words for a call code. A value without entry point is shown in decimal and, in two's
complement, in hexadecimal. -/
def callMessage (value : Int32) : String :=
  match EntryPoint.ofTag? value with
  | some e => e.name ++ " failed"
  | none =>
    "unknown call " ++ Numeral.alignRight 5 (Numeral.decimal value.toInt) ++ "(" ++
      Numeral.alignRight 4 (Numeral.hexDigits value.toUInt32.toNat) ++ ")"

def textMessage (value : Int32) : String :=
  if value = invalidUtf8.value then "non UTF-8 string received"
  else "unknown error " ++ Numeral.decimal value.toInt

def message (c : ErrorCode) : String :=
  match c.category with
  | .call => callMessage c.value
  | .text => textMessage c.value

/-- The full account of an error: what it concerns, then the words for its code. It is foreign text,
so a zero byte in its subject ends all of it. -/
def account (c : ErrorCode) (subject : Bytes) : Bytes :=
  Bytes.upToZero (subject ++ Bytes.ofString (": " ++ c.message))

end ErrorCode

inductive Failure
  /-- A call failed. The subject is the entry point, or the function that was asked for. -/
  | coded (code : ErrorCode) (subject : Bytes)
  /-- A function was asked for without a name. -/
  | missingName
  /-- A list of negative length was about to be made. -/
  | negativeLength
  deriving DecidableEq

end Egl
