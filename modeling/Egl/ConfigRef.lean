import Egl.Property
import Egl.Operation

namespace Egl

/-- A config of a display. It owns nothing. -/
structure ConfigRef where
  display : Handle
  handle : Handle
  deriving DecidableEq

namespace ConfigRef

def attrib (c : ConfigRef) (attr : Int32) : Op Int32 :=
  Op.require "eglGetConfigAttrib" (.getConfigAttrib c.display c.handle attr)

def query (c : ConfigRef) (p : Property) : Op PropertyValue := do
  let raw ← c.attrib p.code
  return p.kind.value raw

/-- The values of all properties. The first failure ends the enumeration. -/
def queryAll (c : ConfigRef) : Op (List (Property × PropertyValue)) :=
  Property.all.mapM fun p => do
    let value ← c.query p
    return (p, value)

def field (c : ConfigRef) (p : Property) : Op String := do
  let raw ← c.attrib p.code
  return p.name ++ ": " ++ p.kind.text raw

def braced (body : String) : String := "config_ref_t\x7b" ++ body ++ "\x7d"

/-- A config in words: all its properties, or the error that kept one of them from being known. -/
def describe (c : ConfigRef) : Op String := fun w =>
  match (Property.described.mapM c.field) w with
  | .ok fields after => .ok (braced (String.intercalate ", " fields)) after
  | .error (.coded code _) after => .ok (braced ("error: " ++ code.message)) after
  | .error failure after => .error failure after

end ConfigRef

end Egl
