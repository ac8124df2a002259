import Egl.Backend.Attributes
import Egl.Call

namespace Egl

/-- An implementation that lives in memory. It has one display. -/
structure Backend where
  configs : List Backend.Attributes := []
  major : Int32 := 1
  minor : Int32 := 4
  hasDisplay : Bool := true
  /-- The entry points that are switched to fail. -/
  failures : List EntryPoint := []
  /-- The most configs that are written to a buffer. -/
  fillLimit : Option Int32 := none
  strings : Assoc Int32 Bytes := {}
  /-- The texts that belong to no display. -/
  clientStrings : Assoc Int32 Bytes := {}
  surfaceValues : Assoc Int32 Int32 := .ofList [(Code.width, 640), (Code.height, 480)]
  contextValues : Assoc Int32 Int32 :=
    .ofList [(Code.contextClientType, Code.openglEsApi.toInt32)]
  /-- The entry points that were reached, the latest first. -/
  reached : List EntryPoint := []
  chooseAttributes : List Int32 := []
  contextAttributes : List Int32 := []
  surfaceAttributes : List Int32 := []
  currentDraw : Handle := 0
  currentRead : Handle := 0
  currentContext : Handle := 0
  boundApi : UInt32 := Code.openglEsApi
  isInitialized : Bool := false
  isTerminated : Bool := false
  nextContext : Handle := 0x1000
  nextSurface : Handle := 0x2000

namespace Backend

abbrev displayHandle : Handle := 208

abbrev functionAddress : Handle := 28673

def knownFunctions : List Bytes :=
  ["glClear", "glClearColor", "eglCreateContext", "eglSwapBuffers"].map Bytes.ofString

def configHandle (index : Nat) : Handle := index + 1

def config? (b : Backend) (config : Handle) : Option Attributes :=
  if config = 0 then none else b.configs[config - 1]?

def count (b : Backend) (e : EntryPoint) : Nat := b.reached.count e

/-- The entry points that were reached, with how often, in the order of their tags. -/
def counts (b : Backend) : List (EntryPoint × Nat) :=
  (EntryPoint.all.map fun e => (e, b.count e)).filter fun (_, n) => n ≠ 0

end Backend

end Egl
