import Egl.Assoc
import Egl.Code

namespace Egl.Backend

/-- The attributes of a config. The missing ones have the defaults of the interface. -/
abbrev Attributes := Assoc Int32 Int32

inductive Comparison
  | atLeast
  | mask
  /-- No config can match a pixmap, so the request must be that there is none. -/
  | noPixmap
  | equal
  deriving DecidableEq

namespace Comparison

def sizes : List Int32 :=
  [Code.alphaMaskSize, Code.alphaSize, Code.blueSize, Code.bufferSize, Code.depthSize,
    Code.greenSize, Code.luminanceSize, Code.redSize, Code.sampleBuffers, Code.samples,
    Code.stencilSize]

def masks : List Int32 := [Code.conformant, Code.renderableType, Code.surfaceType]

def ofAttribute (attr : Int32) : Comparison :=
  if attr ∈ sizes then atLeast
  else if attr ∈ masks then mask
  else if attr = Code.matchNativePixmap then noPixmap
  else equal

def holds (c : Comparison) (actual wanted : Int32) : Bool :=
  match c with
  | atLeast => wanted ≤ actual
  | mask => actual &&& wanted = wanted
  | noPixmap => wanted = Code.none
  | equal => actual = wanted

end Comparison

namespace Attributes

def default (attr : Int32) : Int32 :=
  if attr = Code.colorBufferType then Code.rgbBuffer
  else if attr = Code.configCaveat ∨ attr = Code.transparentType then Code.none
  else 0

def value (attributes : Attributes) (attr : Int32) : Int32 :=
  (attributes.get? attr).getD (default attr)

def meets (attributes : Attributes) (attr wanted : Int32) : Bool :=
  wanted = Code.dontCare ||
    (Comparison.ofAttribute attr).holds (attributes.value attr) wanted

/-- Whether a config meets a request. A requested id decides alone. -/
def satisfies (attributes : Attributes) (request : List (Int32 × Int32)) : Bool :=
  match request.find? fun (a, v) => a = Code.configId && v ≠ Code.dontCare with
  | some (_, id) => attributes.value Code.configId = id
  | none => request.all fun (a, v) => attributes.meets a v

def make (id red green blue alpha depth stencil : Int32) : Attributes :=
  .ofList [(Code.configId, id), (Code.redSize, red), (Code.greenSize, green),
    (Code.blueSize, blue), (Code.alphaSize, alpha),
    (Code.bufferSize, red + green + blue + alpha), (Code.depthSize, depth),
    (Code.stencilSize, stencil), (Code.surfaceType, 5), (Code.renderableType, 4),
    (Code.conformant, 4)]

end Attributes

end Egl.Backend
