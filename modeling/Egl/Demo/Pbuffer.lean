import Egl.Client
import Egl.Demo.Exit

namespace Egl.Demo

/-- A filter for configs that serve a pbuffer with OpenGL ES 2, eight bits for each channel and a
deep depth buffer. -/
def pbufferFilter (d : Display) : Filter :=
  d.filter.wantAll
    [⟨.surfaceType, (1 : Int32)⟩, ⟨.renderableType, (4 : Int32)⟩, ⟨.redSize, (8 : Int32)⟩,
      ⟨.greenSize, (8 : Int32)⟩, ⟨.blueSize, (8 : Int32)⟩, ⟨.alphaSize, (8 : Int32)⟩,
      ⟨.depthSize, (24 : Int32)⟩]

def pbufferAttributes : List Int32 := [Code.width, 640, Code.height, 480, Code.none]

/-- Draws with a context on a surface: finds the function that clears it, and shows three
frames. -/
def draw (d : Display) (context : Context) (surface : Surface) : Op Exit := do
  d.makeCurrent surface surface context
  let width ← surface.width
  let height ← surface.height
  Op.note (.pbufferSize width height)
  let address ← Display.procAddress (some (Bytes.ofString "glClear"))
  Op.note (.function "glClear" address)
  d.swapBuffers surface
  d.swapBuffers surface
  d.swapBuffers surface
  d.makeNotCurrent
  return .success

/-- Chooses a config and draws with it. Without a suitable config, the demo fails. -/
def pbuffer (d : Display) : Op Exit := do
  d.start
  match ← (pbufferFilter d).chooseConfigs with
  | [] =>
    Op.note .noPbufferConfig
    return .failure
  | config :: _ =>
    let description ← config.describe
    Op.note (.config .debug description)
    Client.bindApi Code.openglEsApi
    withResource (d.createContext config (some 2)) fun context =>
      withResource (d.createPbufferSurface config pbufferAttributes) fun surface =>
        draw d context surface

def runPbuffer (w : World) : Except Failure Exit × World := conclude (withDisplay pbuffer) w

end Egl.Demo
