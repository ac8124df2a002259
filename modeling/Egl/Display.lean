import Egl.Filter
import Egl.Resource

namespace Egl

/-- The owner of a display connection. An owner with the null handle holds nothing. -/
structure Display where
  handle : Handle
  deriving DecidableEq

inductive DisplayText
  | clientApis
  | vendor
  | version
  | extensions
  deriving DecidableEq

def DisplayText.code : DisplayText → Int32
  | .clientApis => Code.clientApis
  | .vendor => Code.vendor
  | .version => Code.version
  | .extensions => Code.extensions

namespace Display

abbrev defaultId : Handle := 0

def connect (id : Handle) : Op Display := do
  let handle ← Op.require "eglGetDisplay" (.getDisplay id)
  Op.note (.connected handle)
  return ⟨handle⟩

def emptied (_ : Display) : Display := ⟨0⟩

/-- A cleanup call. A failure is logged and otherwise ignored. -/
def cleanup (q : Request (Outcome Unit)) (w : World) : World :=
  match w.perform q with
  | (.ok _, after) => after
  | (.error code, after) => after.note (.cleanupFailed q.call.entry code)

/-- Releases the connection: first nothing is current on the display any more, then it is
terminated, even if the first call failed. -/
def release (d : Display) (w : World) : World :=
  if d.handle = 0 then w
  else
    let unbound := cleanup (.makeCurrent d.handle 0 0 0) (w.note .unbinding)
    cleanup (.terminate d.handle) (unbound.note (.terminating d.handle))

def start (d : Display) : Op Unit :=
  Op.require "eglInitialize" (.initializeOnly d.handle)

/-- Initializes the display and returns the major and the minor version. -/
def startVersion (d : Display) : Op (Int32 × Int32) := do
  let (major, minor) ← Op.require "eglInitialize" (.initializeVersion d.handle)
  Op.note (.versionKnown d.handle major minor)
  return (major, minor)

def text (d : Display) (t : DisplayText) : Op String :=
  Op.require "eglQueryString" (.queryString d.handle t.code)

def configs (d : Display) : Op (List ConfigRef) :=
  Enumeration.run d.handle "eglGetConfigs" .getConfigs (.countConfigs d.handle)
    (.configs d.handle)

/-- A filter for the configs of the display. It asks for nothing yet. -/
def filter (d : Display) : Filter := { display := d.handle }

/-- Creates a context that shares nothing, for a client version if one is given. -/
def createContext (d : Display) (config : ConfigRef) (version : Option Int32) : Op Context :=
  let attributes := version.map fun v => [Code.contextClientVersion, v, Code.none]
  Resource.create .context d.handle "eglCreateContext"
    (.createContext d.handle config.handle 0 attributes)

def createWindowSurface (d : Display) (config : ConfigRef) (window : Handle) : Op Surface :=
  Resource.create .surface d.handle "eglCreateWindowSurface"
    (.createWindowSurface d.handle config.handle window none)

def createPixmapSurface (d : Display) (config : ConfigRef) (pixmap : Handle) : Op Surface :=
  Resource.create .surface d.handle "eglCreatePixmapSurface"
    (.createPixmapSurface d.handle config.handle pixmap none)

/-- Creates a surface off screen. The attributes need no terminator. -/
def createPbufferSurface (d : Display) (config : ConfigRef) (attributes : List Int32) :
    Op Surface :=
  Resource.create .surface d.handle "eglCreatePbufferSurface"
    (.createPbufferSurface d.handle config.handle
      (some (AttributeList.closed Code.none attributes)))

def makeCurrent (d : Display) (draw read : Surface) (context : Context) : Op Unit := do
  Op.note (.binding draw.handle read.handle context.handle)
  Op.require "eglMakeCurrent" (.makeCurrent d.handle draw.handle read.handle context.handle)

def makeNotCurrent (d : Display) : Op Unit :=
  Op.require "eglMakeCurrent" (.makeCurrent d.handle 0 0 0)

def swapBuffers (d : Display) (s : Surface) : Op Unit :=
  Op.require "eglSwapBuffers" (.swapBuffers d.handle s.handle)

def swapInterval (d : Display) (interval : Int32) : Op Unit :=
  Op.require "eglSwapInterval" (.swapInterval d.handle interval)

/-- The address of a function. A failure concerns the function's name, which ends at its first zero
byte. -/
def procAddress (name : Option Bytes) : Op Handle :=
  match name with
  | none => throw .missingName
  | some name => Op.requireAs name.upToZero (.getProcAddress name)

end Display

end Egl
