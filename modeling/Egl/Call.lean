import Egl.AttributeList
import Egl.Code
import Egl.EntryPoint
import Egl.Bytes

namespace Egl

/-- An opaque word of the implementation: a display, config, context, surface, window, pixmap or
function. The null handle is zero. -/
abbrev Handle := Nat

/-- A buffer that a caller lends to a call, by the number of its cells. Without an address it has
none. -/
abbrev Span := Option Nat

namespace Span

def cells (s : Span) : Nat := s.getD 0

/-- What a call is told of a buffer: whether it has an address, and its size in 32 bits. -/
def told (s : Span) : Option Int32 := s.map Int32.ofNat

/-- How many cells a call takes a buffer to have, and so the most that it writes. -/
def room (s : Span) : Nat := (s.told.getD 0).toInt.toNat

/-- The buffer of a list with a number of cells. An empty list has no address. -/
def ofLength (n : Nat) : Span := if n = 0 then none else some n

end Span

/-- One call with its inputs. Of a buffer for configs, these are its size; without a buffer the call
only counts. -/
inductive Call
  | bindApi (api : UInt32)
  | bindTexImage (display surface : Handle) (buffer : Int32)
  | chooseConfig (display : Handle) (attributes : Option (List Int32)) (buffer : Option Int32)
  | copyBuffers (display surface target : Handle)
  | createContext (display config share : Handle) (attributes : Option (List Int32))
  | createPbufferFromClientBuffer (display : Handle) (bufferType : UInt32) (buffer config : Handle)
      (attributes : Option (List Int32))
  | createPbufferSurface (display config : Handle) (attributes : Option (List Int32))
  | createPixmapSurface (display config pixmap : Handle) (attributes : Option (List Int32))
  | createPlatformWindowSurface (display config window : Handle) (attributes : Option (List Int64))
  | createWindowSurface (display config window : Handle) (attributes : Option (List Int32))
  | destroyContext (display context : Handle)
  | destroySurface (display surface : Handle)
  | getConfigAttrib (display config : Handle) (attr : Int32)
  | getConfigs (display : Handle) (buffer : Option Int32)
  | getCurrentContext
  | getCurrentDisplay
  | getCurrentSurface (which : Int32)
  | getDisplay (id : Handle)
  | getProcAddress (name : Bytes)
  | initializeDisplay (display : Handle) (wantsVersion : Bool)
  | makeCurrent (display draw read context : Handle)
  | queryContext (display context : Handle) (attr : Int32)
  | queryString (display : Handle) (name : Int32)
  | querySurface (display surface : Handle) (attr : Int32)
  | releaseTexImage (display surface : Handle) (buffer : Int32)
  | releaseThread
  | surfaceAttrib (display surface : Handle) (attr value : Int32)
  | swapBuffers (display surface : Handle)
  | swapInterval (display : Handle) (interval : Int32)
  | terminate (display : Handle)
  | waitClient
  | waitGL
  | waitNative (engine : Int32)
  | getError
  | queryApi
  deriving DecidableEq

inductive Argument
  | word (value : Nat)
  | number (value : Int)
  | flag (value : Bool)
  | list (values : Option (List Int))
  | name (value : Bytes)

namespace Call

def entry : Call → EntryPoint
  | bindApi .. => .bindApi
  | bindTexImage .. => .bindTexImage
  | chooseConfig .. => .chooseConfig
  | copyBuffers .. => .copyBuffers
  | createContext .. => .createContext
  | createPbufferFromClientBuffer .. => .createPbufferFromClientBuffer
  | createPbufferSurface .. => .createPbufferSurface
  | createPixmapSurface .. => .createPixmapSurface
  | createPlatformWindowSurface .. => .createPlatformWindowSurface
  | createWindowSurface .. => .createWindowSurface
  | destroyContext .. => .destroyContext
  | destroySurface .. => .destroySurface
  | getConfigAttrib .. => .getConfigAttrib
  | getConfigs .. => .getConfigs
  | getCurrentContext => .getCurrentContext
  | getCurrentDisplay => .getCurrentDisplay
  | getCurrentSurface .. => .getCurrentSurface
  | getDisplay .. => .getDisplay
  | getProcAddress .. => .getProcAddress
  | initializeDisplay .. => .initializeDisplay
  | makeCurrent .. => .makeCurrent
  | queryContext .. => .queryContext
  | queryString .. => .queryString
  | querySurface .. => .querySurface
  | releaseTexImage .. => .releaseTexImage
  | releaseThread => .releaseThread
  | surfaceAttrib .. => .surfaceAttrib
  | swapBuffers .. => .swapBuffers
  | swapInterval .. => .swapInterval
  | terminate .. => .terminate
  | waitClient => .waitClient
  | waitGL => .waitGL
  | waitNative .. => .waitNative
  | getError => .getError
  | queryApi => .queryApi

/-- An attribute list as it is written down: its pairs and its terminator. -/
def listArgument (attributes : Option (List Int32)) : Argument :=
  .list ((AttributeList.trimmed Code.none attributes).map (·.map Int32.toInt))

def wideListArgument (attributes : Option (List Int64)) : Argument :=
  .list ((AttributeList.trimmed Code.none.toInt64 attributes).map (·.map Int64.toInt))

/-- The attributes of a pbuffer are written down up to the first terminator in any place. -/
def pbufferListArgument (attributes : Option (List Int32)) : Argument :=
  .list ((AttributeList.upToFirst Code.none attributes).map (·.map Int32.toInt))

/-- A buffer for configs is written down as its size, which is zero if there is none. -/
def bufferArgument (buffer : Option Int32) : Argument := .number (buffer.getD 0).toInt

def arguments : Call → List Argument
  | bindApi api => [.word api.toNat]
  | bindTexImage d s buffer => [.word d, .word s, .number buffer.toInt]
  | chooseConfig d attrs buffer => [.word d, listArgument attrs, bufferArgument buffer]
  | copyBuffers d s target => [.word d, .word s, .word target]
  | createContext d c share attrs => [.word d, .word c, .word share, listArgument attrs]
  | createPbufferFromClientBuffer d type buffer c attrs =>
    [.word d, .word type.toNat, .word buffer, .word c, listArgument attrs]
  | createPbufferSurface d c attrs => [.word d, .word c, pbufferListArgument attrs]
  | createPixmapSurface d c pixmap attrs => [.word d, .word c, .word pixmap, listArgument attrs]
  | createPlatformWindowSurface d c window attrs =>
    [.word d, .word c, .word window, wideListArgument attrs]
  | createWindowSurface d c window attrs => [.word d, .word c, .word window, listArgument attrs]
  | destroyContext d context => [.word d, .word context]
  | destroySurface d s => [.word d, .word s]
  | getConfigAttrib d c attr => [.word d, .word c, .number attr.toInt]
  | getConfigs d buffer => [.word d, bufferArgument buffer]
  | getCurrentContext => []
  | getCurrentDisplay => []
  | getCurrentSurface which => [.number which.toInt]
  | getDisplay id => [.word id]
  | getProcAddress name => [.name name]
  | initializeDisplay d wantsVersion => [.word d, .flag wantsVersion, .flag wantsVersion]
  | makeCurrent d draw read context => [.word d, .word draw, .word read, .word context]
  | queryContext d context attr => [.word d, .word context, .number attr.toInt]
  | queryString d name => [.word d, .number name.toInt]
  | querySurface d s attr => [.word d, .word s, .number attr.toInt]
  | releaseTexImage d s buffer => [.word d, .word s, .number buffer.toInt]
  | releaseThread => []
  | surfaceAttrib d s attr value =>
    [.word d, .word s, .number attr.toInt, .number value.toInt]
  | swapBuffers d s => [.word d, .word s]
  | swapInterval d interval => [.word d, .number interval.toInt]
  | terminate d => [.word d]
  | waitClient => []
  | waitGL => []
  | waitNative engine => [.number engine.toInt]
  | getError => []
  | queryApi => []

end Call

/-- What a call hands back: the returned word, the returned text if it is one, the integers written
to its outputs and the configs written to its buffer. -/
structure Reply where
  ret : Nat := 0
  text : Option Bytes := none
  out : List Int32 := []
  fill : List Handle := []
  deriving DecidableEq

namespace Reply

/-- Nothing but zeros: the answer of a failing call. -/
def null : Reply := {}

def status (ok : Bool) : Reply := { ret := if ok then 1 else 0 }

def handle (h : Handle) : Reply := { ret := h }

def value (v : Int32) : Reply := { ret := 1, out := [v] }

/-- Whether a call reports success: its answer is a 32-bit word, and any but zero will do. -/
def accepted (r : Reply) : Bool := UInt32.ofNat r.ret ≠ 0

/-- An integer output. It keeps its initial zero if nothing was written to it. -/
def output (r : Reply) (i : Nat) : Int32 := r.out[i]?.getD 0

end Reply

end Egl
