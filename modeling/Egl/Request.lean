import Egl.World

namespace Egl

/-- What a call comes to: its outputs, or an error code. -/
abbrev Outcome (α : Type) := Except ErrorCode α

structure Request (α : Type) where
  call : Call
  read : Reply → α

def World.perform {α : Type} (w : World) (q : Request α) : α × World :=
  let (reply, after) := w.exchange q.call
  (q.read reply, after)

namespace Request

def status (c : Call) : Request (Outcome Unit) where
  call := c
  read r := if r.accepted then .ok () else .error (.ofEntry c.entry)

def handle (c : Call) : Request (Outcome Handle) where
  call := c
  read r := if r.ret = 0 then .error (.ofEntry c.entry) else .ok r.ret

def value (c : Call) : Request (Outcome Int32) where
  call := c
  read r := if r.accepted then .ok (r.output 0) else .error (.ofEntry c.entry)

/-- A call that writes handles to a buffer and reports how many. The buffer receives them even if
the call fails, but never more than it has room for. -/
def fill (c : Call) (span : Span) : Request (Outcome Int32 × List Handle) where
  call := c
  read r := ((value c).read r, r.fill.take span.room)

/-- A call that returns a text, which ends at its first zero byte and has to be UTF-8. -/
def text (c : Call) : Request (Outcome String) where
  call := c
  read r :=
    match r.text with
    | none => .error (.ofEntry c.entry)
    | some bytes =>
      match bytes.upToZero.toString? with
      | some s => .ok s
      | none => .error .invalidUtf8

def bindApi (api : UInt32) : Request (Outcome Unit) := status (.bindApi api)

def bindTexImage (display surface : Handle) (buffer : Int32) : Request (Outcome Unit) :=
  status (.bindTexImage display surface buffer)

def countFilteredConfigs (display : Handle) (attributes : Option (List Int32)) :
    Request (Outcome Int32) :=
  value (.chooseConfig display attributes none)

def filteredConfigs (display : Handle) (attributes : Option (List Int32)) (span : Span) :
    Request (Outcome Int32 × List Handle) :=
  fill (.chooseConfig display attributes span.told) span

def copyBuffers (display surface target : Handle) : Request (Outcome Unit) :=
  status (.copyBuffers display surface target)

def createContext (display config share : Handle) (attributes : Option (List Int32)) :
    Request (Outcome Handle) :=
  handle (.createContext display config share attributes)

def createPbufferFromClientBuffer (display : Handle) (bufferType : UInt32)
    (buffer config : Handle) (attributes : Option (List Int32)) : Request (Outcome Handle) :=
  handle (.createPbufferFromClientBuffer display bufferType buffer config attributes)

def createPbufferSurface (display config : Handle) (attributes : Option (List Int32)) :
    Request (Outcome Handle) :=
  handle (.createPbufferSurface display config attributes)

def createPixmapSurface (display config pixmap : Handle) (attributes : Option (List Int32)) :
    Request (Outcome Handle) :=
  handle (.createPixmapSurface display config pixmap attributes)

/-- Creates a surface for a window of a platform, with wide attributes. -/
def createPlatformWindowSurface (display config window : Handle)
    (attributes : Option (List Int64)) : Request (Outcome Handle) :=
  handle (.createPlatformWindowSurface display config window attributes)

def createWindowSurface (display config window : Handle) (attributes : Option (List Int32)) :
    Request (Outcome Handle) :=
  handle (.createWindowSurface display config window attributes)

def destroyContext (display context : Handle) : Request (Outcome Unit) :=
  status (.destroyContext display context)

def destroySurface (display surface : Handle) : Request (Outcome Unit) :=
  status (.destroySurface display surface)

def getConfigAttrib (display config : Handle) (attr : Int32) : Request (Outcome Int32) :=
  value (.getConfigAttrib display config attr)

def countConfigs (display : Handle) : Request (Outcome Int32) := value (.getConfigs display none)

def configs (display : Handle) (span : Span) : Request (Outcome Int32 × List Handle) :=
  fill (.getConfigs display span.told) span

def getCurrentContext : Request (Outcome Handle) := handle .getCurrentContext

def getCurrentDisplay : Request (Outcome Handle) := handle .getCurrentDisplay

def getCurrentSurface (which : Int32) : Request (Outcome Handle) :=
  handle (.getCurrentSurface which)

def getDisplay (id : Handle) : Request (Outcome Handle) := handle (.getDisplay id)

/-- The state of the thread's last call. This never fails. -/
def getError : Request Int32 where
  call := .getError
  read r := (UInt32.ofNat r.ret).toInt32

/-- The address of a function. Its name ends at the first zero byte. -/
def getProcAddress (name : Bytes) : Request (Outcome Handle) :=
  handle (.getProcAddress name.upToZero)

def initializeOnly (display : Handle) : Request (Outcome Unit) :=
  status (.initializeDisplay display false)

def initializeVersion (display : Handle) : Request (Outcome (Int32 × Int32)) where
  call := .initializeDisplay display true
  read r :=
    if r.accepted then .ok (r.output 0, r.output 1) else .error (.ofEntry .initializeDisplay)

def makeCurrent (display draw read context : Handle) : Request (Outcome Unit) :=
  status (.makeCurrent display draw read context)

/-- The client interface that is bound. This never fails. -/
def queryApi : Request UInt32 where
  call := .queryApi
  read r := UInt32.ofNat r.ret

def queryContext (display context : Handle) (attr : Int32) : Request (Outcome Int32) :=
  value (.queryContext display context attr)

def queryString (display : Handle) (name : Int32) : Request (Outcome String) :=
  text (.queryString display name)

def querySurface (display surface : Handle) (attr : Int32) : Request (Outcome Int32) :=
  value (.querySurface display surface attr)

def releaseTexImage (display surface : Handle) (buffer : Int32) : Request (Outcome Unit) :=
  status (.releaseTexImage display surface buffer)

def releaseThread : Request (Outcome Unit) := status .releaseThread

def surfaceAttrib (display surface : Handle) (attr value : Int32) :
    Request (Outcome Unit) :=
  status (.surfaceAttrib display surface attr value)

def swapBuffers (display surface : Handle) : Request (Outcome Unit) :=
  status (.swapBuffers display surface)

def swapInterval (display : Handle) (interval : Int32) : Request (Outcome Unit) :=
  status (.swapInterval display interval)

def terminate (display : Handle) : Request (Outcome Unit) := status (.terminate display)

def waitClient : Request (Outcome Unit) := status .waitClient

def waitGL : Request (Outcome Unit) := status .waitGL

def waitNative (engine : Int32) : Request (Outcome Unit) := status (.waitNative engine)

end Request

end Egl
