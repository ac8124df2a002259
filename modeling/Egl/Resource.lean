import Egl.Operation

namespace Egl

/-- The owner of a context or a surface: the display it was created on, and its handle. An owner
with the null handle holds nothing. -/
structure Resource (kind : ResourceKind) where
  display : Handle
  handle : Handle
  deriving DecidableEq

abbrev Context := Resource .context

abbrev Surface := Resource .surface

def ResourceKind.destroy (kind : ResourceKind) (display handle : Handle) :
    Request (Outcome Unit) :=
  match kind with
  | .context => .destroyContext display handle
  | .surface => .destroySurface display handle

namespace Resource

variable {kind : ResourceKind}

def create (kind : ResourceKind) (display : Handle) (what : String)
    (q : Request (Outcome Handle)) : Op (Resource kind) := do
  let handle ← Op.require what q
  Op.note (.created kind handle)
  return ⟨display, handle⟩

/-- The same owner without what it held. It still knows its display. -/
def emptied (r : Resource kind) : Resource kind := { r with handle := 0 }

/-- Destroys what the owner holds. A failure is logged and otherwise ignored. -/
def release (r : Resource kind) (w : World) : World :=
  if r.handle = 0 then w
  else
    match w.perform (kind.destroy r.display r.handle) with
    | (.ok _, after) => after.note (.destroyed kind r.handle)
    | (.error code, after) => after.note (.cleanupFailed (Notice.destroyer kind) code)

end Resource

namespace Context

def query (c : Context) (attr : Int32) : Op Int32 :=
  Op.require "eglQueryContext" (.queryContext c.display c.handle attr)

end Context

namespace Surface

def query (s : Surface) (attr : Int32) : Op Int32 :=
  Op.require "eglQuerySurface" (.querySurface s.display s.handle attr)

def width (s : Surface) : Op Int32 := s.query Code.width

def height (s : Surface) : Op Int32 := s.query Code.height

def setAttribute (s : Surface) (attr value : Int32) : Op Unit :=
  Op.require "eglSurfaceAttrib" (.surfaceAttrib s.display s.handle attr value)

end Surface

end Egl
