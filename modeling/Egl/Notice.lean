import Egl.Call
import Egl.ErrorCode

namespace Egl

inductive Level
  | debug
  | info
  | warn
  | error
  deriving DecidableEq

inductive ResourceKind
  | context
  | surface
  deriving DecidableEq

inductive Notice
  | connected (display : Handle)
  | versionKnown (display : Handle) (major minor : Int32)
  | binding (draw read context : Handle)
  | unbinding
  | terminating (display : Handle)
  | created (kind : ResourceKind) (handle : Handle)
  | destroyed (kind : ResourceKind) (handle : Handle)
  | cleanupFailed (entry : EntryPoint) (code : ErrorCode)
  | shortfall (entry : EntryPoint) (written total : Int32)
  | implementation (major minor : Int32) (vendor : String)
  | clientApis (names : String)
  | extensions (names : String)
  | configCount (count : Nat)
  | config (level : Level) (description : String)
  | noPbufferConfig
  | pbufferSize (width height : Int32)
  | function (name : String) (address : Handle)
  | gaveUp (code : ErrorCode) (subject : Bytes)
  deriving DecidableEq

namespace Notice

def level : Notice → Level
  | connected .. | versionKnown .. | binding .. | unbinding | terminating .. | created ..
  | destroyed .. => .debug
  | cleanupFailed .. | noPbufferConfig | gaveUp .. => .error
  | shortfall .. => .warn
  | implementation .. | clientApis .. | extensions .. | configCount .. | pbufferSize ..
  | function .. => .info
  | config level _ => level

def creator : ResourceKind → String
  | .context => "eglCreateContext"
  | .surface => "surface_t"

def destroyer : ResourceKind → EntryPoint
  | .context => .destroyContext
  | .surface => .destroySurface

def versionText (major minor : Int32) : String :=
  Numeral.decimal major.toInt ++ "." ++ Numeral.decimal minor.toInt

def words : Notice → String
  | connected display => "EGLDisplay " ++ Numeral.address display
  | versionKnown display major minor =>
    "EGLDisplay " ++ Numeral.address display ++ " " ++ versionText major minor
  | binding draw read context =>
    "EGL current: " ++ Numeral.address draw ++ "/" ++ Numeral.address read ++ " " ++
      Numeral.address context
  | unbinding => "EGL current: EGL_NO_SURFACE/EGL_NO_SURFACE EGL_NO_CONTEXT"
  | terminating display => "EGL terminate: " ++ Numeral.address display
  | created kind handle => creator kind ++ ": " ++ Numeral.address handle
  | destroyed kind handle => (destroyer kind).name ++ ": " ++ Numeral.address handle
  | cleanupFailed entry code => entry.name ++ ": " ++ Numeral.address code.value.toInt.toNat
  | shortfall entry written total =>
    entry.name ++ ": " ++ Numeral.decimal written.toInt ++ " of " ++
      Numeral.decimal total.toInt ++ " configs returned"
  | implementation major minor vendor => "EGL " ++ versionText major minor ++ " " ++ vendor
  | clientApis names => "client APIs: " ++ names
  | extensions names => "extensions: " ++ names
  | configCount count => Numeral.natural count ++ " configs"
  | config _ description => description
  | noPbufferConfig =>
    EntryPoint.chooseConfig.name ++ ": no RGBA8/D24 config for OpenGL ES 2 pbuffer"
  | pbufferSize width height =>
    "pbuffer " ++ Numeral.decimal width.toInt ++ "x" ++ Numeral.decimal height.toInt
  | function name address => name ++ ": " ++ Numeral.address address
  | gaveUp code _ => ": " ++ Numeral.decimal code.value.toInt

/-- The foreign text that a line starts with. Only the account of an error has any. -/
def lead : Notice → Bytes
  | gaveUp code subject => code.account subject
  | _ => []

def text (n : Notice) : Bytes := n.lead ++ Bytes.ofString n.words

end Notice

end Egl
