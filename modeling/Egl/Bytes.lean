import Egl.Utf8

namespace Egl

/-- Text as it crosses the interface to the implementation. It need not be UTF-8. -/
abbrev Bytes := List UInt8

namespace Bytes

def ofString (s : String) : Bytes := Utf8.encode s.toList

/-- The bytes before the first zero byte, which is where foreign text ends. -/
def upToZero (b : Bytes) : Bytes := b.takeWhile (· ≠ 0)

def toString? (b : Bytes) : Option String := (Utf8.decode b).map String.ofList

end Bytes

end Egl
