import Egl.Demo.Listing
import Egl.Demo.Pbuffer

namespace Egl.Main

/-- An implementation with two configs, one of them with eight bits for each channel. -/
def sample : Backend where
  configs := [.make 1 5 6 5 0 16 0, .make 2 8 8 8 8 24 8]
  strings := .ofList
    [(Code.vendor, Bytes.ofString "In memory"), (Code.version, Bytes.ofString "1.4"),
      (Code.clientApis, Bytes.ofString "OpenGL_ES"), (Code.extensions, [])]

def levelName : Level → String
  | .debug => "debug"
  | .info => "info"
  | .warn => "warning"
  | .error => "error"

def line (n : Notice) : String :=
  "[" ++ levelName n.level ++ "] " ++ (n.text.toString?).getD "?"

def run : List String → Except Failure Exit × World
  | "pbuffer" :: _ => Demo.runPbuffer { backend := sample }
  | "configs" :: rest => Demo.runListing (rest.map Bytes.ofString) { backend := sample }
  | arguments => Demo.runListing (arguments.map Bytes.ofString) { backend := sample }

end Egl.Main

def main (arguments : List String) : IO UInt32 := do
  let (result, w) := Egl.Main.run arguments
  for notice in w.log do
    IO.println (Egl.Main.line notice)
  return match result with
    | .ok exit => .ofNat exit.status
    | .error _ => 1
