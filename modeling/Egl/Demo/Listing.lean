import Egl.Demo.Exit

namespace Egl.Demo

def eightBitArgument : Bytes := Bytes.ofString "--rgba8"

def wantsEightBits (arguments : List Bytes) : Bool :=
  (arguments.head?.map Bytes.upToZero) = some eightBitArgument

def eightBitFilter (d : Display) : Filter :=
  d.filter.wantAll
    [⟨.redSize, (8 : Int32)⟩, ⟨.greenSize, (8 : Int32)⟩, ⟨.blueSize, (8 : Int32)⟩,
      ⟨.alphaSize, (8 : Int32)⟩]

def list (config : ConfigRef) : Op Unit := do
  let description ← config.describe
  Op.note (.config .info description)

def listing (arguments : List Bytes) (d : Display) : Op Exit := do
  let (major, minor) ← d.startVersion
  let vendor ← d.text .vendor
  Op.note (.implementation major minor vendor)
  let apis ← d.text .clientApis
  Op.note (.clientApis apis)
  let extensions ← d.text .extensions
  Op.note (.extensions extensions)
  let configs ←
    if wantsEightBits arguments then (eightBitFilter d).chooseConfigs else d.configs
  Op.note (.configCount configs.length)
  configs.forM list
  return .success

def runListing (arguments : List Bytes) (w : World) : Except Failure Exit × World :=
  conclude (withDisplay (listing arguments)) w

end Egl.Demo
