import Egl.ConfigRef

namespace Egl.Enumeration

/-- The first `size` cells of a buffer that held `blank` everywhere before handles were written to
its front. -/
def cells (size : Nat) (blank : Handle) (written : List Handle) : List Handle :=
  written.take size ++ List.replicate (size - written.length) blank

/-- The configs that a counting call and a filling call yield between them. The first counts, the
second fills a buffer of that size, and the implementation may answer them differently. A count that
is negative where a list is to be made ends the enumeration. -/
def run (display : Handle) (what : String) (entry : EntryPoint)
    (count : Request (Outcome Int32)) (fill : Span → Request (Outcome Int32 × List Handle)) :
    Op (List ConfigRef) := do
  let total ← Op.require what count
  if total < 0 then
    throw .negativeLength
  let (reported, handles) ← Op.perform (fill (.ofLength total.toInt.toNat))
  let written ← Op.accept (.ofString what) reported
  if written < total then
    Op.note (.shortfall entry written total)
  if written < 0 then
    throw .negativeLength
  let size := min written.toInt.toNat total.toInt.toNat
  return (cells size 0 handles).map (ConfigRef.mk display)

end Egl.Enumeration
