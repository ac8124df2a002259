import Egl.Assoc
import Egl.Display

namespace Egl

class Owner (α : Type) where
  /-- The handle that the owner holds; the null handle if it holds nothing. -/
  handle : α → Handle
  /-- The owner without what it held. -/
  emptied : α → α
  /-- Gives back to the implementation what the owner holds. -/
  release : α → World → World

instance : Owner Display := ⟨Display.handle, Display.emptied, Display.release⟩

instance {kind : ResourceKind} : Owner (Resource kind) :=
  ⟨Resource.handle, Resource.emptied, Resource.release⟩

/-- Values under names, in the ascending order of the names. -/
abbrev Slots (α : Type) := Assoc String α

namespace Slots

variable {α : Type} [Owner α]

/-- Puts a new owner into a slot. The old one releases what it holds. -/
def place (slots : Slots α) (name : String) (new : α) (w : World) : Slots α × World :=
  match slots.get? name with
  | none => (slots.set name new, w)
  | some old => (slots.set name new, Owner.release old w)

def forget (slots : Slots α) (name : String) (owner : α) : Slots α :=
  slots.set name (Owner.emptied owner)

/-- Passes what the owner of one slot holds to another slot. Passing it to itself changes
nothing. -/
def move (slots : Slots α) (source : String) (owner : α) (target : String) (w : World) :
    Slots α × World :=
  if source = target then (slots, w) else (slots.forget source owner).place target owner w

/-- Removes a slot. Its owner releases what it holds. -/
def drop (slots : Slots α) (name : String) (owner : α) (w : World) : Slots α × World :=
  (slots.erase name, Owner.release owner w)

def releaseAll (slots : Slots α) (w : World) : World :=
  slots.values.foldl (fun w owner => Owner.release owner w) w

end Slots

end Egl
