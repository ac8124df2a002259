namespace Egl

/-- A kind of mask: the bits that it knows, and their names in the order in which a text lists
them. -/
structure Bitmask where
  known : Int32
  names : List (Int32 × String)

namespace Bitmask

def renderable : Bitmask where
  known := 0x4F
  names := [(0x8, "OPENGL"), (0x1, "OPENGL_ES"), (0x4, "OPENGL_ES2"), (0x40, "OPENGL_ES3"),
    (0x2, "OPENVG")]

def surface : Bitmask where
  known := 0x667
  names := [(0x1, "PBUFFER"), (0x2, "PIXMAP"), (0x4, "WINDOW"), (0x20, "VG_COLORSPACE_LINEAR"),
    (0x40, "VG_ALPHA_FORMAT_PRE"), (0x200, "MULTISAMPLE_RESOLVE_BOX"),
    (0x400, "SWAP_BEHAVIOR_PRESERVED")]

def contains (value mask : Int32) : Bool := value &&& mask = mask

def truncate (m : Bitmask) (value : Int32) : Int32 := value &&& m.known

def namesOf (m : Bitmask) (value : Int32) : List String :=
  (m.names.filter fun (bit, _) => contains value bit).map Prod.snd

def text (m : Bitmask) (value : Int32) : String :=
  match m.namesOf value with
  | [] => "0"
  | names => String.intercalate "|" names

end Bitmask

end Egl
