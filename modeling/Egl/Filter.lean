import Egl.Criterion
import Egl.Enumeration

namespace Egl

/-- The configs of a display that a caller wants. Criteria that were never mentioned have no value
and ask for nothing. -/
structure Filter where
  display : Handle
  get : Criterion → Option Int32 := fun _ => none

namespace Filter

def set (f : Filter) (c : Criterion) (value : Int32) : Filter :=
  { f with get := fun other => if other = c then some value else f.get other }

/-- The filter with one more criterion, or with a new argument for one that it had. -/
def want (f : Filter) (c : Criterion) (arg : c.Arg) : Filter := f.set c (c.argumentKind.encode arg)

def wantAll (f : Filter) (settings : List Setting) : Filter :=
  settings.foldl (fun f s => f.want s.1 s.2) f

/-- The attributes and values that the filter asks for, in the order of the criteria. -/
def wanted (f : Filter) : List (Int32 × Int32) :=
  Criterion.all.filterMap fun c => (f.get c).map fun value => (c.code, value)

def attributes (f : Filter) : List Int32 := AttributeList.write Code.none f.wanted

def chooseConfigs (f : Filter) : Op (List ConfigRef) :=
  Enumeration.run f.display "eglChooseConfig" .chooseConfig
    (.countFilteredConfigs f.display (some f.attributes))
    (.filteredConfigs f.display (some f.attributes))

end Filter

end Egl
