import Egl.Client
import Egl.Owner

namespace Egl

inductive OwnerKind
  | display
  | context
  | surface
  deriving DecidableEq

inductive OwnerStep
  | handle (slot : String)
  | forget (slot : String)
  | move (source target : String)
  | drop (slot : String)
  deriving DecidableEq

/-- How a step names a config: by its place in a list that the session keeps, or directly. -/
inductive ConfigOperand
  | listed (list : String) (index : Nat)
  | direct (config : ConfigRef)
  deriving DecidableEq

inductive TypedCall
  | status (q : Request (Outcome Unit))
  | number (q : Request (Outcome Int32))
  | handle (q : Request (Outcome Handle))
  | text (q : Request (Outcome String))
  | version (q : Request (Outcome (Int32 × Int32)))
  | buffer (span : Span) (q : Request (Outcome Int32 × List Handle))
  | errorState (q : Request Int32)
  | boundApi (q : Request UInt32)

/-- New settings of the in-memory implementation and of the script. What is missing stays as it
is. -/
structure BackendChange where
  configs : Option (List Backend.Attributes) := none
  major : Option Int32 := none
  minor : Option Int32 := none
  hasDisplay : Option Bool := none
  failures : Option (List EntryPoint) := none
  fillLimit : Option (Option Int32) := none
  strings : Option (Assoc Int32 Bytes) := none
  clientStrings : Option (Assoc Int32 Bytes) := none
  surfaceValues : Option (Assoc Int32 Int32) := none
  contextValues : Option (Assoc Int32 Int32) := none
  script : List (EntryPoint × List (Option Reply)) := []

def BackendChange.apply (c : BackendChange) (b : Backend) : Backend :=
  { b with
    configs := c.configs.getD b.configs
    major := c.major.getD b.major
    minor := c.minor.getD b.minor
    hasDisplay := c.hasDisplay.getD b.hasDisplay
    failures := c.failures.getD b.failures
    fillLimit := c.fillLimit.getD b.fillLimit
    strings := c.strings.getD b.strings
    clientStrings := c.clientStrings.getD b.clientStrings
    surfaceValues := c.surfaceValues.getD b.surfaceValues
    contextValues := c.contextValues.getD b.contextValues }

def World.configure (w : World) (c : BackendChange) : World :=
  { w with
    backend := c.apply w.backend
    script := c.script.foldl (fun s (e, items) => s.replace e items) w.script }

/-- One step of a session. Slots are named; a list or filter that is kept replaces an older one. -/
inductive Step
  | owner (kind : OwnerKind) (step : OwnerStep)
  | connect (keep : String) (id : Handle)
  | start (display : String)
  | startVersion (display : String)
  | displayText (display : String) (text : DisplayText)
  | listConfigs (display : String) (keep : Option String)
  | filterOf (display keep : String)
  | createContext (display : String) (config : ConfigOperand) (keep : String)
      (version : Option Int32)
  | createWindowSurface (display : String) (config : ConfigOperand) (window : Handle)
      (keep : String)
  | createPixmapSurface (display : String) (config : ConfigOperand) (pixmap : Handle)
      (keep : String)
  | createPbufferSurface (display : String) (config : ConfigOperand) (attributes : List Int32)
      (keep : String)
  | makeCurrent (display draw read context : String)
  | makeNotCurrent (display : String)
  | swapBuffers (display surface : String)
  | swapInterval (display : String) (interval : Int32)
  | procAddress (display : String) (name : Option Bytes)
  | contextDisplay (context : String)
  | queryContext (context : String) (attr : Int32)
  | surfaceDisplay (surface : String)
  | surfaceWidth (surface : String)
  | surfaceHeight (surface : String)
  | querySurface (surface : String) (attr : Int32)
  | setSurfaceAttribute (surface : String) (attr value : Int32)
  | reference (config : ConfigOperand)
  | sameConfig (config other : ConfigOperand)
  | configAttribute (config : ConfigOperand) (attr : Int32)
  | describeConfig (config : ConfigOperand)
  | formatConfig (config : ConfigOperand)
  | configProperty (config : ConfigOperand) (property : Property)
  | configProperties (config : ConfigOperand)
  | filterFor (display : Handle) (keep : String)
  | copyFilter (filter keep : String)
  | want (filter : String) (settings : List Setting)
  | filterValue (filter : String) (criterion : Criterion)
  | filterValues (filter : String)
  | filterAttributes (filter : String)
  | chooseConfigs (filter : String) (keep : Option String)
  | clientExtensions
  | clientVersion
  | bindApi (api : UInt32)
  | queryApi
  | releaseThread
  | installedTable
  | install (table : Option Table)
  | configure (change : BackendChange)
  | backend
  | typed (call : TypedCall)

inductive Answer
  | done
  | handle (value : Handle)
  | handles (source target : Handle)
  | number (value : Int32)
  | api (value : UInt32)
  | flag (value : Bool)
  | text (value : String)
  | version (major minor : Int32)
  | config (value : ConfigRef)
  | configs (values : List ConfigRef)
  | property (value : PropertyValue)
  | properties (values : List (Property × PropertyValue))
  | setting (value : Option Int32)
  | settings (values : List (Option Int32))
  | attributes (values : List Int32)
  | table (value : Table)
  | backend (state : Backend)
  | statusOutcome (outcome : Outcome Unit)
  | numberOutcome (outcome : Outcome Int32)
  | handleOutcome (outcome : Outcome Handle)
  | textOutcome (outcome : Outcome String)
  | versionOutcome (outcome : Outcome (Int32 × Int32))
  | bufferOutcome (span : Span) (outcome : Outcome Int32) (written : List Handle)

inductive Fault
  | noSuchSlot
  /-- A place behind the end of a list was named. -/
  | noSuchConfig
  | failed (failure : Failure)
  deriving DecidableEq

end Egl
