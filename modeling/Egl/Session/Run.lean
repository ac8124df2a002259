import Egl.Session.Step

namespace Egl

/-- The owners, lists and filters of a program, and the world around it. -/
structure Session where
  world : World := {}
  displays : Slots Display := {}
  contexts : Slots Context := {}
  surfaces : Slots Surface := {}
  lists : Slots (List ConfigRef) := {}
  filters : Slots Filter := {}

/-- What a step does to a session. -/
abbrev Act (α : Type) := EStateM Fault Session α

namespace Act

variable {α : Type}

def run (op : Op α) : Act α := fun s =>
  match op s.world with
  | .ok a w => .ok a { s with world := w }
  | .error f w => .error (.failed f) { s with world := w }

def resolve (slots : Session → Slots α) (name : String) : Act α := fun s =>
  match (slots s).get? name with
  | some a => .ok a s
  | none => .error .noSuchSlot s

def config : ConfigOperand → Act ConfigRef
  | .direct c => pure c
  | .listed list index => do
    let configs ← resolve Session.lists list
    match configs[index]? with
    | some c => pure c
    | none => throw .noSuchConfig

def keepList (name : Option String) (configs : List ConfigRef) : Act Unit :=
  modify fun s =>
    match name with
    | some name => { s with lists := s.lists.set name configs }
    | none => s

def keepFilter (name : String) (f : Filter) : Act Unit :=
  modify fun s => { s with filters := s.filters.set name f }

end Act

/-- Where a session keeps the owners of one kind. -/
structure Shelf (α : Type) where
  slots : Session → Slots α
  put : Session → Slots α → World → Session

namespace Shelf

def displays : Shelf Display where
  slots := Session.displays
  put s slots w := { s with displays := slots, world := w }

def contexts : Shelf Context where
  slots := Session.contexts
  put s slots w := { s with contexts := slots, world := w }

def surfaces : Shelf Surface where
  slots := Session.surfaces
  put s slots w := { s with surfaces := slots, world := w }

variable {α : Type} [Owner α]

def update (shelf : Shelf α) (change : Slots α → World → Slots α × World) : Act Unit :=
  modify fun s =>
    let (slots, w) := change (shelf.slots s) s.world
    shelf.put s slots w

/-- Creates an owner and puts it into a slot. What the slot held before is released afterwards. -/
def receive (shelf : Shelf α) (op : Op α) (name : String) : Act Answer := do
  let new ← Act.run op
  shelf.update fun slots w => slots.place name new w
  return .handle (Owner.handle new)

/-- Runs a step on the owners of one kind. A move answers what both owners hold after it. -/
def act (shelf : Shelf α) : OwnerStep → Act Answer
  | .handle name => do
    let owner ← Act.resolve shelf.slots name
    return .handle (Owner.handle owner)
  | .forget name => do
    let owner ← Act.resolve shelf.slots name
    shelf.update fun slots w => (slots.forget name owner, w)
    return .handle (Owner.handle owner)
  | .move source target => do
    let owner ← Act.resolve shelf.slots source
    shelf.update fun slots w => slots.move source owner target w
    let left := if source = target then owner else Owner.emptied owner
    return .handles (Owner.handle left) (Owner.handle owner)
  | .drop name => do
    let owner ← Act.resolve shelf.slots name
    shelf.update fun slots w => slots.drop name owner w
    return .done

end Shelf

namespace TypedCall

/-- Makes a typed call. Its error code is a part of the answer. -/
def act : TypedCall → Act Answer
  | status q => .statusOutcome <$> Act.run (Op.perform q)
  | number q => .numberOutcome <$> Act.run (Op.perform q)
  | handle q => .handleOutcome <$> Act.run (Op.perform q)
  | text q => .textOutcome <$> Act.run (Op.perform q)
  | version q => .versionOutcome <$> Act.run (Op.perform q)
  | buffer span q => do
    let (outcome, written) ← Act.run (Op.perform q)
    return .bufferOutcome span outcome written
  | errorState q => .number <$> Act.run (Op.perform q)
  | boundApi q => .api <$> Act.run (Op.perform q)

end TypedCall

namespace Step

def act : Step → Act Answer
  | owner .display step => Shelf.displays.act step
  | owner .context step => Shelf.contexts.act step
  | owner .surface step => Shelf.surfaces.act step
  | connect keep id => Shelf.displays.receive (Display.connect id) keep
  | start display => do
    let d ← Act.resolve Session.displays display
    Act.run d.start
    return .done
  | startVersion display => do
    let d ← Act.resolve Session.displays display
    let (major, minor) ← Act.run d.startVersion
    return .version major minor
  | displayText display text => do
    let d ← Act.resolve Session.displays display
    .text <$> Act.run (d.text text)
  | listConfigs display keep => do
    let d ← Act.resolve Session.displays display
    let configs ← Act.run d.configs
    Act.keepList keep configs
    return .configs configs
  | filterOf display keep => do
    let d ← Act.resolve Session.displays display
    Act.keepFilter keep d.filter
    return .done
  | createContext display config keep version => do
    let d ← Act.resolve Session.displays display
    let c ← Act.config config
    Shelf.contexts.receive (d.createContext c version) keep
  | createWindowSurface display config window keep => do
    let d ← Act.resolve Session.displays display
    let c ← Act.config config
    Shelf.surfaces.receive (d.createWindowSurface c window) keep
  | createPixmapSurface display config pixmap keep => do
    let d ← Act.resolve Session.displays display
    let c ← Act.config config
    Shelf.surfaces.receive (d.createPixmapSurface c pixmap) keep
  | createPbufferSurface display config attributes keep => do
    let d ← Act.resolve Session.displays display
    let c ← Act.config config
    Shelf.surfaces.receive (d.createPbufferSurface c attributes) keep
  | makeCurrent display draw read context => do
    let d ← Act.resolve Session.displays display
    let drawn ← Act.resolve Session.surfaces draw
    let read ← Act.resolve Session.surfaces read
    let c ← Act.resolve Session.contexts context
    Act.run (d.makeCurrent drawn read c)
    return .done
  | makeNotCurrent display => do
    let d ← Act.resolve Session.displays display
    Act.run d.makeNotCurrent
    return .done
  | swapBuffers display surface => do
    let d ← Act.resolve Session.displays display
    let s ← Act.resolve Session.surfaces surface
    Act.run (d.swapBuffers s)
    return .done
  | swapInterval display interval => do
    let d ← Act.resolve Session.displays display
    Act.run (d.swapInterval interval)
    return .done
  | procAddress display name => do
    let _ ← Act.resolve Session.displays display
    .handle <$> Act.run (Display.procAddress name)
  | contextDisplay context => do
    let c ← Act.resolve Session.contexts context
    return .handle c.display
  | queryContext context attr => do
    let c ← Act.resolve Session.contexts context
    .number <$> Act.run (c.query attr)
  | surfaceDisplay surface => do
    let s ← Act.resolve Session.surfaces surface
    return .handle s.display
  | surfaceWidth surface => do
    let s ← Act.resolve Session.surfaces surface
    .number <$> Act.run s.width
  | surfaceHeight surface => do
    let s ← Act.resolve Session.surfaces surface
    .number <$> Act.run s.height
  | querySurface surface attr => do
    let s ← Act.resolve Session.surfaces surface
    .number <$> Act.run (s.query attr)
  | setSurfaceAttribute surface attr value => do
    let s ← Act.resolve Session.surfaces surface
    Act.run (s.setAttribute attr value)
    return .done
  | reference config => .config <$> Act.config config
  | sameConfig config other => do
    let c ← Act.config config
    let d ← Act.config other
    return .flag (c = d)
  | configAttribute config attr => do
    let c ← Act.config config
    .number <$> Act.run (c.attrib attr)
  | describeConfig config => do
    let c ← Act.config config
    .text <$> Act.run c.describe
  | formatConfig config => do
    let c ← Act.config config
    let text ← Act.run c.describe
    return .text ("<" ++ text ++ ">")
  | configProperty config property => do
    let c ← Act.config config
    .property <$> Act.run (c.query property)
  | configProperties config => do
    let c ← Act.config config
    .properties <$> Act.run c.queryAll
  | filterFor display keep => do
    Act.keepFilter keep { display := display }
    return .done
  | copyFilter filter keep => do
    let f ← Act.resolve Session.filters filter
    Act.keepFilter keep f
    return .done
  | want filter settings => do
    let f ← Act.resolve Session.filters filter
    Act.keepFilter filter (f.wantAll settings)
    return .done
  | filterValue filter criterion => do
    let f ← Act.resolve Session.filters filter
    return .setting (f.get criterion)
  | filterValues filter => do
    let f ← Act.resolve Session.filters filter
    return .settings (Criterion.all.map f.get)
  | filterAttributes filter => do
    let f ← Act.resolve Session.filters filter
    return .attributes f.attributes
  | chooseConfigs filter keep => do
    let f ← Act.resolve Session.filters filter
    let configs ← Act.run f.chooseConfigs
    Act.keepList keep configs
    return .configs configs
  | clientExtensions => .text <$> Act.run Client.extensions
  | clientVersion => .text <$> Act.run Client.version
  | bindApi api => do
    Act.run (Client.bindApi api)
    return .done
  | queryApi => .api <$> Act.run Client.queryApi
  | releaseThread => do
    Act.run Client.releaseThread
    return .done
  | installedTable => do
    let s ← get
    return .table s.world.table
  | install table => do
    let s ← get
    let (previous, w) := s.world.install table
    set { s with world := w }
    return .table previous
  | configure change => do
    modify fun s => { s with world := s.world.configure change }
    return .done
  | backend => do
    let s ← get
    return .backend s.world.backend
  | typed call => call.act

end Step

structure Record where
  result : Except Fault Answer
  events : List Event

namespace Session

def fresh (s : Session) : Session := { s with world := { s.world with journal := [] } }

def step (s : Session) (st : Step) : Record × Session :=
  match st.act s.fresh with
  | .ok answer after => (⟨.ok answer, after.world.journal⟩, after)
  | .error fault after => (⟨.error fault, after.world.journal⟩, after)

def run (s : Session) : List Step → List Record × Session
  | [] => ([], s)
  | st :: rest =>
    let (record, after) := s.step st
    let (records, final) := after.run rest
    (record :: records, final)

/-- Releases what all slots hold: surfaces, then contexts, then displays. -/
def finish (s : Session) : World :=
  s.displays.releaseAll (s.contexts.releaseAll (s.surfaces.releaseAll s.fresh.world))

/-- A whole session: the records of its steps, and the world after everything was released. -/
def complete (s : Session) (steps : List Step) : List Record × World :=
  let (records, final) := s.run steps
  (records, final.finish)

end Session

end Egl
