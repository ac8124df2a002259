import Egl.Backend.State

namespace Egl.Backend

/-- The handles of the configs that meet a request, in the order of the table. -/
def matching (b : Backend) (request : List (Int32 × Int32)) : List Handle :=
  (b.configs.zipIdx.filter fun (attributes, _) => attributes.satisfies request).map
    fun (_, index) => configHandle index

/-- How many configs go into a buffer of a size; a negative size or limit acts as zero. -/
def room (b : Backend) (size : Int32) : Nat :=
  match b.fillLimit with
  | none => size.toInt.toNat
  | some limit => min size.toInt.toNat limit.toInt.toNat

/-- The answer to a request for configs. Without a buffer, all of them are counted. -/
def chosen (b : Backend) (request : List (Int32 × Int32)) (buffer : Option Int32) : Reply :=
  let handles := b.matching request
  match buffer with
  | none => .value (.ofNat handles.length)
  | some size =>
    let written := handles.take (b.room size)
    { ret := 1, out := [.ofNat written.length], fill := written }

/-- The answer to a request for the whole table. The reported count is the least of the table's
length, the size of the buffer and the limit, even if it is negative. -/
def listed (b : Backend) (buffer : Option Int32) : Reply :=
  let length := Int32.ofNat b.configs.length
  match buffer with
  | none => .value length
  | some size =>
    let fits := min length size
    let count := match b.fillLimit with
      | none => fits
      | some limit => min fits limit
    { ret := 1, out := [count], fill := (List.range count.toInt.toNat).map configHandle }

def newContext (b : Backend) : Reply × Backend :=
  (.handle b.nextContext, { b with nextContext := b.nextContext + 1 })

/-- Hands out the next surface. All kinds of surface are numbered together. -/
def newSurface (b : Backend) : Reply × Backend :=
  (.handle b.nextSurface, { b with nextSurface := b.nextSurface + 1 })

def serves (b : Backend) (display config : Handle) : Bool :=
  display = displayHandle && (b.config? config).isSome

/-- The value of an attribute as an answer; a missing one fails. -/
def found (value : Option Int32) : Reply :=
  match value with
  | some v => .value v
  | none => .null

def kept (attributes : Option (List Int32)) : List Int32 :=
  (AttributeList.trimmed Code.none attributes).getD []

def respond (b : Backend) : Call → Reply × Backend
  | .bindApi api =>
    if api = Code.openglApi ∨ api = Code.openglEsApi ∨ api = Code.openvgApi then
      (.status true, { b with boundApi := api })
    else (.null, b)
  | .bindTexImage d _ _ => (.status (d = displayHandle), b)
  | .chooseConfig d attrs buffer =>
    if d = displayHandle then
      (b.chosen (AttributeList.pairs Code.none attrs) buffer,
        { b with chooseAttributes := kept attrs })
    else (.null, b)
  | .copyBuffers d _ _ => (.status (d = displayHandle), b)
  | .createContext d c _ attrs =>
    if b.serves d c then { b with contextAttributes := kept attrs }.newContext else (.null, b)
  | .createPbufferFromClientBuffer d _ _ _ _ =>
    if d = displayHandle then b.newSurface else (.null, b)
  | .createPbufferSurface d c attrs =>
    if b.serves d c then { b with surfaceAttributes := kept attrs }.newSurface else (.null, b)
  | .createPixmapSurface d c _ attrs =>
    if b.serves d c then { b with surfaceAttributes := kept attrs }.newSurface else (.null, b)
  | .createPlatformWindowSurface d c _ _ => if b.serves d c then b.newSurface else (.null, b)
  | .createWindowSurface d c _ attrs =>
    if b.serves d c then { b with surfaceAttributes := kept attrs }.newSurface else (.null, b)
  | .destroyContext d context => (.status (d = displayHandle && context ≠ 0), b)
  | .destroySurface d s => (.status (d = displayHandle && s ≠ 0), b)
  | .getConfigAttrib d c attr =>
    (if d = displayHandle then found ((b.config? c).map (·.value attr)) else .null, b)
  | .getConfigs d buffer => (if d = displayHandle then b.listed buffer else .null, b)
  | .getCurrentContext => (.handle b.currentContext, b)
  | .getCurrentDisplay => (if b.currentContext = 0 then .null else .handle displayHandle, b)
  | .getCurrentSurface which =>
    (if which = Code.draw then .handle b.currentDraw
      else if which = Code.read then .handle b.currentRead
      else .null, b)
  | .getDisplay _ => (if b.hasDisplay then .handle displayHandle else .null, b)
  | .getProcAddress name =>
    (if name ∈ knownFunctions then .handle functionAddress else .null, b)
  | .initializeDisplay d wantsVersion =>
    if d = displayHandle then
      ({ ret := 1, out := if wantsVersion then [b.major, b.minor] else [] },
        { b with isInitialized := true, isTerminated := false })
    else (.null, b)
  | .makeCurrent d draw read context =>
    if d = displayHandle then
      (.status true, { b with currentDraw := draw, currentRead := read, currentContext := context })
    else (.null, b)
  | .queryContext d context attr =>
    (if d = displayHandle ∧ context ≠ 0 then found (b.contextValues.get? attr) else .null, b)
  | .queryString d name =>
    (if d = 0 then { text := b.clientStrings.get? name }
      else if d = displayHandle then { text := b.strings.get? name }
      else .null, b)
  | .querySurface d s attr =>
    (if d = displayHandle ∧ s ≠ 0 then found (b.surfaceValues.get? attr) else .null, b)
  | .releaseTexImage d _ _ => (.status (d = displayHandle), b)
  | .releaseThread =>
    (.status true, { b with currentDraw := 0, currentRead := 0, currentContext := 0 })
  | .surfaceAttrib d s attr value =>
    if d = displayHandle ∧ s ≠ 0 then
      (.status true, { b with surfaceValues := b.surfaceValues.set attr value })
    else (.null, b)
  | .swapBuffers d s => (.status (d = displayHandle && s ≠ 0), b)
  | .swapInterval d _ => (.status (d = displayHandle), b)
  | .terminate d =>
    if d = displayHandle then
      (.status true, { b with isInitialized := false, isTerminated := true })
    else (.null, b)
  | .waitClient => (.status true, b)
  | .waitGL => (.status true, b)
  | .waitNative engine => (.status (engine = Code.coreNativeEngine), b)
  | .getError => (.handle Code.success.toUInt32.toNat, b)
  | .queryApi => (.handle b.boundApi.toNat, b)

/-- The answer to a call. A call that can fail is counted first, and then fails if its entry point
is switched to. -/
def answer (b : Backend) (c : Call) : Reply × Backend :=
  if c.entry.canFail then
    let b := { b with reached := c.entry :: b.reached }
    if c.entry ∈ b.failures then (.null, b) else b.respond c
  else b.respond c

end Egl.Backend
