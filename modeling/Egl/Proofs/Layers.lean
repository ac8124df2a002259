import Egl.Proofs.TypedCalls
import Egl.Client

namespace Egl.Proofs

variable {α β γ : Type} {subject : Bytes} {w mid other after : World} {q : Request (Outcome β)}

/-- The recorded calls, with their replies. -/
def exchanges (w : World) : List Event :=
  w.journal.filter fun
    | .call .. => true
    | .notice _ => false

/-- Two worlds are the same but for lines in the log. -/
structure Agrees (w other : World) : Prop where
  backend : other.backend = w.backend
  script : other.script = w.script
  library : other.library = w.library
  installed : other.installed = w.installed
  exchanges : exchanges other = exchanges w

theorem Agrees.refl (w : World) : Agrees w w := ⟨rfl, rfl, rfl, rfl, rfl⟩

theorem Agrees.trans (h : Agrees w mid) (h' : Agrees mid other) : Agrees w other :=
  ⟨h'.backend.trans h.backend, h'.script.trans h.script, h'.library.trans h.library,
    h'.installed.trans h.installed, h'.exchanges.trans h.exchanges⟩

theorem note_agrees (w : World) (n : Notice) : Agrees w (w.note n) :=
  ⟨rfl, rfl, rfl, rfl, by simp [exchanges, note_journal]⟩

theorem Agrees.table (h : Agrees w other) : other.table = w.table := by
  rw [World.table, h.installed, World.table]

/-- What is in the log makes no difference to a call. -/
theorem exchange_agrees (h : Agrees w other) (c : Call) :
    (other.exchange c).1 = (w.exchange c).1 ∧ Agrees (w.exchange c).2 (other.exchange c).2 := by
  unfold World.exchange World.answer
  rw [h.table, h.script, h.backend, h.library]
  have hrecorded : ∀ reply, exchanges other ++ [.call w.table c reply] =
      exchanges w ++ [.call w.table c reply] := fun reply => by rw [h.exchanges]
  split
  · exact ⟨rfl, rfl, rfl, rfl, h.installed, h.exchanges⟩
  · rcases w.script.next c.entry with ⟨_ | reply, script⟩
    · refine ⟨rfl, rfl, rfl, rfl, h.installed, ?_⟩
      simpa [exchanges, World.record] using hrecorded (w.backend.answer c).1
    · refine ⟨rfl, rfl, rfl, rfl, h.installed, ?_⟩
      simpa [exchanges, World.record] using hrecorded reply

/-- A program that only writes to the log, and then returns a value. -/
def Logs (op : Op α) (a : α) : Prop := ∀ w, ∃ after, op w = .ok a after ∧ Agrees w after

theorem Logs.pure (a : α) : Logs (pure a) a := fun w => ⟨w, rfl, .refl w⟩

theorem Logs.note (n : Notice) {op : Op α} {a : α} (h : Logs op a) :
    Logs (do Op.note n; op) a := by
  intro w
  obtain ⟨after, hop, ha⟩ := h (w.note n)
  exact ⟨after, hop, (note_agrees w n).trans ha⟩

/-- How an operation ends that hands on what a typed call came to. A failure concerns the
subject. -/
inductive Echoes (subject : Bytes) (decode : β → α) :
    Outcome β × World → EStateM.Result Failure World α → Prop
  | returned {b : β} {typed after : World} (h : Agrees typed after) :
    Echoes subject decode (.ok b, typed) (.ok (decode b) after)
  | failed {code : ErrorCode} {typed after : World} (hc : code.isSet = true)
      (h : Agrees typed after) :
    Echoes subject decode (.error code, typed) (.error (.coded code subject) after)

/-- An operation refines a typed call in every world. -/
structure Refines (subject : Bytes) (op : Op α) (q : Request (Outcome β)) (decode : β → α) :
    Prop where
  /-- It makes the same call and leaves the same behind, but for lines in the log. -/
  made : ∀ w : World, Agrees (w.perform q).2 (final (op w))
  /-- It fails exactly if the typed call returns a code that is set, and then with that code. -/
  fails : ∀ (w : World) (f : Failure), (∃ after, op w = .error f after) ↔
    ∃ code, errorCode (w.perform q).1 = some code ∧ code.isSet = true ∧ f = .coded code subject
  /-- Otherwise it returns the output of the typed call, decoded. -/
  returns : ∀ (w : World) (a : α), (∃ after, op w = .ok a after) ↔
    ∃ b, (w.perform q).1 = .ok b ∧ a = decode b

/-- The attribute that stands for a property of configs. -/
def attributeOf : Property → Int32
  | .alphaMaskSize => 0x303E
  | .alphaSize => 0x3021
  | .bindToTextureRgb => 0x3039
  | .bindToTextureRgba => 0x303A
  | .blueSize => 0x3022
  | .bufferSize => 0x3020
  | .colorBufferType => 0x303F
  | .configCaveat => 0x3027
  | .configId => 0x3028
  | .conformant => 0x3042
  | .depthSize => 0x3025
  | .greenSize => 0x3023
  | .level => 0x3029
  | .luminanceSize => 0x303D
  | .maxPbufferHeight => 0x302A
  | .maxPbufferPixels => 0x302B
  | .maxPbufferWidth => 0x302C
  | .maxSwapInterval => 0x303C
  | .minSwapInterval => 0x303B
  | .nativeRenderable => 0x302D
  | .nativeVisualId => 0x302E
  | .nativeVisualType => 0x302F
  | .redSize => 0x3024
  | .renderableType => 0x3040
  | .sampleBuffers => 0x3032
  | .samples => 0x3031
  | .stencilSize => 0x3026
  | .surfaceType => 0x3033
  | .transparentBlueValue => 0x3035
  | .transparentGreenValue => 0x3036
  | .transparentRedValue => 0x3037
  | .transparentType => 0x3034

/-- What a raw attribute says about a property: one alone raises a flag, masks lose the bits that
have no name, and everything else stays as it is. -/
def decoded : Property → Int32 → PropertyValue
  | .bindToTextureRgb | .bindToTextureRgba | .nativeRenderable => fun raw => .flag (raw = 1)
  | .conformant | .renderableType => fun raw => .number (raw &&& 0x4F)
  | .surfaceType => fun raw => .number (raw &&& 0x667)
  | _ => .number

/-- A typed call that has no way to fail, as one that never does. -/
def certain (q : Request β) : Request (Outcome β) where
  call := q.call
  read r := .ok (q.read r)

/-- The operations that make one call: the subject of their failures, the typed call behind them, on
the handles that they hold, and what they make of its output. -/
inductive SingleCall : {α β : Type} → Bytes → Op α → Request (Outcome β) → (β → α) → Prop
  | connect (id : Handle) :
    SingleCall (.ofString "eglGetDisplay") (Display.connect id) (.getDisplay id) Display.mk
  | start (d : Display) :
    SingleCall (.ofString "eglInitialize") d.start (.initializeOnly d.handle) id
  | startVersion (d : Display) :
    SingleCall (.ofString "eglInitialize") d.startVersion (.initializeVersion d.handle) id
  | clientApis (d : Display) :
    SingleCall (.ofString "eglQueryString") (d.text .clientApis)
      (.queryString d.handle Code.clientApis) id
  | vendor (d : Display) :
    SingleCall (.ofString "eglQueryString") (d.text .vendor) (.queryString d.handle Code.vendor) id
  | version (d : Display) :
    SingleCall (.ofString "eglQueryString") (d.text .version)
      (.queryString d.handle Code.version) id
  | extensions (d : Display) :
    SingleCall (.ofString "eglQueryString") (d.text .extensions)
      (.queryString d.handle Code.extensions) id
  | createContext (d : Display) (config : ConfigRef) :
    SingleCall (.ofString "eglCreateContext") (d.createContext config none)
      (.createContext d.handle config.handle 0 none) (Resource.mk d.handle)
  | createContextVersion (d : Display) (config : ConfigRef) (version : Int32) :
    SingleCall (.ofString "eglCreateContext") (d.createContext config (some version))
      (.createContext d.handle config.handle 0
        (some [Code.contextClientVersion, version, Code.none])) (Resource.mk d.handle)
  | createWindowSurface (d : Display) (config : ConfigRef) (window : Handle) :
    SingleCall (.ofString "eglCreateWindowSurface") (d.createWindowSurface config window)
      (.createWindowSurface d.handle config.handle window none) (Resource.mk d.handle)
  | createPixmapSurface (d : Display) (config : ConfigRef) (pixmap : Handle) :
    SingleCall (.ofString "eglCreatePixmapSurface") (d.createPixmapSurface config pixmap)
      (.createPixmapSurface d.handle config.handle pixmap none) (Resource.mk d.handle)
  | createPbufferSurface (d : Display) (config : ConfigRef) (attributes : List Int32) :
    SingleCall (.ofString "eglCreatePbufferSurface") (d.createPbufferSurface config attributes)
      (.createPbufferSurface d.handle config.handle
        (some (AttributeList.closed Code.none attributes))) (Resource.mk d.handle)
  | makeCurrent (d : Display) (draw read : Surface) (context : Context) :
    SingleCall (.ofString "eglMakeCurrent") (d.makeCurrent draw read context)
      (.makeCurrent d.handle draw.handle read.handle context.handle) id
  | makeNotCurrent (d : Display) :
    SingleCall (.ofString "eglMakeCurrent") d.makeNotCurrent (.makeCurrent d.handle 0 0 0) id
  | swapBuffers (d : Display) (s : Surface) :
    SingleCall (.ofString "eglSwapBuffers") (d.swapBuffers s) (.swapBuffers d.handle s.handle) id
  | swapInterval (d : Display) (interval : Int32) :
    SingleCall (.ofString "eglSwapInterval") (d.swapInterval interval)
      (.swapInterval d.handle interval) id
  /-- Here a failure concerns the function that was asked for. -/
  | procAddress (name : Bytes) :
    SingleCall name.upToZero (Display.procAddress (some name)) (.getProcAddress name) id
  | queryContext (c : Context) (attr : Int32) :
    SingleCall (.ofString "eglQueryContext") (c.query attr)
      (.queryContext c.display c.handle attr) id
  | querySurface (s : Surface) (attr : Int32) :
    SingleCall (.ofString "eglQuerySurface") (s.query attr)
      (.querySurface s.display s.handle attr) id
  | width (s : Surface) :
    SingleCall (.ofString "eglQuerySurface") s.width
      (.querySurface s.display s.handle Code.width) id
  | height (s : Surface) :
    SingleCall (.ofString "eglQuerySurface") s.height
      (.querySurface s.display s.handle Code.height) id
  | setAttribute (s : Surface) (attr value : Int32) :
    SingleCall (.ofString "eglSurfaceAttrib") (s.setAttribute attr value)
      (.surfaceAttrib s.display s.handle attr value) id
  | attrib (c : ConfigRef) (attr : Int32) :
    SingleCall (.ofString "eglGetConfigAttrib") (c.attrib attr)
      (.getConfigAttrib c.display c.handle attr) id
  | property (c : ConfigRef) (p : Property) :
    SingleCall (.ofString "eglGetConfigAttrib") (c.query p)
      (.getConfigAttrib c.display c.handle (attributeOf p)) (decoded p)
  | clientExtensions :
    SingleCall (.ofString "eglQueryString") Client.extensions (.queryString 0 Code.extensions) id
  | clientVersion :
    SingleCall (.ofString "eglQueryString") Client.version (.queryString 0 Code.version) id
  | bindApi (api : UInt32) :
    SingleCall (.ofString "eglBindAPI") (Client.bindApi api) (.bindApi api) id
  | queryApi :
    SingleCall (.ofString "eglQueryAPI") Client.queryApi (certain .queryApi) id
  | releaseThread :
    SingleCall (.ofString "eglReleaseThread") Client.releaseThread .releaseThread id

theorem echoes_requireAs (hset : ∀ r code, q.read r = .error code → code.isSet = true)
    (subject : Bytes) (w : World) :
    Echoes subject id (w.perform q) (Op.requireAs subject q w) := by
  rcases hx : w.exchange q.call with ⟨reply, after⟩
  have hp : w.perform q = (q.read reply, after) := by simp only [World.perform, hx]
  rw [hp, Op.requireAs, bind_ok (perform_eq hx)]
  cases hr : q.read reply with
  | ok b => exact .returned (.refl after)
  | error code => exact .failed (hset reply code hr) (.refl after)

/-- Logging and decoding after a call do not change what it came to. -/
theorem Echoes.finish {op : Op α} {decode : β → α} {next : α → Op γ}
    (h : Echoes subject decode (w.perform q) (op w)) (last : α → γ)
    (hn : ∀ a, Logs (next a) (last a)) :
    Echoes subject (last ∘ decode) (w.perform q) ((op >>= next) w) := by
  generalize ho : op w = result at h
  generalize w.perform q = typed at h
  cases h with
  | @returned b _ after h =>
    obtain ⟨last, hnext, ha⟩ := hn (decode b) after
    rw [bind_ok ho, hnext]
    exact .returned (h.trans ha)
  | failed hc h =>
    rw [bind_error ho]
    exact .failed hc h

/-- Logging before a call does not change what it comes to. -/
theorem Echoes.note {op : Op α} {decode : β → α} (n : Notice)
    (h : ∀ w : World, Echoes subject decode (w.perform q) (op w)) (w : World) :
    Echoes subject decode (w.perform q) ((do Op.note n; op) w) := by
  obtain ⟨hreply, ha⟩ := exchange_agrees (note_agrees w n) q.call
  have hnoted := h (w.note n)
  have hp : (w.note n).perform q = ((w.perform q).1, ((w.note n).exchange q.call).2) :=
    Prod.ext (congrArg q.read hreply) rfl
  rw [hp] at hnoted
  change Echoes subject decode (w.perform q) (op (w.note n))
  generalize op (w.note n) = result at hnoted ⊢
  rcases hw : w.perform q with ⟨outcome, after⟩
  have hafter : after = (w.exchange q.call).2 := (congrArg Prod.snd hw).symm
  rw [hw] at hnoted
  rw [hafter]
  cases hnoted with
  | returned h => exact .returned (ha.trans h)
  | failed hc h => exact .failed hc (ha.trans h)

theorem refines_of_echoes {op : Op α} {decode : β → α}
    (h : ∀ w : World, Echoes subject decode (w.perform q) (op w)) :
    Refines subject op q decode := by
  refine ⟨fun w => ?_, fun w f => ?_, fun w a => ?_⟩
  all_goals
    have hw := h w
    generalize op w = result at hw ⊢
    generalize w.perform q = typed at hw ⊢
    cases hw
  case refine_1.returned h => exact h
  case refine_1.failed h => exact h
  case refine_2.returned =>
    constructor
    · rintro ⟨_, ⟨⟩⟩
    · rintro ⟨_, ⟨⟩, _⟩
  case refine_2.failed code _ _ hc _ =>
    constructor
    · rintro ⟨_, ⟨⟩⟩
      exact ⟨code, rfl, hc, rfl⟩
    · rintro ⟨_, ⟨⟩, -, rfl⟩
      exact ⟨_, rfl⟩
  case refine_3.returned b _ _ _ =>
    constructor
    · rintro ⟨_, ⟨⟩⟩
      exact ⟨b, rfl, rfl⟩
    · rintro ⟨_, ⟨⟩, rfl⟩
      exact ⟨_, rfl⟩
  case refine_3.failed =>
    constructor
    · rintro ⟨_, ⟨⟩⟩
    · rintro ⟨_, ⟨⟩, _⟩

/-- A code that a reply stands for is not the code of success. -/
theorem failure_isSet {e : EntryPoint} {r : Reply} {code : ErrorCode} (hc : e.canFail = true)
    (h : failure e r = some code) : code.isSet = true := by
  unfold failure at h
  split at h
  · rw [← Option.some.inj h]
    exact hc
  · split at h
    · rw [← Option.some.inj h]
      rfl
    · cases h

theorem echoes_require {native : Reply → β} (h : Reads q native) (hc : q.call.entry.canFail = true)
    (subject : Bytes) (w : World) :
    Echoes subject id (w.perform q) (Op.requireAs subject q w) := by
  refine echoes_requireAs (fun r code hr => ?_) subject w
  rw [h r] at hr
  cases hf : failure q.call.entry r with
  | none =>
    rw [hf] at hr
    cases hr
  | some other =>
    rw [hf] at hr
    cases hr
    exact failure_isSet hc hf

/-- A new context or surface knows its display, and holds the handle that was handed out. -/
theorem echoes_create {kind : ResourceKind} {display : Handle} {what : String}
    {q : Request (Outcome Handle)} (h : Reads q Reply.ret) (hc : q.call.entry.canFail = true)
    (w : World) :
    Echoes (.ofString what) (Resource.mk display) (w.perform q)
      (Resource.create kind display what q w) :=
  (echoes_require h hc _ w).finish (Resource.mk display) fun handle =>
    .note (.created kind handle) (.pure _)

/-- Every operation that makes one call refines the typed call behind it. -/
theorem single_calls_refine {op : Op α} {decode : β → α} (h : SingleCall subject op q decode) :
    Refines subject op q decode := by
  refine refines_of_echoes fun w => ?_
  cases h
  case connect id =>
    exact (echoes_require (reads_handle rfl) rfl _ w).finish Display.mk fun handle =>
      .note (.connected handle) (.pure _)
  case startVersion d =>
    exact (echoes_require (reads_version d.handle) rfl _ w).finish id fun (major, minor) =>
      .note (.versionKnown d.handle major minor) (.pure _)
  case makeCurrent d draw read context =>
    exact .note _ (echoes_require (reads_status rfl) rfl _) w
  case property c p =>
    have hcode : p.code = attributeOf p := by cases p <;> rfl
    have hdecoded : p.kind.value = decoded p := by cases p <;> rfl
    rw [← hcode, ← hdecoded]
    exact (echoes_require (reads_value rfl) rfl _ w).finish p.kind.value fun _ => .pure _
  case createContext | createContextVersion | createWindowSurface | createPixmapSurface
    | createPbufferSurface =>
    exact echoes_create (reads_handle rfl) rfl w
  case procAddress => exact echoes_require (reads_handle rfl) rfl _ w
  case clientApis | vendor | version | extensions | clientExtensions | clientVersion =>
    exact echoes_require (reads_text rfl) rfl _ w
  case queryContext | querySurface | width | height | attrib =>
    exact echoes_require (reads_value rfl) rfl _ w
  case start | makeNotCurrent | swapBuffers | swapInterval | setAttribute | bindApi
    | releaseThread => exact echoes_require (reads_status rfl) rfl _ w
  case queryApi => exact .returned (.refl _)

theorem single_calls_refine_blue :
    SingleCall (.ofString "eglGetConfigAttrib")
        (ConfigRef.query ⟨208, 1⟩ .transparentBlueValue) (.getConfigAttrib 208 1 0x3035)
        PropertyValue.number ∧
      Refines (.ofString "eglGetConfigAttrib")
        (ConfigRef.query ⟨208, 1⟩ .transparentBlueValue) (.getConfigAttrib 208 1 0x3035)
        PropertyValue.number :=
  have h := SingleCall.property ⟨208, 1⟩ .transparentBlueValue
  ⟨h, single_calls_refine h⟩

end Egl.Proofs
