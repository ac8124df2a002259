import Egl.Proofs.Steps

namespace Egl.Proofs

variable {α β : Type} {k : OwnerKind} {s : Session} {st : Step}

/-- The entry points that hand out contexts and surfaces. -/
def creates : EntryPoint → Bool
  | .createContext | .createPbufferFromClientBuffer | .createPbufferSurface | .createPixmapSurface
  | .createPlatformWindowSurface | .createWindowSurface => true
  | _ => false

/-- The contexts and surfaces among the arguments of a call. -/
def handed : Call → List (OwnerKind × Handle)
  | .bindTexImage _ surface _ => [(.surface, surface)]
  | .copyBuffers _ surface _ => [(.surface, surface)]
  | .createContext _ _ share _ => [(.context, share)]
  | .destroyContext _ context => [(.context, context)]
  | .destroySurface _ surface => [(.surface, surface)]
  | .makeCurrent _ draw read context => [(.surface, draw), (.surface, read), (.context, context)]
  | .queryContext _ context _ => [(.context, context)]
  | .querySurface _ surface _ => [(.surface, surface)]
  | .releaseTexImage _ surface _ => [(.surface, surface)]
  | .surfaceAttrib _ surface _ _ => [(.surface, surface)]
  | .swapBuffers _ surface => [(.surface, surface)]
  | _ => []

/-- The handles that the slots of one kind hold. The null handle is none. -/
def held (k : OwnerKind) (s : Session) : List Handle :=
  (((shelf k).slots s).values.map Owner.handle).filter (· ≠ 0)

/-- A call passes on no context or surface but those that slots hold. -/
def Provided (s : Session) (c : Call) : Prop := ∀ p ∈ handed c, p.2 = 0 ∨ p.2 ∈ held p.1 s

/-- A call that neither hands out nor gives back anything, on what slots hold. -/
structure Modest (s : Session) (c : Call) : Prop where
  spares : givesBack c.entry = false
  barren : ∀ handle, gain c handle = none
  provided : Provided s c

/-- A step that sets up what is behind the calls: the table, the implementation or the script. -/
def arranges : Step → Bool
  | .install _ | .configure _ => true
  | _ => false

theorem Modest.of_none {c : Call} (hs : givesBack c.entry = false) (hb : gain c = fun _ => none)
    (hn : handed c = []) : Modest s c := by
  refine ⟨hs, congrFun hb, fun p hp => ?_⟩
  rw [hn] at hp
  cases hp

theorem Modest.uncreative {c : Call} (h : Modest s c) : creates c.entry = false := by
  cases c <;> first | rfl | cases h.barren 0

theorem mem_held {handle : Handle} :
    handle ∈ held k s ↔
      handle ≠ 0 ∧ ∃ owner ∈ ((shelf k).slots s).values, Owner.handle owner = handle := by
  simp only [held, List.mem_filter, List.mem_map, decide_eq_true_eq, and_comm]

theorem held_of_get? {name : String} {owner : Owned k}
    (h : ((shelf k).slots s).get? name = some owner) :
    Owner.handle owner = 0 ∨ Owner.handle owner ∈ held k s := by
  by_cases hz : Owner.handle owner = 0
  · exact .inl hz
  · exact .inr (mem_held.mpr ⟨hz, owner, mem_values h, rfl⟩)

/-- How a step that only uses owners can end. -/
structure Used (s : Session) (result : EStateM.Result Fault Session α) : Prop where
  slots : ∀ k, (shelf k).slots (final result) = (shelf k).slots s
  went : Went (Within (Modest s)) s.world (final result).world
  /-- A fault comes before anything is kept. -/
  faulted : ∀ fault after, result = .error fault after → after = { s with world := after.world }

/-- An act that can only keep lists and filters. -/
def Keeps (act : Act α) : Prop :=
  ∀ s, ∃ a after, act s = .ok a after ∧ (∀ k, (shelf k).slots after = (shelf k).slots s) ∧
    after.world = s.world

theorem Keeps.pure (a : α) : Keeps (pure a) := fun s => ⟨a, s, rfl, fun _ => rfl, rfl⟩

theorem Keeps.bind {act : Act α} {next : α → Act β} (h : Keeps act) (hn : ∀ a, Keeps (next a)) :
    Keeps (act >>= next) := by
  intro s
  obtain ⟨a, mid, ha, hslots, hworld⟩ := h s
  obtain ⟨b, after, hb, hslots', hworld'⟩ := hn a mid
  refine ⟨b, after, ?_, fun k => (hslots' k).trans (hslots k), hworld'.trans hworld⟩
  rw [bind_ok ha, hb]

theorem Keeps.keepList (name : Option String) (configs : List ConfigRef) :
    Keeps (Act.keepList name configs) := by
  intro s
  cases name with
  | none => exact ⟨(), s, rfl, fun _ => rfl, rfl⟩
  | some name => exact ⟨(), _, rfl, fun k => by cases k <;> rfl, rfl⟩

theorem Keeps.keepFilter (name : String) (f : Filter) : Keeps (Act.keepFilter name f) :=
  fun _ => ⟨(), _, rfl, fun k => by cases k <;> rfl, rfl⟩

theorem Keeps.used {act : Act α} (h : Keeps act) (s : Session) : Used s (act s) := by
  obtain ⟨a, after, ha, hslots, hworld⟩ := h s
  rw [ha]
  refine ⟨hslots, ?_, fun _ _ h => by cases h⟩
  change Went _ s.world after.world
  rw [hworld]
  exact .refl

theorem Used.refl_error (fault : Fault) : Used s (.error fault s : EStateM.Result _ _ α) := by
  refine ⟨fun _ => rfl, .refl, ?_⟩
  rintro _ _ ⟨⟩
  rfl

theorem resolve_used {slots : Session → Slots α} {name : String} {next : α → Act β}
    (h : ∀ a, (slots s).get? name = some a → Used s (next a s)) :
    Used s ((Act.resolve slots name >>= next) s) := by
  rcases resolve_eq slots name s with ⟨a, ha, hres⟩ | ⟨-, hres⟩
  · rw [bind_ok hres]
    exact h a ha
  · rw [bind_error hres]
    exact .refl_error _

theorem config_used {c : ConfigOperand} {next : ConfigRef → Act β}
    (h : ∀ config, Used s (next config s)) : Used s ((Act.config c >>= next) s) := by
  rcases config_eq c s with ⟨config, hconf⟩ | ⟨fault, hconf⟩
  · rw [bind_ok hconf]
    exact h config
  · rw [bind_error hconf]
    exact .refl_error _

/-- An operation on what slots hold, after which lists or filters may be kept. -/
theorem run_used {op : Op α} {next : α → Act β} (h : Confined (Modest s) op)
    (hn : ∀ a, Keeps (next a)) : Used s ((Act.run op >>= next) s) := by
  have hw := h s.world
  cases ho : op s.world with
  | ok a w =>
    have hrun : Act.run op s = .ok a { s with world := w } := by simp only [Act.run, ho]
    rw [ho] at hw
    obtain ⟨b, after, hb, hslots, hworld⟩ := hn a { s with world := w }
    rw [bind_ok hrun, hb]
    refine ⟨fun k => (hslots k).trans (shelf_world k s w), ?_, fun _ _ h => by cases h⟩
    change Went _ s.world after.world
    rwa [hworld]
  | error f w =>
    have hrun : Act.run op s = .error (.failed f) { s with world := w } := by
      simp only [Act.run, ho]
    rw [ho] at hw
    rw [bind_error hrun]
    refine ⟨fun k => shelf_world k s w, hw, ?_⟩
    rintro _ _ ⟨⟩
    rfl

/-- An operation on what slots hold, whose value is the answer. -/
theorem read_used {op : Op α} {f : α → β} (h : Confined (Modest s) op) :
    Used s ((f <$> Act.run op) s) := by
  rw [map_eq_pure_bind]
  exact run_used h fun _ => .pure _

theorem require_modest {what : String} {q : Request (Outcome α)}
    (hs : givesBack q.call.entry = false) (hb : gain q.call = fun _ => none)
    (hn : handed q.call = []) : Confined (Modest s) (Op.require what q) :=
  require_confined (.of_none hs hb hn)

/-- The queries of a config pass on no context and no surface. -/
theorem attrib_modest (c : ConfigRef) (attr : Int32) :
    Modest s (.getConfigAttrib c.display c.handle attr) := .of_none rfl rfl rfl

/-- A call that passes on what one slot holds. -/
theorem holder_modest {name : String} {owner : Owned k} {c : Call}
    (h : ((shelf k).slots s).get? name = some owner) (hs : givesBack c.entry = false)
    (hb : gain c = fun _ => none) (hn : handed c = [(k, Owner.handle owner)]) : Modest s c := by
  refine ⟨hs, congrFun hb, fun p hp => ?_⟩
  rw [hn, List.mem_singleton] at hp
  rw [hp]
  exact held_of_get? h

theorem makeCurrent_modest {d : Display} {draw read : Surface} {c : Context}
    {first second third : String} (hdraw : s.surfaces.get? first = some draw)
    (hread : s.surfaces.get? second = some read) (hc : s.contexts.get? third = some c) :
    Modest s (.makeCurrent d.handle draw.handle read.handle c.handle) := by
  refine ⟨rfl, fun _ => rfl, fun p hp => ?_⟩
  simp only [handed, List.mem_cons, List.not_mem_nil, or_false] at hp
  rcases hp with rfl | rfl | rfl
  · exact held_of_get? (k := .surface) hdraw
  · exact held_of_get? (k := .surface) hread
  · exact held_of_get? (k := .context) hc

/-- A step that only uses owners does so with what is in the slots that it names. -/
theorem used (hm : manner st = .uses) (hd : direct st = none) (ha : arranges st = false)
    (s : Session) : Used s (st.act s) := by
  cases st with
  | owner | connect | createContext | createWindowSurface | createPixmapSurface
  | createPbufferSurface => cases hm
  | typed => cases hd
  | install | configure => cases ha
  | start display =>
    exact resolve_used fun d _ => run_used (require_modest rfl rfl rfl) fun _ => .pure _
  | startVersion display =>
    exact resolve_used fun d _ =>
      run_used (startVersion_confined (.of_none rfl rfl rfl)) fun (major, minor) => .pure _
  | displayText display text =>
    exact resolve_used fun d _ => read_used (require_modest rfl rfl rfl)
  | listConfigs display keep =>
    exact resolve_used fun d _ => run_used (configs_confined fun _ => .of_none rfl rfl rfl)
      fun configs => (Keeps.keepList keep configs).bind fun _ => .pure _
  | filterOf display keep =>
    exact resolve_used fun d _ => ((Keeps.keepFilter keep d.filter).bind fun _ => .pure _).used s
  | makeCurrent display draw read context =>
    exact resolve_used fun d _ => resolve_used fun drawn hdrawn => resolve_used fun read hread =>
      resolve_used fun c hc =>
        run_used (makeCurrent_confined (makeCurrent_modest hdrawn hread hc)) fun _ => .pure _
  | makeNotCurrent display =>
    refine resolve_used fun d _ => run_used (require_confined ⟨rfl, fun _ => rfl, fun p hp => ?_⟩)
      fun _ => .pure _
    -- what is passed on is null in all three places
    simp only [Request.makeCurrent, Request.status, handed, List.mem_cons, List.not_mem_nil,
      or_false] at hp
    rcases hp with rfl | rfl | rfl <;> exact .inl rfl
  | swapBuffers display surface =>
    exact resolve_used fun d _ => resolve_used fun drawn h =>
      run_used (require_confined (holder_modest (k := .surface) h rfl rfl rfl)) fun _ => .pure _
  | swapInterval display interval =>
    exact resolve_used fun d _ => run_used (require_modest rfl rfl rfl) fun _ => .pure _
  | procAddress display name =>
    exact resolve_used fun _ _ =>
      read_used (procAddress_confined (fun _ => .of_none rfl rfl rfl) name)
  | contextDisplay context => exact resolve_used fun c _ => (Keeps.pure _).used s
  | queryContext context attr =>
    exact resolve_used fun c h =>
      read_used (require_confined (holder_modest (k := .context) h rfl rfl rfl))
  | surfaceDisplay surface => exact resolve_used fun drawn _ => (Keeps.pure _).used s
  | surfaceWidth surface =>
    exact resolve_used fun drawn h =>
      read_used (require_confined (holder_modest (k := .surface) h rfl rfl rfl))
  | surfaceHeight surface =>
    exact resolve_used fun drawn h =>
      read_used (require_confined (holder_modest (k := .surface) h rfl rfl rfl))
  | querySurface surface attr =>
    exact resolve_used fun drawn h =>
      read_used (require_confined (holder_modest (k := .surface) h rfl rfl rfl))
  | setSurfaceAttribute surface attr value =>
    exact resolve_used fun drawn h =>
      run_used (require_confined (holder_modest (k := .surface) h rfl rfl rfl)) fun _ => .pure _
  | reference config =>
    simp only [Step.act, map_eq_pure_bind]
    exact config_used fun c => (Keeps.pure _).used s
  | sameConfig config other =>
    exact config_used fun c => config_used fun d => (Keeps.pure _).used s
  | configAttribute config attr =>
    exact config_used fun c => read_used (require_confined (attrib_modest c attr))
  | describeConfig config =>
    exact config_used fun c => read_used (describe_confined (attrib_modest c))
  | formatConfig config =>
    exact config_used fun c => run_used (describe_confined (attrib_modest c)) fun text => .pure _
  | configProperty config property =>
    exact config_used fun c => read_used (query_confined (attrib_modest c) property)
  | configProperties config =>
    exact config_used fun c => read_used (queryAll_confined (attrib_modest c))
  | filterFor display keep => exact ((Keeps.keepFilter keep _).bind fun _ => .pure _).used s
  | copyFilter filter keep =>
    exact resolve_used fun f _ => ((Keeps.keepFilter keep f).bind fun _ => .pure _).used s
  | want filter settings =>
    exact resolve_used fun f _ =>
      ((Keeps.keepFilter filter (f.wantAll settings)).bind fun _ => .pure _).used s
  | filterValue filter criterion => exact resolve_used fun f _ => (Keeps.pure _).used s
  | filterValues filter => exact resolve_used fun f _ => (Keeps.pure _).used s
  | filterAttributes filter => exact resolve_used fun f _ => (Keeps.pure _).used s
  | chooseConfigs filter keep =>
    exact resolve_used fun f _ => run_used (chooseConfigs_confined fun _ => .of_none rfl rfl rfl)
      fun configs => (Keeps.keepList keep configs).bind fun _ => .pure _
  | clientExtensions => exact read_used (require_modest rfl rfl rfl)
  | clientVersion => exact read_used (require_modest rfl rfl rfl)
  | bindApi api => exact run_used (require_modest rfl rfl rfl) fun _ => .pure _
  | queryApi => exact read_used (.perform fun _ _ => .of_none rfl rfl rfl)
  | releaseThread => exact run_used (require_modest rfl rfl rfl) fun _ => .pure _
  | installedTable => exact (Keeps.pure _).used s
  | backend => exact (Keeps.pure _).used s

end Egl.Proofs
