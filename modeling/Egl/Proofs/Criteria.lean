import Egl.Backend.Answer
import Egl.Filter

namespace Egl.Proofs

open Backend (Attributes Comparison)

variable {c : Criterion} {p : Property}

/-- The property that a criterion asks about. Matching a pixmap is no property of a config. -/
def propertyOf : Criterion → Option Property
  | .alphaMaskSize => some .alphaMaskSize
  | .alphaSize => some .alphaSize
  | .bindToTextureRgb => some .bindToTextureRgb
  | .bindToTextureRgba => some .bindToTextureRgba
  | .blueSize => some .blueSize
  | .bufferSize => some .bufferSize
  | .colorBufferType => some .colorBufferType
  | .configCaveat => some .configCaveat
  | .configId => some .configId
  | .conformant => some .conformant
  | .depthSize => some .depthSize
  | .greenSize => some .greenSize
  | .level => some .level
  | .luminanceSize => some .luminanceSize
  | .matchNativePixmap => none
  | .nativeRenderable => some .nativeRenderable
  | .maxSwapInterval => some .maxSwapInterval
  | .minSwapInterval => some .minSwapInterval
  | .redSize => some .redSize
  | .sampleBuffers => some .sampleBuffers
  | .samples => some .samples
  | .stencilSize => some .stencilSize
  | .renderableType => some .renderableType
  | .surfaceType => some .surfaceType
  | .transparentType => some .transparentType
  | .transparentRedValue => some .transparentRedValue
  | .transparentGreenValue => some .transparentGreenValue
  | .transparentBlueValue => some .transparentBlueValue

/-- Whether an actual value is what a criterion with a given value asks for. -/
def Demands (c : Criterion) (actual wanted : Int32) : Prop :=
  match c with
  | .alphaMaskSize | .alphaSize | .blueSize | .bufferSize | .depthSize | .greenSize
  | .luminanceSize | .redSize | .sampleBuffers | .samples | .stencilSize =>
    wanted.toInt ≤ actual.toInt
  | .conformant | .renderableType | .surfaceType => actual &&& wanted = wanted
  | .matchNativePixmap => wanted = Code.none
  | _ => actual = wanted

/-- What a config has of what a criterion asks about. -/
def offered (config : Attributes) (c : Criterion) : Int32 :=
  match propertyOf c with
  | some p => config.value p.code
  | none => 0

/-- Whether a filter selects a config. An id that matters decides alone. -/
structure Selects (f : Filter) (config : Attributes) : Prop where
  id : ∀ id, f.get .configId = some id → id ≠ Code.dontCare → config.value Code.configId = id
  others : (∀ id, f.get .configId = some id → id = Code.dontCare) →
    ∀ c wanted, f.get c = some wanted → wanted ≠ Code.dontCare →
      Demands c (offered config c) wanted

theorem criterion_mem_all (c : Criterion) : c ∈ Criterion.all := by cases c <;> decide

theorem property_mem_all (p : Property) : p ∈ Property.all := by cases p <;> decide

/-- A criterion asks about the property that has its name. -/
theorem propertyOf_eq_some : propertyOf c = some p ↔ p.name = c.name := by
  have hnamed : ∀ c ∈ Criterion.all, ∀ p ∈ Property.all,
      propertyOf c = some p ↔ p.name = c.name := by decide
  exact hnamed c (criterion_mem_all c) p (property_mem_all p)

/-- The table of the criteria has the same attributes as that of the properties. -/
theorem code_of_property (h : propertyOf c = some p) : c.code = p.code := by
  cases c <;> cases h <;> rfl

/-- Whether a criterion is met depends on the attribute that stands for it in a list. -/
theorem demands_offered {config : Attributes} {wanted : Int32} :
    Demands c (offered config c) wanted ↔ Demands c (config.value c.code) wanted := by
  unfold offered
  cases hp : propertyOf c with
  | some p => rw [code_of_property hp]
  | none =>
    -- The only criterion without a property looks at no attribute.
    cases c <;> cases hp
    rfl

/-- No criterion has the code of the terminator. -/
theorem code_ne_none (c : Criterion) : c.code ≠ Code.none := by cases c <;> decide

theorem code_eq_configId {c : Criterion} : c.code = Code.configId ↔ c = .configId := by
  cases c <;> decide

theorem mem_wanted {f : Filter} {attr value : Int32} :
    (attr, value) ∈ f.wanted ↔ ∃ c : Criterion, c.code = attr ∧ f.get c = some value := by
  simp only [Filter.wanted, List.mem_filterMap, Option.map_eq_some_iff, Prod.mk.injEq]
  constructor
  · rintro ⟨c, -, v, hv, ha, rfl⟩
    exact ⟨c, ha, hv⟩
  · rintro ⟨c, ha, hv⟩
    exact ⟨c, criterion_mem_all c, value, hv, ha, rfl⟩

/-- The terminator is no attribute that a filter asks for, though it may be a value. -/
theorem wanted_ne_none (f : Filter) : ∀ p ∈ f.wanted, p.1 ≠ Code.none := by
  rintro ⟨attr, value⟩ hp
  obtain ⟨c, rfl, -⟩ := mem_wanted.mp hp
  exact code_ne_none c

/-- The attribute list of a filter reads back as its criteria, up to its last element. -/
theorem read_attributes (f : Filter) :
    AttributeList.read? Code.none f.attributes = some (f.wanted, []) :=
  AttributeList.read?_write (wanted_ne_none f)

theorem pairs_attributes (f : Filter) :
    AttributeList.pairs Code.none (some f.attributes) = f.wanted :=
  AttributeList.pairs_write (wanted_ne_none f)

/-- The comparison that the implementation makes for the attribute of a criterion is the one that
the criterion asks for. -/
theorem holds_iff (c : Criterion) (actual wanted : Int32) :
    (Comparison.ofAttribute c.code).holds actual wanted = true ↔ Demands c actual wanted := by
  cases c
  case alphaMaskSize | alphaSize | blueSize | bufferSize | depthSize | greenSize | luminanceSize
      | redSize | sampleBuffers | samples | stencilSize =>
    exact decide_eq_true_iff.trans Int32.le_iff_toInt_le
  all_goals exact decide_eq_true_iff

theorem meets_iff (config : Attributes) (c : Criterion) (wanted : Int32) :
    config.meets c.code wanted = true ↔
      (wanted ≠ Code.dontCare → Demands c (offered config c) wanted) := by
  unfold Attributes.meets
  rw [Bool.or_eq_true, decide_eq_true_iff, holds_iff, demands_offered]
  exact Decidable.or_iff_not_imp_left

/-- What the implementation finds in the list of a filter, pair by pair, is what the filter says
about the criteria. -/
theorem satisfies_iff_selects (f : Filter) (config : Attributes) :
    config.satisfies f.wanted = true ↔ Selects f config := by
  unfold Attributes.satisfies
  split
  case h_1 attr id hfound =>
    -- An id was asked for, so its pair is that of the criterion and nothing else counts.
    have hp := List.find?_some hfound
    simp only [Bool.and_eq_true, decide_eq_true_eq] at hp
    obtain ⟨c, hc, hget⟩ := mem_wanted.mp (List.mem_of_find?_eq_some hfound)
    have hid : c = .configId := code_eq_configId.mp (hc.trans hp.1)
    subst hid
    rw [decide_eq_true_iff]
    constructor
    · intro h
      refine ⟨fun other ho _ => ?_, fun hother => ?_⟩
      · rw [hget] at ho
        exact h.trans (Option.some.inj ho)
      · exact absurd (hother id hget) hp.2
    · intro h
      exact h.id id hget hp.2
  case h_2 hfound =>
    have hnone : ∀ id, f.get .configId = some id → id = Code.dontCare := by
      intro id hget
      have hmem := mem_wanted.mpr ⟨Criterion.configId, rfl, hget⟩
      have hp := List.find?_eq_none.mp hfound _ hmem
      simpa [code_eq_configId] using hp
    rw [List.all_eq_true]
    constructor
    · intro h
      refine ⟨fun id hget hne => absurd (hnone id hget) hne, fun _ c wanted hget hne => ?_⟩
      exact (meets_iff config c wanted).mp (h _ (mem_wanted.mpr ⟨c, rfl, hget⟩)) hne
    · rintro h ⟨attr, wanted⟩ hmem
      obtain ⟨c, rfl, hget⟩ := mem_wanted.mp hmem
      exact (meets_iff config c wanted).mpr (h.others hnone c wanted hget)

end Egl.Proofs
