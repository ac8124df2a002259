import Egl.Proofs.Encoding
import Egl.Proofs.Selection
import Egl.Proofs.Serving

namespace Egl.Proofs

open Backend (Attributes displayHandle configHandle)

variable {configs : List Attributes} {config : Attributes} {w mid after : World} {i : Nat}
  {c : Criterion} {p : Property} {raw : Int32} {criteria : List Criterion}
  {settings : List Setting} {ref : ConfigRef}

/-- An argument of a criterion that says the same as a reported value. -/
inductive Conveys : (kind : ArgumentKind) → PropertyValue → kind.Arg → Prop
  | number (value : Int32) : Conveys .number (.number value) value
  | optional (value : Int32) : Conveys .optional (.number value) (some value)
  | tristate (value : Bool) : Conveys .tristate (.flag value) (some value)

/-- Settings that repeat what a config reports about some criteria. Each criterion is given what the
query of the same name answers, and the queries are made one after another. -/
inductive Reports (ref : ConfigRef) : List Criterion → World → List Setting → World → Prop
  | nil (w : World) : Reports ref [] w [] w
  | cons {c : Criterion} {p : Property} {value : PropertyValue} {arg : c.Arg}
      {rest : List Criterion} {settings : List Setting} {w mid after : World}
      (hn : p.name = c.name) (hq : ref.query p w = .ok value mid)
      (hv : Conveys c.argumentKind value arg) (h : Reports ref rest mid settings after) :
      Reports ref (c :: rest) w (⟨c, arg⟩ :: settings) after

/-- A config whose flags are raised or not, and nothing else. -/
def Flagged (config : Attributes) : Prop :=
  ∀ attr ∈ [Code.bindToTextureRgb, Code.bindToTextureRgba, Code.nativeRenderable],
    config.value attr = 0 ∨ config.value attr = 1

instance (config : Attributes) : Decidable (Flagged config) :=
  List.decidableBAll _ _

/-- A config that can be chosen by what it reports. -/
structure Recognized (configs : List Attributes) (ref : ConfigRef) (w : World) : Prop where
  /-- It can be asked about every criterion but the one that is no property of a config. -/
  reports : ∀ criteria, .matchNativePixmap ∉ criteria →
    ∃ settings after, Reports ref criteria w settings after
  chosen : ∀ criteria settings mid, Reports ref criteria w settings mid →
    ∃ chosen after,
      (({ display := displayHandle } : Filter).wantAll settings).chooseConfigs mid =
        .ok chosen after ∧ ref ∈ chosen
  /-- Whatever else is asked for, no other config has its id. -/
  alone : (configs.map (·.value Code.configId)).Nodup →
    ∀ criteria reported mid id, Reports ref criteria w reported mid →
      ⟨.configId, some id⟩ ∈ reported → id ≠ Code.dontCare →
      ∀ settings, Latest settings .configId (some id) →
        ∃ after, (({ display := displayHandle } : Filter).wantAll settings).chooseConfigs mid =
          .ok [ref] after

theorem property_of_ne (h : c ≠ .matchNativePixmap) : ∃ p, propertyOf c = some p := by
  cases c
  case matchNativePixmap => exact absurd rfl h
  all_goals exact ⟨_, rfl⟩

/-- A criterion takes what the property of its name reports. -/
theorem exists_conveys (hp : propertyOf c = some p) (raw : Int32) :
    ∃ arg, Conveys c.argumentKind (p.kind.value raw) arg := by
  cases c <;> cases hp
  case bindToTextureRgb | bindToTextureRgba | nativeRenderable => exact ⟨_, .tristate _⟩
  case configCaveat | configId | maxSwapInterval | minSwapInterval | transparentRedValue
      | transparentGreenValue | transparentBlueValue =>
    exact ⟨_, .optional _⟩
  all_goals exact ⟨_, .number _⟩

/-- A mask that was cut down to known bits is contained in what it was cut from. -/
theorem contains_truncate (m : Bitmask) (raw : Int32) :
    raw &&& m.truncate raw = m.truncate raw := by
  rw [Bitmask.truncate, ← Int32.and_assoc, Int32.and_self]

theorem flag_encoded (h : raw = 0 ∨ raw = 1) :
    raw = ArgumentKind.encode .tristate (some (decide (raw = 1))) := by
  rcases h with rfl | rfl
  · rfl
  · rfl

/-- An attribute is what its criterion demands when it is given the reported value, even if that is
less than the attribute. -/
theorem demands_conveyed {arg : c.Arg} (hf : Flagged config) (hp : propertyOf c = some p)
    (hv : Conveys c.argumentKind (p.kind.value (config.value p.code)) arg) :
    Demands c (config.value p.code) (c.argumentKind.encode arg) := by
  cases c <;> cases hp
  case alphaMaskSize | alphaSize | blueSize | bufferSize | depthSize | greenSize | luminanceSize
      | redSize | sampleBuffers | samples | stencilSize =>
    cases hv
    exact Int.le_refl _
  case conformant | renderableType | surfaceType =>
    cases hv
    exact contains_truncate _ _
  case bindToTextureRgb | bindToTextureRgba | nativeRenderable =>
    cases hv
    exact flag_encoded (hf _ (by decide))
  all_goals
    cases hv
    rfl

theorem exists_reports (h : Serves configs w) (hi : configs[i]? = some config)
    (hc : .matchNativePixmap ∉ criteria) :
    ∃ settings after, Reports ⟨displayHandle, configHandle i⟩ criteria w settings after := by
  induction criteria generalizing w with
  | nil => exact ⟨[], w, .nil w⟩
  | cons c rest ih =>
    simp only [List.mem_cons, not_or] at hc
    obtain ⟨p, hp⟩ := property_of_ne (Ne.symm hc.1)
    obtain ⟨mid, hq, hmid⟩ := h.query_eq hi p
    obtain ⟨arg, hv⟩ := exists_conveys hp (config.value p.code)
    obtain ⟨settings, after, hr⟩ := ih hmid hc.2
    exact ⟨⟨c, arg⟩ :: settings, after, .cons (propertyOf_eq_some.mp hp) hq hv hr⟩

/-- Reported settings say what the table has, and queries leave the table as it was. -/
theorem Reports.conveyed (h : Serves configs w) (hi : configs[i]? = some config)
    (hr : Reports ⟨displayHandle, configHandle i⟩ criteria w settings after) :
    Serves configs after ∧ ∀ s ∈ settings, ∃ p, propertyOf s.1 = some p ∧
      Conveys s.1.argumentKind (p.kind.value (config.value p.code)) s.2 := by
  induction hr with
  | nil w => exact ⟨h, by simp⟩
  | @cons c p value arg rest settings w mid after hn hq hv _ ih =>
    obtain ⟨_, hq', hmid⟩ := h.query_eq hi p
    rw [hq] at hq'
    cases hq'
    obtain ⟨hafter, hrest⟩ := ih hmid
    refine ⟨hafter, ?_⟩
    intro s hs
    rcases List.mem_cons.mp hs with rfl | hs
    · exact ⟨p, propertyOf_eq_some.mpr hn, hv⟩
    · exact hrest s hs

/-- A filter that repeats reported values selects the config that reports them. -/
theorem selects_conveyed (display : Handle) (hf : Flagged config)
    (hs : ∀ s ∈ settings, ∃ p, propertyOf s.1 = some p ∧
      Conveys s.1.argumentKind (p.kind.value (config.value p.code)) s.2) :
    Selects (({ display := display } : Filter).wantAll settings) config := by
  have hdemands : ∀ c wanted, (({ display := display } : Filter).wantAll settings).get c =
      some wanted → Demands c (offered config c) wanted := by
    intro c wanted hget
    have hany := get_wantAll_isSome display settings c
    rw [hget] at hany
    obtain ⟨arg, hlatest⟩ := exists_latest (any_about.mp hany.symm)
    rw [get_wantAll_latest _ hlatest] at hget
    cases hget
    obtain ⟨before, later, rfl, -⟩ := hlatest
    obtain ⟨p, hp, hv⟩ := hs ⟨c, arg⟩ (by simp)
    rw [demands_offered, code_of_property hp]
    exact demands_conveyed hf hp hv
  refine ⟨?_, ?_⟩
  · intro id hget _
    exact hdemands .configId id hget
  · intro _ c wanted hget _
    exact hdemands c wanted hget

/-- An id that matters decides alone. -/
theorem selects_id {f : Filter} {id : Int32} (hget : f.get .configId = some id)
    (hne : id ≠ Code.dontCare) : Selects f config ↔ config.value Code.configId = id := by
  constructor
  · intro h
    exact h.id id hget hne
  · intro h
    refine ⟨?_, ?_⟩
    · intro other ho _
      rw [hget] at ho
      cases ho
      exact h
    · intro hother
      exact absurd (hother id hget) hne

theorem eq_singleton {l : List Nat} (ha : l.Pairwise (· < ·)) (hi : i ∈ l) (h : ∀ j ∈ l, j = i) :
    l = [i] := by
  match l with
  | [] => simp at hi
  | [j] => rw [h j (by simp)]
  | j :: k :: rest =>
    have hlt : j < k := List.rel_of_pairwise_cons ha (by simp)
    have hj := h j (by simp)
    have hk := h k (by simp)
    omega

theorem index_of_id (hn : (configs.map (·.value Code.configId)).Nodup) {j : Nat}
    {other : Attributes} (hi : configs[i]? = some config) (hj : configs[j]? = some other)
    (h : other.value Code.configId = config.value Code.configId) : j = i := by
  have hids : (configs.map (·.value Code.configId))[j]? =
      (configs.map (·.value Code.configId))[i]? := by
    rw [List.getElem?_map, List.getElem?_map, hi, hj, Option.map_some, Option.map_some, h]
  have hlt : j < (configs.map (·.value Code.configId)).length := by
    rw [List.length_map]
    exact (List.getElem?_eq_some_iff.mp hj).1
  exact (List.getElem?_inj hlt hn).mp hids

/-- What a filter chooses on an implementation that serves: every config that it selects. -/
theorem Serves.choose_eq (h : Serves configs w) (hn : configs.length < 2147483648)
    (settings : List Setting) :
    ∃ after, (({ display := displayHandle } : Filter).wantAll settings).chooseConfigs w =
      .ok ((places w.backend (({ display := displayHandle } : Filter).wantAll settings)).map
        fun i => ⟨displayHandle, configHandle i⟩) after := by
  obtain ⟨after, hrun⟩ := chooseConfigs_eq (h.unhindered .chooseConfig)
    (wantAll_display { display := displayHandle } settings) (by rw [h.table]; exact hn)
  simp only [limited, h.unlimited] at hrun
  exact ⟨after, hrun⟩

theorem recognized (h : Serves configs w) (hn : configs.length < 2147483648)
    (hi : configs[i]? = some config) (hf : Flagged config) :
    Recognized configs ⟨displayHandle, configHandle i⟩ w := by
  refine ⟨fun criteria hc => exists_reports h hi hc, ?_, ?_⟩
  · intro criteria settings mid hr
    obtain ⟨hmid, hs⟩ := hr.conveyed h hi
    obtain ⟨after, hrun⟩ := hmid.choose_eq hn settings
    refine ⟨_, after, hrun, ?_⟩
    apply List.mem_map_of_mem
    rw [mem_places, hmid.table]
    exact ⟨config, hi, selects_conveyed displayHandle hf hs⟩
  · intro hids criteria reported mid id hr hmem hne settings hlatest
    obtain ⟨hmid, hs⟩ := hr.conveyed h hi
    obtain ⟨after, hrun⟩ := hmid.choose_eq hn settings
    have hget := get_wantAll_latest ({ display := displayHandle } : Filter) hlatest
    -- The reported id is the one in the table.
    obtain ⟨p, hp, hv⟩ := hs _ hmem
    have hid : config.value Code.configId = id := by
      cases hp
      cases hv
      rfl
    have hplaces : places mid.backend
        (({ display := displayHandle } : Filter).wantAll settings) = [i] := by
      apply eq_singleton (places_ascending _ _)
      · rw [mem_places, hmid.table]
        exact ⟨config, hi, (selects_id hget hne).mpr hid⟩
      · intro j hj
        rw [mem_places, hmid.table] at hj
        obtain ⟨other, hj, hselects⟩ := hj
        have hother : other.value Code.configId = id := (selects_id hget hne).mp hselects
        exact index_of_id hids hi hj (hother.trans hid.symm)
    rw [hplaces] at hrun
    exact ⟨after, hrun⟩

/-- Every config of a display is chosen by what it reports about any criteria, and alone if its id
is among them and no other config has it. -/
theorem configs_recognized (h : Serves configs w) (hn : configs.length < 2147483648)
    (hf : ∀ config ∈ configs, Flagged config) :
    ∃ refs after, Display.configs ⟨displayHandle⟩ w = .ok refs after ∧
      refs.length = configs.length ∧ ∀ ref ∈ refs, Recognized configs ref after := by
  obtain ⟨after, hrun, hafter⟩ := h.configs_eq hn
  refine ⟨_, after, hrun, by simp, ?_⟩
  intro ref href
  obtain ⟨i, hi, rfl⟩ := List.mem_map.mp href
  have hget := List.getElem?_eq_getElem (List.mem_range.mp hi)
  exact recognized hafter hn hget (hf _ (List.mem_of_getElem? hget))

/-- Two configs. The first has unknown bits in its masks, a negative size, an attribute that is the
terminator of lists, and one that says that any value will do. -/
def motley : List Attributes :=
  [.ofList [(Code.configId, 7), (Code.surfaceType, -1), (Code.conformant, 0x1F), (Code.redSize, -5),
      (Code.level, Code.none), (Code.samples, -1), (Code.bindToTextureRgb, 1)],
    .make 9 8 8 8 8 24 8]

theorem configs_recognized_motley :
    Serves motley { backend := { configs := motley } } ∧ motley.length < 2147483648 ∧
    (∀ config ∈ motley, Flagged config) ∧
    ∃ refs after, Display.configs ⟨displayHandle⟩ { backend := { configs := motley } } =
        .ok refs after ∧
      refs.length = motley.length ∧ ∀ ref ∈ refs, Recognized motley ref after := by
  have hserves : Serves motley { backend := { configs := motley } } := by
    refine ⟨?_, rfl, rfl⟩
    intro e
    exact ⟨by decide, by simp, by simp⟩
  have hlength : motley.length < 2147483648 := by decide
  have hflagged : ∀ config ∈ motley, Flagged config := by decide
  exact ⟨hserves, hlength, hflagged, configs_recognized hserves hlength hflagged⟩

end Egl.Proofs
