import Egl.Proofs.Likeness

namespace Egl.Proofs

open Backend (Attributes displayHandle configHandle)

variable {configs : List Attributes} {config : Attributes} {w : World} {f g : Filter}
  {c d : Criterion} {level : Int32} {settings : List Setting} {ref : ConfigRef}

/-- The settings that are not about a criterion. -/
def without (c : Criterion) (settings : List Setting) : List Setting :=
  settings.filter fun s => s.1 ≠ c

theorem get_without_self (f : Filter) (c : Criterion) (settings : List Setting) :
    (f.wantAll (without c settings)).get c = f.get c := by
  apply get_wantAll_other
  intro s hs
  simpa using (List.mem_filter.mp hs).2

/-- Leaving out the settings of one criterion makes no difference to another. -/
theorem get_without_other (f : Filter) (h : d ≠ c) (settings : List Setting) :
    (f.wantAll (without c settings)).get d = (f.wantAll settings).get d := by
  by_cases hd : ∃ s ∈ settings, s.1 = d
  · obtain ⟨arg, before, after, rfl, ha⟩ := exists_latest hd
    have hlatest : Latest (without c (before ++ ⟨d, arg⟩ :: after)) d arg := by
      refine ⟨without c before, without c after, ?_, ?_⟩
      · simp [without, h]
      · intro s hs
        exact ha s (List.mem_filter.mp hs).1
    rw [get_wantAll_latest f hlatest, get_wantAll_latest f ⟨before, after, rfl, ha⟩]
  · have hnone : ∀ s ∈ settings, s.1 ≠ d := fun s hs he => hd ⟨s, hs, he⟩
    rw [get_wantAll_other f hnone, get_wantAll_other]
    intro s hs
    exact hnone s (List.mem_filter.mp hs).1

/-- A filter that was never asked for an id selects by all its other criteria. -/
theorem selects_without_id (h : f.get .configId = none) :
    Selects f config ↔ ∀ c wanted, f.get c = some wanted → wanted ≠ Code.dontCare →
      Demands c (offered config c) wanted := by
  constructor
  · intro hs
    apply hs.others
    simp [h]
  · intro hs
    refine ⟨?_, fun _ => hs⟩
    simp [h]

/-- Two filters that differ only in a criterion for which any value will do select the same. -/
theorem selects_careless (hf : f.get .configId = none) (hg : g.get .configId = none)
    (hc : f.get c = some Code.dontCare) (hn : g.get c = none)
    (h : ∀ d, d ≠ c → g.get d = f.get d) : Selects g config ↔ Selects f config := by
  rw [selects_without_id hf, selects_without_id hg]
  constructor
  · intro hs d wanted hget hne
    have hd : d ≠ c := by
      rintro rfl
      rw [hc] at hget
      exact hne (Option.some.inj hget).symm
    apply hs d wanted _ hne
    rw [h d hd]
    exact hget
  · intro hs d wanted hget hne
    have hd : d ≠ c := by
      rintro rfl
      rw [hn] at hget
      cases hget
    apply hs d wanted _ hne
    rw [← h d hd]
    exact hget

/-- Filters that select the same have the same places in the table. -/
theorem places_congr {b : Backend} (h : ∀ config, Selects g config ↔ Selects f config) :
    places b g = places b f := by
  have hsame : ∀ config : Attributes, config.satisfies g.wanted = config.satisfies f.wanted := by
    intro config
    rw [Bool.eq_iff_iff, satisfies_iff_selects, satisfies_iff_selects]
    exact h config
  simp only [places, hsame]

/-- After a choice, the implementation serves on. -/
theorem Serves.chooseConfigs {refs : List ConfigRef} {after : World} (h : Serves configs w)
    (ho : f.chooseConfigs w = .ok refs after) : Serves configs after := by
  have hw := chooseConfigs_confined (P := fun c => c.entry.canFail = true) (f := f)
    (fun _ => rfl) w
  rw [ho] at hw
  exact h.went hw

/-- A config whose level is asked for has that level, unless any level will do. -/
theorem level_of_selects (hid : f.get .configId = none) (hl : f.get .level = some level)
    (hne : level ≠ Code.dontCare) (h : Selects f config) : config.value Code.level = level :=
  (selects_without_id hid).mp h .level level hl hne

/-- A filter that asks for nothing but a level selects every config that has it. -/
theorem selects_level (hl : f.get .level = some level) (ho : ∀ c, c ≠ .level → f.get c = none)
    (h : config.value Code.level = level) : Selects f config := by
  have hid : f.get .configId = none := ho .configId nofun
  apply (selects_without_id hid).mpr
  intro c wanted hget _
  by_cases hc : c = .level
  · subst hc
    rw [hl] at hget
    obtain rfl := Option.some.inj hget
    exact h
  · rw [ho c hc] at hget
    cases hget

/-- How a filter with a given last level chooses on an implementation that serves. -/
structure LevelMatched (configs : List Attributes) (settings : List Setting) (level : Int32)
    (w : World) (refs : List ConfigRef) (after : World) : Prop where
  chosen : (({ display := displayHandle } : Filter).wantAll settings).chooseConfigs w =
    .ok refs after
  /-- What is chosen reports the level, whatever else was asked for. -/
  exact : level ≠ Code.dontCare → ∀ ref ∈ refs, ∃ later,
    ref.query .level after = .ok (.number level) later
  /-- If nothing else was asked for, all configs of the level are chosen. -/
  complete : (∀ s ∈ settings, s.1 = .level) → ∀ i config, configs[i]? = some config →
    config.value Code.level = level → ⟨displayHandle, configHandle i⟩ ∈ refs
  /-- The level that says that any value will do is as good as none. -/
  careless : level = Code.dontCare → ∃ after,
    (({ display := displayHandle } : Filter).wantAll (without .level settings)).chooseConfigs w =
      .ok refs after

/-- A level is matched exactly if it is not the number that stands for any value. That number leaves
the choice to the other criteria. -/
theorem level_matched (h : Serves configs w) (hn : configs.length < 2147483648)
    (hl : Latest settings .level level) (hid : ∀ s ∈ settings, s.1 ≠ .configId) :
    ∃ refs after, LevelMatched configs settings level w refs after := by
  have hget : (({ display := displayHandle } : Filter).wantAll settings).get .level =
      some level := get_wantAll_latest _ hl
  have hno : (({ display := displayHandle } : Filter).wantAll settings).get .configId = none :=
    get_wantAll_other _ hid
  obtain ⟨after, hrun⟩ := h.choose_eq hn settings
  refine ⟨_, after, hrun, ?_, ?_, ?_⟩
  · intro hne ref href
    obtain ⟨i, hi, rfl⟩ := List.mem_map.mp href
    rw [mem_places, h.table] at hi
    obtain ⟨config, hi, hselects⟩ := hi
    obtain ⟨later, hquery, -⟩ := (h.chooseConfigs hrun).query_eq hi .level
    have hlevel : config.value Property.level.code = level :=
      level_of_selects hno hget hne hselects
    rw [hlevel] at hquery
    exact ⟨later, hquery⟩
  · intro honly i config hi hlevel
    apply List.mem_map_of_mem
    rw [mem_places, h.table]
    refine ⟨config, hi, selects_level hget ?_ hlevel⟩
    intro c hc
    apply get_wantAll_other
    intro s hs he
    exact hc (he.symm.trans (honly s hs))
  · intro hany
    obtain ⟨later, hother⟩ := h.choose_eq hn (without .level settings)
    have hplaces : places w.backend
        (({ display := displayHandle } : Filter).wantAll (without .level settings)) =
        places w.backend (({ display := displayHandle } : Filter).wantAll settings) := by
      apply places_congr
      intro config
      apply selects_careless hno (c := .level)
      · rw [get_without_other _ (by decide) settings]
        exact hno
      · rw [hget, hany]
      · exact get_without_self _ _ _
      · intro d hd
        exact get_without_other _ hd settings
    rw [hplaces] at hother
    exact ⟨later, hother⟩

/-- An overlay, the default level and two underlays. -/
def layers : List Attributes :=
  [.ofList [(Code.configId, 1), (Code.level, 1)], .make 2 8 8 8 8 24 8,
    .ofList [(Code.configId, 3), (Code.level, -1)], .ofList [(Code.configId, 4), (Code.level, -2)]]

theorem level_matched_underlay :
    Serves layers { backend := { configs := layers } } ∧ layers.length < 2147483648 ∧
      Latest [⟨.level, (1 : Int32)⟩, ⟨.level, (-2 : Int32)⟩, ⟨.redSize, (0 : Int32)⟩] .level
        (-2 : Int32) ∧
      (∀ s ∈ ([⟨.level, (1 : Int32)⟩, ⟨.level, (-2 : Int32)⟩, ⟨.redSize, (0 : Int32)⟩] :
        List Setting), s.1 ≠ .configId) ∧
      ∃ refs after, LevelMatched layers
        [⟨.level, (1 : Int32)⟩, ⟨.level, (-2 : Int32)⟩, ⟨.redSize, (0 : Int32)⟩] (-2)
        { backend := { configs := layers } } refs after := by
  have hserves : Serves layers { backend := { configs := layers } } := by
    refine ⟨?_, rfl, rfl⟩
    intro e
    exact ⟨by decide, by simp, by simp⟩
  have hlatest : Latest [⟨.level, (1 : Int32)⟩, ⟨.level, (-2 : Int32)⟩, ⟨.redSize, (0 : Int32)⟩]
      .level (-2 : Int32) :=
    ⟨[⟨.level, (1 : Int32)⟩], [⟨.redSize, (0 : Int32)⟩], rfl, by simp⟩
  have hid : ∀ s ∈ ([⟨.level, (1 : Int32)⟩, ⟨.level, (-2 : Int32)⟩, ⟨.redSize, (0 : Int32)⟩] :
      List Setting), s.1 ≠ .configId := by simp
  exact ⟨hserves, by decide, hlatest, hid, level_matched hserves (by decide) hlatest hid⟩

/-- The first underlay has the number that stands for any value: asking for it yields a config of
the default level too. -/
theorem underlay_overlooked :
    ∃ after later, (({ display := displayHandle } : Filter).wantAll
        [⟨.level, (-1 : Int32)⟩]).chooseConfigs
          { backend := { configs := [.make 1 8 8 8 8 24 8] } } =
        .ok [⟨displayHandle, 1⟩] after ∧
      (ConfigRef.mk displayHandle 1).query .level after = .ok (.number 0) later ∧
      (0 : Int32) ≠ -1 :=
  ⟨_, _, rfl, rfl, by decide⟩

end Egl.Proofs
