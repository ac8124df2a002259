import Mathlib.Data.List.Nodup
import Egl.Proofs.Criteria

namespace Egl.Proofs

variable {f g : Filter} {c : Criterion} {settings rest : List Setting}

/-- The number that an argument stands as in an attribute list. -/
inductive Stands : (kind : ArgumentKind) → kind.Arg → Int32 → Prop
  | number (value : Int32) : Stands .number value value
  | given (value : Int32) : Stands .optional (some value) value
  | notGiven : Stands .optional none Code.dontCare
  | yes : Stands .tristate (some true) 1
  | no : Stands .tristate (some false) 0
  | either : Stands .tristate none Code.dontCare
  | pixmap (value : Int32) : Stands .pixmap (some value) value
  | noPixmap : Stands .pixmap none Code.none

/-- The last argument that some settings give for a criterion. -/
def Latest (settings : List Setting) (c : Criterion) (arg : c.Arg) : Prop :=
  ∃ before after, settings = before ++ ⟨c, arg⟩ :: after ∧ ∀ s ∈ after, s.1 ≠ c

/-- The criteria that some settings are about, in the order in which a list has them. -/
def mentioned (settings : List Setting) : List Criterion :=
  Criterion.all.filter fun c => settings.any fun s => s.1 = c

/-- A list that says what some settings ask for, and nothing else. -/
structure Encodes (settings : List Setting) (list : List Int32) : Prop where
  /-- Whoever reads the list stops at its last element, and has then read one pair for each
  criterion that the settings are about, with the last argument that they give for it. -/
  read : ∃ pairs, AttributeList.read? Code.none list = some (pairs, []) ∧
    AttributeList.pairs Code.none (some list) = pairs ∧
    pairs.map Prod.fst = (mentioned settings).map Criterion.code ∧
    ∀ c arg, Latest settings c arg →
      ∃ value, Stands c.argumentKind arg value ∧ (c.code, value) ∈ pairs
  /-- A criterion counts once, and only if some setting is about it. -/
  once : (mentioned settings).Nodup ∧ ∀ c, c ∈ mentioned settings ↔ ∃ s ∈ settings, s.1 = c
  length : list.length = 2 * (mentioned settings).length + 1

theorem stands_encode (kind : ArgumentKind) (arg : kind.Arg) :
    Stands kind arg (kind.encode arg) := by
  cases kind with
  | number => exact .number arg
  | optional =>
    cases arg with
    | none => exact .notGiven
    | some value => exact .given value
  | tristate =>
    cases arg with
    | none => exact .either
    | some yes =>
      cases yes with
      | true => exact .yes
      | false => exact .no
  | pixmap =>
    cases arg with
    | none => exact .noPixmap
    | some value => exact .pixmap value

/-- No two criteria have the same attribute. -/
theorem code_injective : Function.Injective Criterion.code := by
  have hn : (Criterion.all.map Criterion.code).Nodup := by decide
  intro c d h
  exact List.inj_on_of_nodup_map hn (criterion_mem_all c) (criterion_mem_all d) h

theorem any_about : (settings.any fun s => s.1 = c) = true ↔ ∃ s ∈ settings, s.1 = c := by
  simp only [List.any_eq_true, decide_eq_true_eq]

theorem mem_mentioned : c ∈ mentioned settings ↔ ∃ s ∈ settings, s.1 = c := by
  rw [mentioned, List.mem_filter, any_about]
  exact and_iff_right (criterion_mem_all c)

/-- Settings that are about a criterion give a last argument for it. -/
theorem exists_latest (h : ∃ s ∈ settings, s.1 = c) : ∃ arg, Latest settings c arg := by
  induction settings with
  | nil => simp at h
  | cons head rest ih =>
    by_cases hr : ∃ s ∈ rest, s.1 = c
    · obtain ⟨arg, before, after, rfl, ha⟩ := ih hr
      exact ⟨arg, head :: before, after, rfl, ha⟩
    · obtain ⟨s, hs, hc⟩ := h
      rcases List.mem_cons.mp hs with rfl | hs
      · obtain ⟨d, arg⟩ := s
        subst hc
        refine ⟨arg, [], rest, rfl, ?_⟩
        intro s hs he
        exact hr ⟨s, hs, he⟩
      · exact absurd ⟨s, hs, hc⟩ hr

section Settings

theorem get_want_self (f : Filter) (c : Criterion) (arg : c.Arg) :
    (f.want c arg).get c = some (c.argumentKind.encode arg) := by
  simp [Filter.want, Filter.set]

theorem get_want_other (f : Filter) {c d : Criterion} (h : d ≠ c) (arg : c.Arg) :
    (f.want c arg).get d = f.get d := by
  simp [Filter.want, Filter.set, h]

theorem wantAll_append (f : Filter) (first last : List Setting) :
    f.wantAll (first ++ last) = (f.wantAll first).wantAll last := by
  simp [Filter.wantAll]

theorem wantAll_cons (f : Filter) (s : Setting) (rest : List Setting) :
    f.wantAll (s :: rest) = (f.want s.1 s.2).wantAll rest := rfl

/-- Settings about other criteria leave a criterion as it was. -/
theorem get_wantAll_other (f : Filter) (h : ∀ s ∈ settings, s.1 ≠ c) :
    (f.wantAll settings).get c = f.get c := by
  induction settings generalizing f with
  | nil => rfl
  | cons s rest ih =>
    have hs : c ≠ s.1 := (h s (by simp)).symm
    rw [wantAll_cons, ih _ (fun t ht => h t (by simp [ht])), get_want_other f hs]

/-- A filter has the last argument that was given for a criterion, whatever it had before. -/
theorem get_wantAll_latest (f : Filter) {arg : c.Arg} (h : Latest settings c arg) :
    (f.wantAll settings).get c = some (c.argumentKind.encode arg) := by
  obtain ⟨before, after, rfl, ha⟩ := h
  rw [wantAll_append, wantAll_cons, get_wantAll_other _ ha, get_want_self]

/-- A new filter has a value for exactly the criteria that its settings are about. -/
theorem get_wantAll_isSome (display : Handle) (settings : List Setting) (c : Criterion) :
    ((({ display := display } : Filter).wantAll settings).get c).isSome =
      settings.any fun s => s.1 = c := by
  by_cases h : ∃ s ∈ settings, s.1 = c
  · obtain ⟨arg, ha⟩ := exists_latest h
    rw [get_wantAll_latest _ ha, any_about.mpr h]
    rfl
  · have hany : (settings.any fun s => s.1 = c) = false :=
      Bool.eq_false_iff.mpr (mt any_about.mp h)
    rw [hany, get_wantAll_other]
    · rfl
    · intro s hs he
      exact h ⟨s, hs, he⟩

theorem want_comm (f : Filter) {s t : Setting} (h : s.1 ≠ t.1) :
    (f.want s.1 s.2).want t.1 t.2 = (f.want t.1 t.2).want s.1 s.2 := by
  simp only [Filter.want, Filter.set, Filter.mk.injEq, true_and]
  funext d
  by_cases hs : d = s.1
  · have ht : d ≠ t.1 := by
      rw [hs]
      exact h
    simp [hs, h]
  · simp [hs]

theorem want_again (f : Filter) {s t : Setting} (h : t.1 = s.1) :
    (f.want s.1 s.2).want t.1 t.2 = f.want t.1 t.2 := by
  simp only [Filter.want, Filter.set, Filter.mk.injEq, true_and]
  funext d
  by_cases hd : d = t.1
  · simp [hd]
  · have hs : d ≠ s.1 := by
      rw [← h]
      exact hd
    simp [hd, hs]

/-- A setting leaves no trace if a later one is about the same criterion. -/
theorem wantAll_again (f : Filter) {s : Setting} (h : ∃ t ∈ rest, t.1 = s.1) :
    f.wantAll (s :: rest) = f.wantAll rest := by
  induction rest generalizing f with
  | nil => simp at h
  | cons u rest ih =>
    rw [wantAll_cons, wantAll_cons, wantAll_cons]
    by_cases hu : u.1 = s.1
    · rw [want_again f hu]
    · obtain ⟨t, ht, he⟩ := h
      rcases List.mem_cons.mp ht with rfl | ht
      · exact absurd he hu
      · rw [want_comm f (Ne.symm hu), ← wantAll_cons]
        exact ih (f.want u.1 u.2) ⟨t, ht, he⟩

end Settings

/-- The attributes of a list stand in the order of the criteria that have a value. -/
theorem wanted_attributes (f : Filter) :
    f.wanted.map Prod.fst =
      (Criterion.all.filter fun c => (f.get c).isSome).map Criterion.code := by
  unfold Filter.wanted
  induction Criterion.all with
  | nil => rfl
  | cons c rest ih =>
    cases hc : f.get c with
    | none => simpa [hc] using ih
    | some value => simpa [hc] using ih

theorem get_iff_wanted {value : Int32} : f.get c = some value ↔ (c.code, value) ∈ f.wanted := by
  rw [mem_wanted]
  constructor
  · intro h
    exact ⟨c, rfl, h⟩
  · rintro ⟨d, hd, h⟩
    rwa [← code_injective hd]

theorem attributes_length (f : Filter) : f.attributes.length = 2 * f.wanted.length + 1 := by
  unfold Filter.attributes AttributeList.write
  rw [List.length_append, List.length_singleton]
  congr 1
  induction f.wanted with
  | nil => rfl
  | cons p rest ih =>
    simp only [List.flatMap_cons, List.length_append, List.length_cons, List.length_nil, ih]
    omega

/-- Two filters have the same list exactly if they agree on every criterion. -/
theorem attributes_eq_iff : f.attributes = g.attributes ↔ ∀ c, f.get c = g.get c := by
  constructor
  · intro h c
    have hread := read_attributes f
    rw [h, read_attributes g] at hread
    have hwanted : g.wanted = f.wanted := by simpa using hread
    apply Option.ext
    intro value
    rw [get_iff_wanted, get_iff_wanted, hwanted]
  · intro h
    unfold Filter.attributes Filter.wanted
    simp only [h]

theorem wantAll_encodes (display : Handle) (settings : List Setting) :
    Encodes settings (({ display := display } : Filter).wantAll settings).attributes := by
  have hkeys := wanted_attributes (({ display := display } : Filter).wantAll settings)
  simp only [get_wantAll_isSome] at hkeys
  refine ⟨⟨_, read_attributes _, pairs_attributes _, hkeys, ?_⟩, ?_, ?_⟩
  · intro c arg ha
    exact ⟨_, stands_encode _ arg, get_iff_wanted.mp (get_wantAll_latest _ ha)⟩
  · have hall : Criterion.all.Nodup := by decide
    exact ⟨hall.filter _, fun _ => mem_mentioned⟩
  · have hlength := congrArg List.length hkeys
    rw [List.length_map, List.length_map] at hlength
    rw [attributes_length, hlength]
    rfl

/-- The attribute list of a filter encodes the settings that led to it. A criterion goes under the
attribute of the property that has its name. Settings of different criteria commute, a later one of
the same criterion replaces an earlier one, and filters with the same list ask for the same. -/
theorem attributes_faithful :
    Function.Injective Criterion.code ∧
      (∀ (c : Criterion) (p : Property), p.name = c.name → c.code = p.code) ∧
      (∀ (display : Handle) (settings : List Setting),
        Encodes settings (({ display := display } : Filter).wantAll settings).attributes) ∧
      (∀ (f : Filter) (s t : Setting) (rest : List Setting), s.1 ≠ t.1 →
        f.wantAll (s :: t :: rest) = f.wantAll (t :: s :: rest)) ∧
      (∀ (f : Filter) (s : Setting) (rest : List Setting), (∃ t ∈ rest, t.1 = s.1) →
        f.wantAll (s :: rest) = f.wantAll rest) ∧
      ∀ f g : Filter, f.attributes = g.attributes ↔ ∀ c, f.get c = g.get c := by
  refine ⟨code_injective, fun c p hp => ?_, wantAll_encodes, ?_, ?_, fun _ _ => attributes_eq_iff⟩
  · exact code_of_property (propertyOf_eq_some.mpr hp)
  · intro f s t rest h
    simp only [wantAll_cons]
    rw [want_comm f h]
  · intro f s rest h
    exact wantAll_again f h

/-- The terminator may be among the values, and is lost there once the criterion is set again. -/
example :
    (({ display := 208 } : Filter).wantAll [⟨.redSize, (0x3038 : Int32)⟩, ⟨.configId, none⟩,
      ⟨.matchNativePixmap, none⟩, ⟨.redSize, (8 : Int32)⟩]).attributes =
      [Code.configId, -1, Code.matchNativePixmap, 0x3038, Code.redSize, 8, 0x3038] := by decide

end Egl.Proofs
