import Egl.Proofs.Criteria
import Egl.Proofs.Places
import Egl.Proofs.TwoPass
import Egl.Proofs.Unhindered

namespace Egl.Proofs

open Backend (displayHandle configHandle)

variable {w : World}

/-- The places in the table of the configs that a filter selects. -/
def places (b : Backend) (f : Filter) : List Nat :=
  (b.configs.zipIdx.filter fun (config, _) => config.satisfies f.wanted).map Prod.snd

/-- As many places as the implementation writes; a negative limit acts as zero. -/
def limited (b : Backend) (chosen : List Nat) : List Nat :=
  match b.fillLimit with
  | none => chosen
  | some limit => chosen.take limit.toInt.toNat

theorem places_eq_located (b : Backend) (f : Filter) :
    places b f = located b (·.satisfies f.wanted) := rfl

theorem mem_places {b : Backend} {f : Filter} {i : Nat} :
    i ∈ places b f ↔ ∃ config, b.configs[i]? = some config ∧ Selects f config := by
  simp only [places_eq_located, mem_located, satisfies_iff_selects]

theorem places_ascending (b : Backend) (f : Filter) : (places b f).Pairwise (· < ·) :=
  located_ascending b (·.satisfies f.wanted)

theorem matching_eq (b : Backend) (f : Filter) :
    b.matching f.wanted = (places b f).map configHandle :=
  matching_located b f.wanted

theorem places_length_le (b : Backend) (f : Filter) : (places b f).length ≤ b.configs.length :=
  located_length_le b (·.satisfies f.wanted)

/-- The implementation's answer to a request for the configs of a filter. Its table and its limit
stay what they were. -/
theorem exchange_choose {f : Filter} {buffer : Option Int32} {reply : Reply} {after : World}
    (h : Unhindered .chooseConfig w) (hd : f.display = displayHandle)
    (hw : w.exchange (.chooseConfig f.display (some f.attributes) buffer) = (reply, after)) :
    reply = w.backend.chosen f.wanted buffer ∧ after.backend.configs = w.backend.configs ∧
      after.backend.fillLimit = w.backend.fillLimit ∧ Unhindered .chooseConfig after := by
  have hr : (reach w.backend .chooseConfig).respond
      (.chooseConfig f.display (some f.attributes) buffer) =
      (w.backend.chosen f.wanted buffer, { reach w.backend .chooseConfig with
        chooseAttributes := Backend.kept (some f.attributes) }) := by
    simp only [Backend.respond, hd, if_true, pairs_attributes]
    rfl
  obtain ⟨hreply, hb, -⟩ :=
    exchange_unhindered (c := .chooseConfig f.display (some f.attributes) buffer) h rfl
  have hnext := unhindered_exchange
    (c := .chooseConfig f.display (some f.attributes) buffer) h rfl
  simp only [Call.entry, hr, hw] at hreply hb hnext
  exact ⟨hreply, by rw [hb]; rfl, by rw [hb]; rfl, hnext rfl⟩

/-- The answer to a request that only counts. -/
theorem chosen_none (b : Backend) (f : Filter) :
    b.chosen f.wanted none = .value (.ofNat (places b f).length) := by
  simp [Backend.chosen, matching_eq]

theorem limited_length_le (b : Backend) (chosen : List Nat) :
    (limited b chosen).length ≤ chosen.length := by
  unfold limited
  split
  · exact Nat.le_refl _
  · rw [List.length_take]
    exact Nat.min_le_right _ _

/-- With room for every config that was counted, only the limit of the implementation matters. -/
theorem take_room (b : Backend) (f : Filter) (hn : (places b f).length < 2147483648) :
    (b.matching f.wanted).take (b.room (.ofNat (places b f).length)) =
      (limited b (places b f)).map configHandle := by
  rw [matching_eq, ← List.map_take]
  congr 1
  unfold Backend.room limited
  rw [int32_ofNat_toNat hn]
  cases b.fillLimit with
  | none => exact List.take_length
  | some limit =>
    simp only [← List.take_take]
    rw [List.take_of_length_le]
    rw [List.length_take]
    exact Nat.min_le_right _ _

/-- The answer to a request with room for every config that was counted. Without any, it is a
request that only counts. -/
theorem chosen_fill (b : Backend) (f : Filter) (hn : (places b f).length < 2147483648) :
    (b.chosen f.wanted (Span.ofLength (places b f).length).told).accepted = true ∧
      (b.chosen f.wanted (Span.ofLength (places b f).length).told).fill =
        (limited b (places b f)).map configHandle ∧
      (b.chosen f.wanted (Span.ofLength (places b f).length).told).output 0 =
        .ofNat (limited b (places b f)).length := by
  have hle := limited_length_le b (places b f)
  by_cases hz : (places b f).length = 0
  · have hl : limited b (places b f) = [] := List.eq_nil_of_length_eq_zero (by omega)
    have htold : (Span.ofLength (places b f).length).told = none := by
      rw [hz]
      rfl
    rw [htold, chosen_none, hz, hl]
    decide
  · simp only [told_of_ne hz, Backend.chosen, take_room b f hn, List.length_map]
    exact ⟨by rfl, trivial, by rfl⟩

/-- The configs that a filter chooses on an implementation that nothing hinders. -/
theorem chooseConfigs_eq {f : Filter} (h : Unhindered .chooseConfig w)
    (hd : f.display = displayHandle) (hn : w.backend.configs.length < 2147483648) :
    ∃ after, f.chooseConfigs w =
      .ok ((limited w.backend (places w.backend f)).map fun i => ⟨displayHandle, configHandle i⟩)
        after := by
  have hp : (places w.backend f).length < 2147483648 := Nat.lt_of_le_of_lt (places_length_le _ f) hn
  have hle := limited_length_le w.backend (places w.backend f)
  -- The first call counts the places.
  rcases hw : w.exchange (.chooseConfig f.display (some f.attributes) none) with ⟨first, counted⟩
  obtain ⟨hfirst, hconfigs, hlimit, hnext⟩ := exchange_choose h hd hw
  rw [chosen_none] at hfirst
  -- The second one has room for all of them, on a table that is still the same.
  rcases hw' : counted.exchange (.chooseConfig f.display (some f.attributes)
    (Span.ofLength (places w.backend f).length).told) with ⟨second, filled⟩
  obtain ⟨hsecond, -, -, -⟩ := exchange_choose hnext hd hw'
  have hplaces : places counted.backend f = places w.backend f := by
    unfold places
    rw [hconfigs]
  have hlimited : limited counted.backend (places w.backend f) =
      limited w.backend (places w.backend f) := by
    unfold limited
    rw [hlimit]
  obtain ⟨haccepted, hfill, hwritten⟩ := chosen_fill counted.backend f (by rwa [hplaces])
  rw [hplaces, ← hsecond] at haccepted hfill hwritten
  rw [hlimited] at hfill hwritten
  have hlength : second.fill.length = (limited w.backend (places w.backend f)).length := by
    rw [hfill, List.length_map]
  obtain ⟨after, hrun, -⟩ := (chooseConfigs_two_pass f).exact hw (by rw [hfirst]; rfl)
    (by rw [hfirst]; rfl) hp hw' haccepted (by rw [hlength]; exact hwritten) (by omega)
  refine ⟨after, ?_⟩
  rw [hfill, List.map_map, hd] at hrun
  exact hrun

theorem wantAll_display (f : Filter) (settings : List Setting) :
    (f.wantAll settings).display = f.display := by
  induction settings generalizing f with
  | nil => rfl
  | cons s rest ih => exact ih (f.want s.1 s.2)

/-- A filter chooses exactly the configs that it selects, each once, in the order of the table and
as far as the limit allows. The filter may be the result of any settings, with any values. -/
theorem chooses_selected (settings : List Setting) (h : Unhindered .chooseConfig w)
    (hn : w.backend.configs.length < 2147483648) :
    ∃ (chosen : List Nat) (after : World),
      chosen.Pairwise (· < ·) ∧
      (∀ i, i ∈ chosen ↔ ∃ config, w.backend.configs[i]? = some config ∧
        Selects (({ display := displayHandle } : Filter).wantAll settings) config) ∧
      (({ display := displayHandle } : Filter).wantAll settings).chooseConfigs w =
        .ok ((limited w.backend chosen).map fun i => ⟨displayHandle, configHandle i⟩) after := by
  have hd := wantAll_display { display := displayHandle } settings
  obtain ⟨after, hrun⟩ := chooseConfigs_eq h hd hn
  exact ⟨places w.backend _, after, places_ascending w.backend _, fun _ => mem_places, hrun⟩

/-- Three configs, of which the first and the last have red values of eight bits; but only one
config is written at a time. -/
def narrow : World where
  backend :=
    { configs := [.make 1 8 8 8 8 24 8, .make 2 5 6 5 0 16 0, .make 3 8 8 8 0 24 0]
      fillLimit := some 1 }

theorem chooses_selected_narrow :
    Unhindered .chooseConfig narrow ∧ narrow.backend.configs.length < 2147483648 ∧
    ∃ (chosen : List Nat) (after : World),
      chosen.Pairwise (· < ·) ∧
      (∀ i, i ∈ chosen ↔ ∃ config, narrow.backend.configs[i]? = some config ∧
        Selects (({ display := displayHandle } : Filter).wantAll
          [⟨.redSize, (8 : Int32)⟩, ⟨.matchNativePixmap, none⟩]) config) ∧
      (({ display := displayHandle } : Filter).wantAll
          [⟨.redSize, (8 : Int32)⟩, ⟨.matchNativePixmap, none⟩]).chooseConfigs narrow =
        .ok ((limited narrow.backend chosen).map fun i => ⟨displayHandle, configHandle i⟩) after :=
  have h : Unhindered .chooseConfig narrow := ⟨by decide, by simp [narrow], by decide⟩
  ⟨h, by decide,
    chooses_selected [⟨.redSize, (8 : Int32)⟩, ⟨.matchNativePixmap, none⟩] h (by decide)⟩

end Egl.Proofs
