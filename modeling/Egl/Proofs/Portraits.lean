import Egl.Proofs.Descriptions
import Egl.Proofs.Serving
import Egl.Proofs.Values

namespace Egl.Proofs

open Backend (Attributes displayHandle)

variable {c d : ConfigRef} {config other : Attributes} {b : Backend} {w v : World}

/-- Queries of configs are left to the in-memory implementation. -/
structure Consulted (w : World) : Prop where
  recording : Recording w
  unscripted : ∀ item ∈ w.script.pending .getConfigAttrib, item = none

/-- The attributes that a config shows, unless its queries fail. -/
def shown (b : Backend) (c : ConfigRef) : Option Attributes :=
  if c.display = displayHandle ∧ .getConfigAttrib ∉ b.failures then b.config? c.handle else none

theorem config?_eq_none {handle : Handle} :
    b.config? handle = none ↔ handle = 0 ∨ b.configs.length < handle := by
  unfold Backend.config?
  by_cases hz : handle = 0
  · simp only [hz, if_true, true_or]
  · rw [if_neg hz, List.getElem?_eq_none_iff]
    simp only [hz, false_or]
    have hpos : 0 < handle := Nat.pos_of_ne_zero hz
    exact ⟨Nat.lt_of_le_pred hpos, Nat.le_pred_of_lt⟩

theorem shown_eq_none : shown b c = none ↔
    c.display ≠ displayHandle ∨ c.handle = 0 ∨ b.configs.length < c.handle ∨
      .getConfigAttrib ∈ b.failures := by
  unfold shown
  split
  · next h => simp only [config?_eq_none, h.1, h.2, ne_eq, not_true_eq_false, false_or, or_false]
  · next h =>
    simp only [true_iff]
    by_cases hd : c.display = displayHandle
    · exact .inr (.inr (.inr (not_not.mp fun hf => h ⟨hd, hf⟩)))
    · exact .inl hd

theorem answer_getConfigAttrib (b : Backend) (c : ConfigRef) (attr : Int32) :
    b.answer (.getConfigAttrib c.display c.handle attr) =
      (Backend.found ((shown b c).map (·.value attr)), reach b .getConfigAttrib) := by
  by_cases hf : .getConfigAttrib ∈ b.failures
  · have hs : shown b c = none := shown_eq_none.mpr (.inr (.inr (.inr hf)))
    rw [hs]
    exact answer_switched rfl hf
  · rw [answer_working rfl hf]
    by_cases hd : c.display = displayHandle
    · simp only [shown, hd, hf, Backend.respond, Call.entry, not_false_eq_true, and_self, if_true]
      rfl
    · simp only [shown, hd, Backend.respond, Call.entry, false_and, if_false]
      rfl

/-- What is shown depends on the table and the switch alone, which no query changes. -/
theorem Consulted.exchange (h : Consulted w) (c : ConfigRef) (attr : Int32) :
    ∃ after, w.exchange (.getConfigAttrib c.display c.handle attr) =
      (Backend.found ((shown w.backend c).map (·.value attr)), after) ∧ Consulted after ∧
      after.backend = reach w.backend .getConfigAttrib := by
  obtain ⟨hnone, hrest⟩ := next_unscripted h.unscripted
  obtain ⟨hreply, hbackend, hscript⟩ :=
    @exchange_unscripted w h.recording (.getConfigAttrib c.display c.handle attr) hnone
  rw [answer_getConfigAttrib] at hreply hbackend
  refine ⟨_, Prod.ext hreply rfl, ⟨exchange_recording h.recording rfl, ?_⟩, hbackend⟩
  rw [hscript]
  exact hrest

theorem Consulted.attrib_ok (h : Consulted w) (hs : shown w.backend c = some config)
    (attr : Int32) : ∃ after, c.attrib attr w = .ok (config.value attr) after ∧
      Consulted after ∧ shown after.backend c = some config ∧ after.log = w.log := by
  obtain ⟨after, hx, hafter, hb⟩ := h.exchange c attr
  rw [hs] at hx
  exact ⟨after, require_value_ok _ hx rfl, hafter, by rw [hb]; exact hs, exchange_log hx⟩

theorem Consulted.attrib_error (h : Consulted w) (hs : shown w.backend c = none) (attr : Int32) :
    ∃ after, c.attrib attr w = .error unasked after := by
  obtain ⟨after, hx, -⟩ := h.exchange c attr
  rw [hs] at hx
  exact ⟨after, require_value_error _ hx rfl⟩

/-- What is said about one property of a config. -/
def entry (config : Attributes) (p : Property) : String :=
  p.name ++ ": " ++ p.kind.text (config.value p.code)

/-- The description of a config with given attributes. -/
def portrait (config : Attributes) : String :=
  ConfigRef.braced (String.intercalate ", " (Property.described.map (entry config)))

theorem Consulted.fields_ok (h : Consulted w) (hs : shown w.backend c = some config)
    (properties : List Property) :
    ∃ after, properties.mapM c.field w = .ok (properties.map (entry config)) after ∧
      after.log = w.log := by
  induction properties generalizing w with
  | nil => exact ⟨w, rfl, rfl⟩
  | cons p rest ih =>
    obtain ⟨mid, hp, hmid, hshown, hlog⟩ := h.attrib_ok hs p.code
    obtain ⟨after, hrest, hlog'⟩ := ih hmid hshown
    have hfield : c.field p w = .ok (entry config p) mid := bind_ok hp _
    rw [List.mapM_cons, bind_ok hfield, bind_ok hrest]
    exact ⟨after, rfl, hlog'.trans hlog⟩

theorem Consulted.fields_error (h : Consulted w) (hs : shown w.backend c = none) (p : Property)
    (rest : List Property) : ∃ after, (p :: rest).mapM c.field w = .error unasked after := by
  obtain ⟨after, hp⟩ := h.attrib_error hs p.code
  have hfield : c.field p w = .error unasked after := bind_error hp _
  rw [List.mapM_cons, bind_error hfield]
  exact ⟨after, rfl⟩

/-- A config describes itself by what it shows, or by the error of its first query. -/
def told (b : Backend) (c : ConfigRef) : String :=
  match shown b c with
  | some config => portrait config
  | none => errorText .getConfigAttrib

theorem Consulted.describe_ok (h : Consulted w) (hs : shown w.backend c = some config) :
    ∃ after, c.describe w = .ok (portrait config) after ∧ after.log = w.log := by
  obtain ⟨after, hfields, hlog⟩ := h.fields_ok hs Property.described
  unfold ConfigRef.describe
  rw [hfields]
  exact ⟨after, rfl, hlog⟩

theorem Consulted.describe (h : Consulted w) (c : ConfigRef) :
    ∃ after, c.describe w = .ok (told w.backend c) after := by
  unfold told
  cases hs : shown w.backend c with
  | some config =>
    obtain ⟨after, hdescribe, -⟩ := h.describe_ok hs
    exact ⟨after, hdescribe⟩
  | none =>
    obtain ⟨after, hfields⟩ := h.fields_error hs .configId _
    unfold ConfigRef.describe
    rw [show Property.described = .configId :: _ from rfl, hfields]
    exact ⟨after, by rw [errorText_braced]; rfl⟩

theorem portrait_ne (config : Attributes) : portrait config ≠ errorText .getConfigAttrib :=
  described_ne _ _ _

theorem described_perm : Property.described.Perm Property.all := by decide

theorem mem_described (p : Property) : p ∈ Property.described := by cases p <;> decide

theorem entries_commaless (config : Attributes) :
    ∀ text ∈ Property.described.map (entry config), ',' ∉ text.toList := by
  intro text htext
  obtain ⟨p, -, rfl⟩ := List.mem_map.mp htext
  simp only [entry, String.toList_append, List.mem_append, not_or]
  exact ⟨⟨name_commaless p, by decide⟩, text_commaless (kind_proper p) _⟩

/-- The entries of a description end at their commas, so each of them can be read off. -/
theorem portrait_injective (h : portrait config = portrait other) (p : Property) :
    p.kind.text (config.value p.code) = p.kind.text (other.value p.code) := by
  have hentries : Property.described.map (entry config) =
      Property.described.map (entry other) := by
    apply join_injective _ _ _ _ _ (braced_injective h)
    · exact ','
    · exact [' ']
    · decide
    · exact List.cons_ne_nil _ _
    · exact List.cons_ne_nil _ _
    · exact entries_commaless config
    · exact entries_commaless other
  have hentry := List.map_inj_left.mp hentries p (mem_described p)
  exact (String.append_right_inj _).mp hentry

/-- The query of a property is answered by a value. -/
def Answers (c : ConfigRef) (w : World) (p : Property) (value : PropertyValue) : Prop :=
  ∃ after, c.query p w = .ok value after

/-- The query of a property fails. -/
def Withheld (c : ConfigRef) (w : World) (p : Property) : Prop :=
  ∃ failure after, c.query p w = .error failure after

theorem Consulted.answers_iff (h : Consulted w) (hs : shown w.backend c = some config)
    (p : Property) (value : PropertyValue) :
    Answers c w p value ↔ value = p.kind.value (config.value p.code) := by
  obtain ⟨after, hp, -⟩ := h.attrib_ok hs p.code
  have hquery : c.query p w = .ok (p.kind.value (config.value p.code)) after := bind_ok hp _
  constructor
  · rintro ⟨later, hlater⟩
    cases hquery.symm.trans hlater
    rfl
  · rintro rfl
    exact ⟨after, hquery⟩

theorem Consulted.withheld_iff (h : Consulted w) (c : ConfigRef) (p : Property) :
    Withheld c w p ↔ shown w.backend c = none := by
  constructor
  · rintro ⟨failure, after, hfailed⟩
    cases hs : shown w.backend c with
    | none => rfl
    | some config =>
      obtain ⟨later, hlater⟩ := (h.answers_iff hs p _).mpr rfl
      cases hlater.symm.trans hfailed
  · intro hs
    obtain ⟨after, hp⟩ := h.attrib_error hs p.code
    exact ⟨unasked, after, bind_error hp _⟩

/-- What the description of a config says. -/
structure Portrayed (c : ConfigRef) (w : World) (text : String) : Prop where
  /-- A config can always be described, by itself and inside another text. -/
  told : ∃ after, c.describe w = .ok text after
  steps : ∀ s : Session, s.world = w →
    (s.step (.describeConfig (.direct c))).1.result = .ok (.text text) ∧
      (s.step (.formatConfig (.direct c))).1.result = .ok (.text ("<" ++ text ++ ">"))
  error : text = errorText .getConfigAttrib ↔ ∃ p, Withheld c w p
  /-- A query fails for a foreign display, for a handle outside of the table and by the switch. -/
  withheld : (∃ p, Withheld c w p) ↔ c.display ≠ displayHandle ∨ c.handle = 0 ∨
    w.backend.configs.length < c.handle ∨ .getConfigAttrib ∈ w.backend.failures
  /-- If no query fails, then every property is there, by its name and what it answers. -/
  full : (¬ ∃ p, Withheld c w p) → ∃ raw : Property → Int32, ∃ order : List Property,
    (∀ p, Answers c w p (p.kind.value (raw p))) ∧ order.Perm Property.all ∧
      text = ConfigRef.braced (String.intercalate ", "
        (order.map fun p => p.name ++ ": " ++ p.kind.text (raw p)))

theorem Consulted.steps_told (h : Consulted w) (c : ConfigRef) {s : Session} (hs : s.world = w) :
    (s.step (.describeConfig (.direct c))).1.result = .ok (.text (told w.backend c)) ∧
      (s.step (.formatConfig (.direct c))).1.result =
        .ok (.text ("<" ++ told w.backend c ++ ">")) := by
  subst hs
  have hfresh : Consulted s.fresh.world := ⟨h.recording, h.unscripted⟩
  obtain ⟨after, hdescribe⟩ := hfresh.describe c
  have hrun : Act.run c.describe s.fresh =
      .ok (told s.world.backend c) { s.fresh with world := after } := by
    rw [Act.run, hdescribe]
    rfl
  constructor
  · have hact : (Step.describeConfig (.direct c)).act s.fresh =
        .ok (.text (told s.world.backend c)) { s.fresh with world := after } := by
      change (Answer.text <$> Act.run c.describe) s.fresh = _
      rw [map_eq_pure_bind, bind_ok hrun]
      rfl
    rw [Session.step, hact]
  · have hact : (Step.formatConfig (.direct c)).act s.fresh =
        .ok (.text ("<" ++ told s.world.backend c ++ ">")) { s.fresh with world := after } :=
      bind_ok hrun _
    rw [Session.step, hact]

theorem Consulted.portrayed (h : Consulted w) (c : ConfigRef) :
    Portrayed c w (told w.backend c) := by
  have hwithheld : (∃ p, Withheld c w p) ↔ shown w.backend c = none :=
    ⟨fun ⟨p, hp⟩ => (h.withheld_iff c p).mp hp, fun hs => ⟨.configId, (h.withheld_iff c _).mpr hs⟩⟩
  refine ⟨h.describe c, fun s hs => h.steps_told c hs, ?_, hwithheld.trans shown_eq_none, ?_⟩
  · rw [hwithheld, told]
    cases shown w.backend c with
    | none => simp only
    | some config => simp only [portrait_ne, reduceCtorEq]
  · intro hfull
    obtain ⟨config, hs⟩ := Option.ne_none_iff_exists'.mp (mt hwithheld.mpr hfull)
    refine ⟨fun p => config.value p.code, Property.described, ?_, described_perm, ?_⟩
    · exact fun p => (h.answers_iff hs p _).mpr rfl
    · rw [told, hs]
      rfl

/-- All queries of a config are answered, and by values that have texts of their own. -/
def Outspoken (c : ConfigRef) (w : World) : Prop :=
  ∀ p, ∃ value, Answers c w p value ∧ Familiar p.kind value

theorem Consulted.shown_of_outspoken (h : Consulted w) (ho : Outspoken c w) :
    ∃ config, shown w.backend c = some config ∧
      ∀ p : Property, Familiar p.kind (p.kind.value (config.value p.code)) := by
  cases hs : shown w.backend c with
  | none =>
    obtain ⟨value, ⟨after, hok⟩, -⟩ := ho .configId
    obtain ⟨failure, later, herror⟩ := (h.withheld_iff c .configId).mpr hs
    cases hok.symm.trans herror
  | some config =>
    refine ⟨config, rfl, ?_⟩
    intro p
    obtain ⟨value, hvalue, hf⟩ := ho p
    rwa [(h.answers_iff hs p value).mp hvalue] at hf

theorem portrait_eq_iff
    (hc : ∀ p : Property, Familiar p.kind (p.kind.value (config.value p.code)))
    (hd : ∀ p : Property, Familiar p.kind (p.kind.value (other.value p.code))) :
    portrait config = portrait other ↔ ∀ p : Property,
      p.kind.value (config.value p.code) = p.kind.value (other.value p.code) := by
  constructor
  · intro h p
    exact value_of_text (kind_proper p) (hc p) (hd p) (portrait_injective h p)
  · intro h
    have hentries : entry config = entry other := by
      funext p
      rw [entry, entry, text_of_value (h p)]
    rw [portrait, portrait, hentries]

/-- Two configs, of one implementation or of two, are described by the same words if and only if all
their queries have the same answers. -/
theorem portraits_tell (h : Consulted w) (hv : Consulted v) (c d : ConfigRef) :
    ∃ text other, Portrayed c w text ∧ Portrayed d v other ∧
      (Outspoken c w → Outspoken d v →
        (text = other ↔ ∀ p value, Answers c w p value ↔ Answers d v p value)) := by
  refine ⟨_, _, h.portrayed c, hv.portrayed d, ?_⟩
  intro hc hd
  obtain ⟨config, hs, hfc⟩ := h.shown_of_outspoken hc
  obtain ⟨other, ho, hfd⟩ := hv.shown_of_outspoken hd
  simp only [told, hs, ho, portrait_eq_iff hfc hfd]
  constructor
  · intro he p value
    rw [h.answers_iff hs, hv.answers_iff ho, he p]
  · intro he p
    exact (hv.answers_iff ho p _).mp ((he p _).mp ((h.answers_iff hs p _).mpr rfl))

/-- A config with all of its colors, and one without transparency. -/
def colorful : World where
  backend := { configs := [.make 1 8 8 8 8 24 8, .make 2 5 6 5 0 16 0] }

theorem portraits_tell_colorful :
    Consulted colorful ∧ Outspoken ⟨displayHandle, 1⟩ colorful ∧
      Outspoken ⟨displayHandle, 2⟩ colorful ∧
      ∃ text other, Portrayed ⟨displayHandle, 1⟩ colorful text ∧
        Portrayed ⟨displayHandle, 2⟩ colorful other ∧
        (text = other ↔ ∀ p value, Answers ⟨displayHandle, 1⟩ colorful p value ↔
          Answers ⟨displayHandle, 2⟩ colorful p value) := by
  have h : Consulted colorful := ⟨by decide, by simp [colorful]⟩
  have hfirst : Outspoken ⟨displayHandle, 1⟩ colorful := by
    intro p
    refine ⟨_, (h.answers_iff rfl p _).mpr rfl, ?_⟩
    cases p <;> simp [Familiar, Property.kind, PropertyKind.value] <;> decide
  have hsecond : Outspoken ⟨displayHandle, 2⟩ colorful := by
    intro p
    refine ⟨_, (h.answers_iff rfl p _).mpr rfl, ?_⟩
    cases p <;> simp [Familiar, Property.kind, PropertyKind.value] <;> decide
  obtain ⟨text, other, htext, hother, htell⟩ :=
    portraits_tell h h ⟨displayHandle, 1⟩ ⟨displayHandle, 2⟩
  exact ⟨h, hfirst, hsecond, text, other, htext, hother, htell hfirst hsecond⟩

end Egl.Proofs
