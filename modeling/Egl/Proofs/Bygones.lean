import Egl.Proofs.Deeds

namespace Egl.Proofs

variable {k other : OwnerKind} {kind : ResourceKind} {s : Session} {st : Step} {steps : List Step}

/-- What an earlier deed gave up, a later one does not pass on. The null handle stands for none. -/
def Bygone (k : OwnerKind) (earlier later : Deed) : Prop :=
  ∀ h ∈ earlier.yields k, h ≠ 0 → h ∉ later.passes k

theorem Bygone.of_yields {earlier later : Deed} (h : earlier.yields k = []) :
    Bygone k earlier later := by
  intro handle hy
  rw [h] at hy
  cases hy

theorem Bygone.of_renounced {earlier later : Deed} {m : Moment} (h : later ∈ m.renounced) :
    Bygone k earlier later := by
  intro handle _ _ hp
  rw [renounced_passes h] at hp
  cases hp

theorem partings_bygone {k₁ k₂ : OwnerKind} {first : Token k₁} {last : Token k₂} {c d : Call}
    (hne : k₁ = k → k₂ = k → handleOf k₁ first ≠ handleOf k₂ last) (hc : c ∈ partings k₁ first)
    (hd : d ∈ partings k₂ last) : Bygone k (.call c) (.call d) := by
  intro h hy hz hp
  obtain ⟨hk₁, hfirst⟩ := partings_yields hc hy
  rcases partings_passes hd hp with hnull | ⟨hk₂, hlast⟩
  · exact hz hnull
  · exact hne hk₁ hk₂ (hfirst.symm.trans hlast)

/-- The two calls for a display are about no context and no surface. -/
theorem partings_pairwise (token : Token other) :
    ((partings other token).map Deed.call).Pairwise (Bygone k) := by
  cases other with
  | display =>
    refine List.pairwise_pair.mpr fun h hy => ?_
    cases k <;> cases hy
  | context | surface => exact List.pairwise_singleton _ _

/-- Owners of different handles can part with them one after another. -/
theorem farewells_pairwise {tokens : List (Token other)}
    (hn : other = k → (tokens.map (handleOf other)).Nodup) :
    ((tokens.flatMap (partings other)).map Deed.call).Pairwise (Bygone k) := by
  have happart : tokens.Pairwise fun a b => other = k → handleOf other a ≠ handleOf other b := by
    by_cases hk : other = k
    · exact (List.pairwise_map.mp (hn hk)).imp fun hne _ => hne
    · exact List.pairwise_of_forall fun _ _ h => absurd h hk
  rw [List.map_flatMap, List.pairwise_flatMap]
  refine ⟨fun token _ => partings_pairwise token, happart.imp ?_⟩
  intro a b hne x hx y hy
  obtain ⟨c, hc, rfl⟩ := List.mem_map.mp hx
  obtain ⟨d, hd, rfl⟩ := List.mem_map.mp hy
  exact partings_bygone (fun hk _ => hne hk) hc hd

/-- The slots of one kind are in order, and hold distinct handles that the implementation handed out
and will not hand out again. -/
structure Safe (kind : ResourceKind) (s : Session) : Prop where
  sound : Sound (ownerKind kind) s
  unscripted : Unscripted s.world.script
  nodup : (held (ownerKind kind) s).Nodup
  lt_next : ∀ h ∈ held (ownerKind kind) s, h < next kind s.world.backend

/-- A handle that was handed out, and that no slot holds any more. -/
structure Gone (kind : ResourceKind) (s : Session) (h : Handle) : Prop where
  lt_next : h < next kind s.world.backend
  free : h ∉ held (ownerKind kind) s

/-- What leaves the slots in a step and what they hold after it are distinct handles, and the
implementation hands none of them out again. -/
theorem Safe.apart (h : Safe kind s) (hl : Layered st) :
    ((moment s st).lost (ownerKind kind) +
        (held (ownerKind kind) (s.step st).2 : Multiset Handle)).Nodup ∧
      ∀ handle ∈ (moment s st).lost (ownerKind kind) +
          (held (ownerKind kind) (s.step st).2 : Multiset Handle),
        (handle ∈ held (ownerKind kind) s ∨ next kind s.world.backend ≤ handle) ∧
          handle < next kind (s.step st).2.world.backend := by
  have hnext := (step_proceeds hl h.unscripted).next_le kind
  obtain ⟨hnodup, hfresh⟩ := gained_fresh kind h.sound.recording h.unscripted st
  rw [← step_handles h.sound hl]
  constructor
  · refine Multiset.nodup_add.mpr ⟨Multiset.coe_nodup.mpr h.nodup, hnodup, ?_⟩
    refine Multiset.disjoint_left.mpr fun {handle} hheld hgained => ?_
    have hlt := h.lt_next handle (Multiset.mem_coe.mp hheld)
    exact absurd (hfresh handle hgained).1 (Nat.not_le.mpr hlt)
  · intro handle hm
    rcases Multiset.mem_add.mp hm with hheld | hgained
    · have hmem := Multiset.mem_coe.mp hheld
      exact ⟨.inl hmem, (h.lt_next handle hmem).trans_le hnext⟩
    · exact ⟨.inr (hfresh handle hgained).1, (hfresh handle hgained).2⟩

theorem Safe.step (h : Safe kind s) (hl : Layered st) : Safe kind (s.step st).2 := by
  obtain ⟨hnodup, hmem⟩ := h.apart hl
  refine ⟨step_sound h.sound hl.recording (hl.leaves _), (step_proceeds hl h.unscripted).unscripted,
    ?_, fun handle hh => ?_⟩
  · exact Multiset.coe_nodup.mp (Multiset.nodup_add.mp hnodup).2.1
  · exact (hmem handle (Multiset.mem_add.mpr (.inr (Multiset.mem_coe.mpr hh)))).2

/-- What is gone stays gone. -/
theorem Gone.step {handle : Handle} (hg : Gone kind s handle) (h : Safe kind s) (hl : Layered st) :
    Gone kind (s.step st).2 handle := by
  refine ⟨hg.lt_next.trans_le ((step_proceeds hl h.unscripted).next_le kind), fun hh => ?_⟩
  have hmem := (h.apart hl).2 handle (Multiset.mem_add.mpr (.inr (Multiset.mem_coe.mpr hh)))
  rcases hmem.1 with hheld | hnew
  · exact hg.free hheld
  · exact absurd hnew (Nat.not_le.mpr hg.lt_next)

/-- What a deed gives up is gone after the step. -/
theorem Safe.gone {deed : Deed} {handle : Handle} (h : Safe kind s) (hl : Layered st)
    (hd : deed ∈ (moment s st).deeds) (hy : handle ∈ deed.yields (ownerKind kind))
    (hz : handle ≠ 0) : Gone kind (s.step st).2 handle := by
  obtain ⟨hnodup, hmem⟩ := h.apart hl
  have hlost := yields_lost h.sound hl hd hy hz
  refine ⟨(hmem handle (Multiset.mem_add.mpr (.inl hlost))).2, fun hh => ?_⟩
  have hdisjoint := (Multiset.nodup_add.mp hnodup).2.2
  exact Multiset.disjoint_left.mp hdisjoint hlost (Multiset.mem_coe.mpr hh)

/-- Within a step, only retired owners give up anything by a call, and what they hold is
distinct. -/
theorem Safe.bygone (h : Safe kind s) (hl : Layered st) :
    (moment s st).deeds.Pairwise (Bygone (ownerKind kind)) := by
  have hretired : (handles ((moment s st).retired (ownerKind kind))).Nodup := by
    have hlost := (Multiset.nodup_add.mp (h.apart hl).1).1
    unfold Moment.lost at hlost
    rw [Multiset.map_add, weight_handles] at hlost
    exact Multiset.coe_nodup.mp (Multiset.nodup_add.mp hlost).1
  rw [← holding_handles] at hretired
  obtain ⟨calls, hnone, hcalls⟩ := step_calls h.sound hl
  have hquiet : ∀ deed ∈ calls.map Deed.call, deed.yields (ownerKind kind) = [] := by
    intro deed hd
    obtain ⟨c, hc, rfl⟩ := List.mem_map.mp hd
    simp only [Deed.yields, hnone c hc, Option.map_none, Option.toList_none]
  have hmade : ((callsOf (s.step st).1.events).map Deed.call).Pairwise
      (Bygone (ownerKind kind)) := by
    rw [hcalls, List.map_append, List.pairwise_append]
    refine ⟨?_, farewells_pairwise fun _ => hretired, ?_⟩
    · exact List.pairwise_of_forall_mem_list fun earlier he _ _ => .of_yields (hquiet earlier he)
    · exact fun earlier he _ _ => .of_yields (hquiet earlier he)
  refine List.pairwise_append.mpr ⟨hmade, ?_, ?_⟩
  · exact List.pairwise_of_forall_mem_list fun _ _ _ hd => .of_renounced hd
  · exact fun _ _ _ hd => .of_renounced hd

/-- What the slots of one kind hold. -/
def estate (k : OwnerKind) (s : Session) : List (Token k) :=
  ((shelf k).slots s).values.flatMap (holding k)

/-- The kinds of owners in the order in which they part with what is left at the end. -/
def partingOrder : List OwnerKind := [.surface, .context, .display]

theorem estate_handles (k : OwnerKind) (s : Session) :
    (estate k s).map (handleOf k) = held k s := holding_handles _

theorem finish_calls (hr : Recording s.world) : callsOf s.finish.journal =
    partingOrder.flatMap fun k => (estate k s).flatMap (partings k) := by
  have hstart : Recording s.fresh.world := hr
  obtain ⟨first, hj, hc⟩ := releases_partings (k := .surface) s.surfaces.values hstart
  have hfirst := releases_recording (k := .surface) s.surfaces.values hstart
  obtain ⟨second, hj', hc'⟩ := releases_partings (k := .context) s.contexts.values hfirst
  have hsecond := releases_recording (k := .context) s.contexts.values hfirst
  obtain ⟨third, hj'', hc''⟩ := releases_partings (k := .display) s.displays.values hsecond
  have hempty : s.fresh.world.journal = [] := rfl
  rw [hj', hj, hempty, List.nil_append] at hj''
  have hall : callsOf s.finish.journal = callsOf first ++ callsOf second ++ callsOf third := by
    rw [← callsOf_append, ← callsOf_append]
    exact congrArg callsOf hj''
  rw [hall, hc, hc', hc'', List.append_assoc]
  simp only [partingOrder, List.flatMap_cons, List.flatMap_nil, List.append_nil]
  rfl

/-- Everything that is passed on at the end was held until then. -/
theorem finish_provided (hr : Recording s.world) :
    ∀ c ∈ callsOf s.finish.journal, Provided s c := by
  intro c hc
  rw [finish_calls hr] at hc
  obtain ⟨k, -, hk⟩ := List.mem_flatMap.mp hc
  obtain ⟨token, ht, hpart⟩ := List.mem_flatMap.mp hk
  obtain ⟨owner, ho, hholding⟩ := List.mem_flatMap.mp ht
  exact partings_provided ho hholding hpart

theorem Safe.finish_bygone (h : Safe kind s) :
    ((callsOf s.finish.journal).map Deed.call).Pairwise (Bygone (ownerKind kind)) := by
  have hdistinct : partingOrder.Pairwise (· ≠ ·) := by decide
  rw [finish_calls h.sound.recording, List.map_flatMap, List.pairwise_flatMap]
  refine ⟨fun k _ => farewells_pairwise ?_, hdistinct.imp ?_⟩
  · rintro rfl
    rw [estate_handles]
    exact h.nodup
  · intro first last hne x hx y hy
    obtain ⟨c, hc, rfl⟩ := List.mem_map.mp hx
    obtain ⟨d, hd, rfl⟩ := List.mem_map.mp hy
    obtain ⟨token, -, hpart⟩ := List.mem_flatMap.mp hc
    obtain ⟨token', -, hpart'⟩ := List.mem_flatMap.mp hd
    refine partings_bygone (fun hk hk' => ?_) hpart hpart'
    exact absurd (hk.trans hk'.symm) hne

theorem deeds_nil (s : Session) : deeds s [] = (callsOf s.finish.journal).map .call := rfl

theorem deeds_cons (s : Session) (st : Step) (rest : List Step) :
    deeds s (st :: rest) = (moment s st).deeds ++ deeds (s.step st).2 rest := by
  unfold deeds
  rw [history, List.flatMap_cons, List.append_assoc]
  rfl

/-- What is gone is not passed on any more, up to the end of the session. -/
theorem Gone.unused {handle : Handle} (hg : Gone kind s handle) (h : Safe kind s)
    (hl : ∀ st ∈ steps, Layered st) (hz : handle ≠ 0) :
    ∀ deed ∈ deeds s steps, handle ∉ deed.passes (ownerKind kind) := by
  induction steps generalizing s with
  | nil =>
    intro deed hd hp
    rw [deeds_nil] at hd
    obtain ⟨c, hc, rfl⟩ := List.mem_map.mp hd
    rcases (finish_provided h.sound.recording c hc).passes hp with hnull | hheld
    · exact hz hnull
    · exact hg.free hheld
  | cons st rest ih =>
    intro deed hd hp
    have hlst := hl st List.mem_cons_self
    rw [deeds_cons] at hd
    rcases List.mem_append.mp hd with hfirst | hrest
    · rcases deed_passes (step_proceeds hlst h.unscripted) hfirst hp with hnull | hheld
      · exact hz hnull
      · exact hg.free hheld
    · have hlrest := fun st hst => hl st (List.mem_cons_of_mem _ hst)
      exact ih (hg.step h hlst) (h.step hlst) hlrest deed hrest hp

theorem Safe.run_bygone (h : Safe kind s) (hl : ∀ st ∈ steps, Layered st) :
    (deeds s steps).Pairwise (Bygone (ownerKind kind)) := by
  induction steps generalizing s with
  | nil =>
    rw [deeds_nil]
    exact h.finish_bygone
  | cons st rest ih =>
    have hlst := hl st List.mem_cons_self
    have hlrest := fun st hst => hl st (List.mem_cons_of_mem _ hst)
    rw [deeds_cons]
    refine List.pairwise_append.mpr ⟨h.bygone hlst, ih (h.step hlst) hlrest, ?_⟩
    intro earlier he later hlater handle hy hz
    exact (h.gone hlst he hy hz).unused (h.step hlst) hlrest hz later hlater

theorem Safe.run_nodup (h : Safe kind s) (hl : ∀ st ∈ steps, Layered st) :
    ∀ m ∈ history s steps, (held (ownerKind kind) m.after).Nodup := by
  induction steps generalizing s with
  | nil =>
    intro m hm
    cases hm
  | cons st rest ih =>
    have hnext := h.step (hl st List.mem_cons_self)
    intro m hm
    rcases List.mem_cons.mp hm with rfl | hrest
    · exact hnext.nodup
    · exact ih hnext (fun st hst => hl st (List.mem_cons_of_mem _ hst)) m hrest

/-- What becomes of the handles of one kind in a whole session. -/
structure Relinquished (kind : ResourceKind) (s : Session) (steps : List Step) : Prop where
  /-- The moments are those that the run records. -/
  recorded : (history s steps).map Moment.record = (s.run steps).1
  /-- At no time do two slots hold the same handle. -/
  distinct : ∀ m ∈ history s steps, (held (ownerKind kind) m.after).Nodup
  /-- No deed passes on what an earlier one gave up. -/
  bygone : (deeds s steps).Pairwise (Bygone (ownerKind kind))

theorem opening_safe (kind : ResourceKind) (b : Backend) {script : Script} (h : Unscripted script)
    (library : Library) : Safe kind (opening b script library) where
  sound := opening_sound _ b script library
  unscripted := h
  nodup := by cases kind <;> exact List.nodup_nil
  lt_next := by cases kind <;> nofun

/-- In a session of the resource layer, contexts and surfaces that wrappers gave up are never used
again, whichever calls fail and whatever else is scripted. -/
theorem handles_relinquished (kind : ResourceKind) (b : Backend) (script : Script)
    (library : Library) (steps : List Step) (hu : Unscripted script)
    (hl : ∀ st ∈ steps, Layered st) :
    Relinquished kind (opening b script library) steps := by
  have hsafe := opening_safe kind b hu library
  exact ⟨history_records _ steps, hsafe.run_nodup hl, hsafe.run_bygone hl⟩

/-- A context makes room for another one although it cannot be destroyed. The other one is used, and
then forgotten; and there is a third one at the end. -/
def turnover : List Step :=
  [.connect "display" 0, .createContext "display" (.direct ⟨208, 1⟩) "context" none,
    .configure { script := [(.destroyContext, [some .null])] },
    .createContext "display" (.direct ⟨208, 1⟩) "context" none,
    .createPbufferSurface "display" (.direct ⟨208, 1⟩) [] "surface",
    .makeCurrent "display" "surface" "surface" "context", .owner .context (.forget "context"),
    .createContext "display" (.direct ⟨208, 1⟩) "context" none]

theorem handles_relinquished_turnover :
    Unscripted {} ∧ (∀ st ∈ turnover, Layered st) ∧
      Relinquished .context (opening { configs := [.make 1 8 8 8 8 24 8] } {} {}) turnover := by
  have hunscripted : Unscripted {} := fun _ _ _ hi => nomatch hi
  have hlayered : ∀ st ∈ turnover, Layered st := by decide
  exact ⟨hunscripted, hlayered, handles_relinquished .context _ {} _ turnover hunscripted hlayered⟩

example : (deeds (opening { configs := [.make 1 8 8 8 8 24 8] } {} {}) turnover).flatMap
    (Deed.yields .context) = [0x1000, 0x1001, 0x1002] := by decide

end Egl.Proofs
