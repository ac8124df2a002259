import Egl.Proofs.Receipts

namespace Egl.Proofs

variable {k : OwnerKind} {s : Session} {st : Step}

/-- The session of a program that has done nothing yet, and that is linked to some library. -/
def opening (b : Backend) (script : Script) (library : Library) : Session :=
  { world := { backend := b, script := script, library := library } }

/-- The moments of a session, in order. -/
def history (s : Session) : List Step → List Moment
  | [] => []
  | st :: rest => moment s st :: history (s.step st).2 rest

theorem run_cons (s : Session) (st : Step) (rest : List Step) :
    s.run (st :: rest) =
      ((s.step st).1 :: ((s.step st).2.run rest).1, ((s.step st).2.run rest).2) := rfl

theorem history_records (s : Session) (steps : List Step) :
    (history s steps).map Moment.record = (s.run steps).1 := by
  induction steps generalizing s with
  | nil => rfl
  | cons st rest ih => rw [run_cons, history, List.map_cons, ih, moment]

/-- Every moment of a session is that of a step, after the run of the steps before it. -/
theorem history_split {steps : List Step} {earlier later : List Moment} {m : Moment}
    (h : history s steps = earlier ++ m :: later) :
    ∃ first st rest, steps = first ++ st :: rest ∧ history s first = earlier ∧
      m = moment (s.run first).2 st ∧ history m.after rest = later := by
  induction earlier generalizing s steps with
  | nil =>
    cases steps with
    | nil => cases h
    | cons st rest =>
      obtain ⟨rfl, hlater⟩ := List.cons.inj h
      exact ⟨[], st, rest, rfl, rfl, rfl, hlater⟩
  | cons o earlier ih =>
    cases steps with
    | nil => cases h
    | cons st rest =>
      obtain ⟨rfl, hrest⟩ := List.cons.inj h
      obtain ⟨first, next, last, rfl, rfl, rfl, hlater⟩ := ih hrest
      exact ⟨st :: first, next, last, rfl, rfl, rfl, hlater⟩

/-- What owners of one kind received in a session adds up with what became of it. -/
structure Conserved (k : OwnerKind) (s : Session) (steps : List Step) : Prop where
  /-- The moments are those that the run records. -/
  recorded : (history s steps).map Moment.record = (s.run steps).1
  /-- What is received is what the implementation handed out, as its answers tell. -/
  received : ∀ m ∈ history s steps, m.received k = m.supplied k
  /-- Everything received was given back, was forgotten, or is held by a slot. -/
  running : weight (Moment.received k) (history s steps) =
    givenBack k ((s.run steps).1.flatMap Record.events) +
      weight (Moment.forgotten k) (history s steps) +
      total (due k) ((shelf k).slots (s.run steps).2)
  /-- In the end it was given back, at the latest by the last release, or was forgotten. -/
  complete : weight (Moment.received k) (history s steps) =
    givenBack k ((s.complete steps).1.flatMap Record.events ++ (s.complete steps).2.journal) +
      weight (Moment.forgotten k) (history s steps)

/-- The events of one moment give back what its retired owners held. -/
theorem Accounted.gave (h : Accounted k (moment s st)) (hr : Recording s.world) :
    Recording (s.step st).2.world ∧
      givenBack k (s.step st).1.events = weight (due k) ((moment s st).retired k) := by
  obtain ⟨w, hg, hw⟩ := h.world
  have hgave := hg.gave hr
  have hreleased := hgave.trans (releases_gave ((moment s st).retired k) hgave.recording)
  rw [← hw, zero_add] at hreleased
  rw [step_events]
  exact ⟨hreleased.recording, hreleased.of_empty rfl⟩

/-- The slots of a session are in order, and its calls are recorded. -/
structure Sound (k : OwnerKind) (s : Session) : Prop where
  ordered : Ordered ((shelf k).slots s)
  recording : Recording s.world

theorem opening_sound (k : OwnerKind) (b : Backend) (script : Script) (library : Library) :
    Sound k (opening b script library) where
  ordered := by cases k <;> exact ordered_empty
  recording := by
    intro h
    cases h

theorem step_sound (h : Sound k s) (hk : KeepsRecording st) (hl : LeavesToOwners k st) :
    Sound k (s.step st).2 :=
  have ha := step_accounted s hk hl h.ordered
  ⟨ha.ordered, (ha.gave h.recording).1⟩

theorem step_balance (h : Sound k s) (hk : KeepsRecording st) (hl : LeavesToOwners k st) :
    total (due k) ((shelf k).slots s) + (moment s st).received k =
      givenBack k (s.step st).1.events + (moment s st).forgotten k +
        total (due k) ((shelf k).slots (s.step st).2) := by
  have ha := step_accounted s hk hl h.ordered
  have hbefore : (shelf k).slots (moment s st).before = (shelf k).slots s := shelf_world k s _
  rw [(ha.gave h.recording).2, ← hbefore]
  exact ha.balance

/-- The balance of a run is the sum of the balances of its steps. -/
theorem run_balance {steps : List Step} (h : Sound k s) (hk : ∀ st ∈ steps, KeepsRecording st)
    (hl : ∀ st ∈ steps, LeavesToOwners k st) :
    total (due k) ((shelf k).slots s) + weight (Moment.received k) (history s steps) =
      givenBack k ((s.run steps).1.flatMap Record.events) +
        weight (Moment.forgotten k) (history s steps) +
        total (due k) ((shelf k).slots (s.run steps).2) := by
  induction steps generalizing s with
  | nil => exact (add_zero _).trans (zero_add _).symm
  | cons st rest ih =>
    have hkst := hk st List.mem_cons_self
    have hlst := hl st List.mem_cons_self
    have hfirst := step_balance h hkst hlst
    have hrest := ih (step_sound h hkst hlst) (fun st hst => hk st (List.mem_cons_of_mem _ hst))
      fun st hst => hl st (List.mem_cons_of_mem _ hst)
    rw [run_cons, history, weight_cons, weight_cons, List.flatMap_cons, givenBack_append]
    rw [← add_assoc, hfirst, add_assoc, hrest, ← add_assoc, add_add_add_comm]

theorem run_sound {steps : List Step} (h : Sound k s) (hk : ∀ st ∈ steps, KeepsRecording st)
    (hl : ∀ st ∈ steps, LeavesToOwners k st) : Sound k (s.run steps).2 := by
  induction steps generalizing s with
  | nil => exact h
  | cons st rest ih =>
    have hfirst := step_sound h (hk st List.mem_cons_self) (hl st List.mem_cons_self)
    exact ih hfirst (fun st hst => hk st (List.mem_cons_of_mem _ hst))
      fun st hst => hl st (List.mem_cons_of_mem _ hst)

/-- What every step does from a sound session holds of every moment. -/
theorem Sound.moments {P : Moment → Prop} {steps : List Step} (h : Sound k s)
    (hk : ∀ st ∈ steps, KeepsRecording st) (hl : ∀ st ∈ steps, LeavesToOwners k st)
    (hp : ∀ {s st}, Sound k s → KeepsRecording st → LeavesToOwners k st → P (moment s st)) :
    ∀ m ∈ history s steps, P m := by
  induction steps generalizing s with
  | nil =>
    intro m hm
    cases hm
  | cons st rest ih =>
    have hkst := hk st List.mem_cons_self
    have hlst := hl st List.mem_cons_self
    intro m hm
    rcases List.mem_cons.mp hm with rfl | hm
    · exact hp h hkst hlst
    · exact ih (step_sound h hkst hlst) (fun st hst => hk st (List.mem_cons_of_mem _ hst))
        (fun st hst => hl st (List.mem_cons_of_mem _ hst)) m hm

/-- What is left of displays at the end is not touched before surfaces and contexts are gone. -/
theorem finish_resources (s : Session) : Grew (Spares .display) s.fresh.world
    (s.contexts.releaseAll (s.surfaces.releaseAll s.fresh.world)) := by
  have hne : OwnerKind.surface ≠ .display := nofun
  have hne' : OwnerKind.context ≠ .display := nofun
  exact (releases_spares hne s.surfaces.values _).trans (releases_spares hne' s.contexts.values _)

/-- The end of a session gives back what was still held, whichever kinds of owner come before. -/
theorem finish_gave (h : Recording s.world) :
    givenBack k s.finish.journal = total (due k) ((shelf k).slots s) := by
  let w := s.fresh.world
  let surfaces := s.surfaces.releaseAll w
  let contexts := s.contexts.releaseAll surfaces
  suffices hgave : Gave k (total (due k) ((shelf k).slots s)) w s.finish from hgave.of_empty rfl
  cases k with
  | display =>
    have hbefore : Gave .display 0 w contexts := (finish_resources s).gave h
    have hall := hbefore.trans (releases_gave (k := .display) s.displays.values hbefore.recording)
    rwa [zero_add] at hall
  | context =>
    have hne : OwnerKind.surface ≠ .context := nofun
    have hne' : OwnerKind.display ≠ .context := nofun
    have hbefore : Gave .context 0 w surfaces := (releases_spares hne s.surfaces.values w).gave h
    have hcont := hbefore.trans (releases_gave (k := .context) s.contexts.values hbefore.recording)
    have hlast := releases_spares hne' s.displays.values contexts
    have hall := hcont.trans (hlast.gave hcont.recording)
    rwa [zero_add, add_zero] at hall
  | surface =>
    have hne : OwnerKind.context ≠ .surface := nofun
    have hne' : OwnerKind.display ≠ .surface := nofun
    have hsurf : Gave .surface (total (due .surface) s.surfaces) w surfaces := releases_gave _ h
    have hcont := releases_spares hne s.contexts.values surfaces
    have hlast := releases_spares hne' s.displays.values contexts
    have hall := hsurf.trans ((hcont.trans hlast).gave hsurf.recording)
    rwa [add_zero] at hall

/-- A session conserves what owners of a kind hold, as long as it keeps the recording and leaves it
to the owners to give things back. -/
theorem conserved (b : Backend) (script : Script) (library : Library) {steps : List Step}
    (hk : ∀ st ∈ steps, KeepsRecording st) (hl : ∀ st ∈ steps, LeavesToOwners k st) :
    Conserved k (opening b script library) steps := by
  have hsound := opening_sound k b script library
  have hbalance := run_balance hsound hk hl
  have hempty : total (due k) ((shelf k).slots (opening b script library)) = 0 := by
    cases k <;> rfl
  rw [hempty, zero_add] at hbalance
  have hreceived : ∀ m ∈ history (opening b script library) steps, m.received k = m.supplied k :=
    hsound.moments hk hl fun h _ _ => step_received h.recording k _
  refine ⟨history_records _ steps, hreceived, hbalance, ?_⟩
  have hfinish := finish_gave (k := k) (run_sound hsound hk hl).recording
  change _ = givenBack k (_ ++ ((opening b script library).run steps).2.finish.journal) + _
  rw [givenBack_append, hfinish, hbalance, add_right_comm]
  rfl

/-- The owners of resources among all owners. -/
def ownerKind : ResourceKind → OwnerKind
  | .context => .context
  | .surface => .surface

/-- Contexts and surfaces are destroyed on the display that they were created on, as often as they
were created, but for those that owners were told to forget and those that they still hold. -/
theorem resources_conserved (kind : ResourceKind) (b : Backend) (script : Script)
    (library : Library) (steps : List Step) (hk : ∀ st ∈ steps, KeepsRecording st)
    (hl : ∀ st ∈ steps, LeavesToOwners (ownerKind kind) st) :
    Conserved (ownerKind kind) (opening b script library) steps := conserved b script library hk hl

/-- Two contexts are created; one makes room for the other, which is then forgotten. -/
def handover : List Step :=
  [.connect "display" 0, .createContext "display" (.direct ⟨208, 1⟩) "old" none,
    .createContext "display" (.direct ⟨208, 1⟩) "new" none, .owner .context (.move "new" "old"),
    .owner .context (.forget "old")]

theorem resources_conserved_handover :
    (∀ st ∈ handover, KeepsRecording st) ∧ (∀ st ∈ handover, LeavesToOwners .context st) ∧
      Conserved .context (opening { configs := [.make 1 8 8 8 8 24 8] } {} {}) handover :=
  ⟨by decide, by decide, resources_conserved .context _ _ _ handover (by decide) (by decide)⟩

example : weight (Moment.received .context)
    (history (opening { configs := [.make 1 8 8 8 8 24 8] } {} {}) handover) =
      {(208, 0x1000), (208, 0x1001)} := by decide

end Egl.Proofs
