import Egl.Proofs.Accounts
import Egl.Proofs.Unhindered

namespace Egl.Proofs

variable {w mid after : World} {d : Display}

/-- Nothing is current. -/
structure Uncurrent (b : Backend) : Prop where
  draw : b.currentDraw = 0
  read : b.currentRead = 0
  context : b.currentContext = 0

/-- Nothing is current, and the implementation is terminated and not initialized. -/
structure Cleared (b : Backend) : Prop extends Uncurrent b where
  terminated : b.isTerminated = true
  uninitialized : b.isInitialized = false

/-- The calls of a cleanup get to the implementation: no answer in the script is in their way. -/
structure Reaches (w : World) : Prop where
  makeCurrent : (w.script.next .makeCurrent).1 = none
  terminate : (w.script.next .terminate).1 = none

/-- One whole cleanup. Its second call is made whatever the first one came to; and if both get to
the implementation and succeed, then it is cleared. -/
def Cleanup (d : Display) (w after : World) : Prop :=
  ∃ first second, after.journal = w.journal ++ farewell w.table d.handle first second ∧
    (Reaches w → first.accepted = true → second.accepted = true → Cleared after.backend)

/-- Displays that go one after another. A display that holds nothing goes without a trace. -/
inductive Cleanups : List Display → World → World → Prop
  | nil {w : World} : Cleanups [] w w
  | silent {d : Display} {rest : List Display} {w after : World} (hd : d.handle = 0)
      (h : Cleanups rest w after) : Cleanups (d :: rest) w after
  | cleanup {d : Display} {rest : List Display} {w mid after : World} (hd : d.handle ≠ 0)
      (hc : Cleanup d w mid) (h : Cleanups rest mid after) : Cleanups (d :: rest) w after

/-- Every display that is terminated was made to have nothing current by the call right before. -/
def Preceded (calls : List Call) : Prop :=
  ∀ earlier display later, calls = earlier ++ .terminate display :: later →
    ∃ start, earlier = start ++ [.makeCurrent display 0 0 0]

theorem cleanup_backend (c : Call) (w : World) :
    (Display.cleanup (.status c) w).backend = (w.exchange c).2.backend := by
  unfold Display.cleanup World.perform
  simp only [Request.status]
  cases (w.exchange c).1.accepted <;> rfl

theorem cleanup_script (c : Call) (w : World) :
    (Display.cleanup (.status c) w).script = (w.exchange c).2.script := by
  unfold Display.cleanup World.perform
  simp only [Request.status]
  cases (w.exchange c).1.accepted <;> rfl

theorem next_head (script : Script) (e : EntryPoint) :
    (script.next e).1 = (script.pending e).head?.join := by
  unfold Script.next
  cases script.pending e <;> rfl

/-- An entry point keeps its part of the script while another uses up an item. -/
theorem next_other {e other : EntryPoint} (h : other ≠ e) (script : Script) :
    ((script.next e).2.next other).1 = (script.next other).1 := by
  have hp : (script.next e).2.pending other = script.pending other := by
    unfold Script.next
    cases script.pending e with
    | nil => rfl
    | cons item rest => exact if_neg h
  rw [next_head, next_head, hp]

/-- A call that a backend accepts was not switched to fail, and was answered as usual. -/
theorem answer_accepted {b : Backend} {c : Call} (hc : c.entry.canFail = true)
    (h : (b.answer c).1.accepted = true) : b.answer c = (reach b c.entry).respond c := by
  unfold Backend.answer at h ⊢
  rw [if_pos hc] at h ⊢
  by_cases hf : c.entry ∈ b.failures
  · rw [if_pos hf] at h
    cases h
  · rw [if_neg hf]
    rfl

theorem makeCurrent_accepted {b : Backend} {display : Handle}
    (h : (b.answer (.makeCurrent display 0 0 0)).1.accepted = true) :
    Uncurrent (b.answer (.makeCurrent display 0 0 0)).2 := by
  have ha := answer_accepted rfl h
  rw [ha] at h ⊢
  by_cases hd : display = Backend.displayHandle
  · rw [Backend.respond, if_pos hd]
    exact ⟨rfl, rfl, rfl⟩
  · rw [Backend.respond, if_neg hd] at h
    cases h

theorem terminate_accepted {b : Backend} {display : Handle} (hb : Uncurrent b)
    (h : (b.answer (.terminate display)).1.accepted = true) :
    Cleared (b.answer (.terminate display)).2 := by
  have ha := answer_accepted rfl h
  rw [ha] at h ⊢
  by_cases hd : display = Backend.displayHandle
  · rw [Backend.respond, if_pos hd]
    exact ⟨⟨hb.draw, hb.read, hb.context⟩, rfl, rfl⟩
  · rw [Backend.respond, if_neg hd] at h
    cases h

/-- If both calls of a cleanup succeed, then each has left its mark on the implementation. -/
theorem release_cleared {d : Display} (h : Recording w) (hd : d.handle ≠ 0) (hreach : Reaches w)
    (hfirst : ((w.note .unbinding).exchange (.makeCurrent d.handle 0 0 0)).1.accepted = true)
    (hsecond : ((unbound d.handle w).exchange (.terminate d.handle)).1.accepted = true) :
    Cleared (d.release w).backend := by
  have hnoted : Recording (w.note .unbinding) := h
  have hbetween := unbound_recording h d.handle
  obtain ⟨hreply, hbackend, hscript⟩ :=
    exchange_unscripted hnoted (c := .makeCurrent d.handle 0 0 0) hreach.makeCurrent
  have huncurrent : Uncurrent (unbound d.handle w).backend := by
    have hb := (cleanup_backend (.makeCurrent d.handle 0 0 0) (w.note .unbinding)).trans hbackend
    rw [hreply] at hfirst
    have hu := makeCurrent_accepted hfirst
    rw [← hb] at hu
    exact hu
  have hnone : ((unbound d.handle w).script.next .terminate).1 = none := by
    have hs := (cleanup_script (.makeCurrent d.handle 0 0 0) (w.note .unbinding)).trans hscript
    have hother := next_other (show EntryPoint.terminate ≠ .makeCurrent by decide) w.script
    rw [hreach.terminate] at hother
    exact (congrArg (fun script => (Script.next script .terminate).1) hs).trans hother
  obtain ⟨hreply', hbackend', -⟩ :=
    exchange_unscripted hbetween (c := .terminate d.handle) hnone
  rw [hreply'] at hsecond
  have hcleared := terminate_accepted huncurrent hsecond
  rw [← hbackend', ← cleanup_backend] at hcleared
  rw [release_unbound hd]
  exact hcleared

theorem release_cleanup (h : Recording w) (hd : d.handle ≠ 0) : Cleanup d w (d.release w) :=
  ⟨_, _, release_farewell h hd, release_cleared h hd⟩

theorem releases_cleanups (displays : List Display) (h : Recording w) :
    Cleanups displays w (releases displays w) := by
  induction displays generalizing w with
  | nil => exact .nil
  | cons d rest ih =>
    by_cases hd : d.handle = 0
    · have hw : Owner.release d w = w := if_pos hd
      refine .silent hd ?_
      change Cleanups rest w (releases rest (Owner.release d w))
      rw [hw]
      exact ih h
    · exact .cleanup hd (release_cleanup h hd) (ih (h.of_table (display_table d w)))

theorem preceded_cleanup {calls : List Call} (h : Preceded calls) (display : Handle) :
    Preceded (calls ++ [.makeCurrent display 0 0 0, .terminate display]) := by
  intro earlier other later heq
  rcases List.append_eq_append_iff.mp heq with ⟨between, rfl, hlast⟩ | ⟨between, rfl, hlast⟩
  · -- The terminated display is that of the cleanup.
    cases between with
    | nil => cases hlast
    | cons first rest =>
      obtain ⟨rfl, hrest⟩ := List.cons.inj hlast
      cases rest with
      | nil =>
        cases hrest
        exact ⟨calls, rfl⟩
      | cons second rest =>
        obtain ⟨-, hnil⟩ := List.cons.inj hrest
        simp at hnil
  · cases between with
    | nil => cases hlast
    | cons first rest =>
      obtain ⟨rfl, -⟩ := List.cons.inj hlast
      exact h earlier other rest rfl

theorem Cleanup.calls (h : Cleanup d w after) :
    after.calls = w.calls ++ [.makeCurrent d.handle 0 0 0, .terminate d.handle] := by
  obtain ⟨first, second, hj, -⟩ := h
  unfold World.calls
  rw [hj, List.filterMap_append]
  congr 1
  unfold farewell attempt
  cases first.accepted <;> cases second.accepted <;> rfl

theorem Cleanups.preceded {displays : List Display} (h : Cleanups displays w after)
    (hw : Preceded w.calls) : Preceded after.calls := by
  induction h with
  | nil => exact hw
  | silent _ _ ih => exact ih hw
  | @cleanup d rest w mid after _ hc _ ih =>
    refine ih ?_
    rw [hc.calls]
    exact preceded_cleanup hw d.handle

/-- Events that spare displays hold no call that would have to be preceded. -/
theorem Grew.preceded (h : Grew (Spares .display) w after) (hw : w.journal = []) :
    Preceded after.calls := by
  intro earlier display later heq
  have hmem : Call.terminate display ∈ after.calls := by
    rw [heq]
    exact List.mem_append_right _ List.mem_cons_self
  obtain ⟨e, he, hcall⟩ := List.mem_filterMap.mp hmem
  have hspare := h.of_empty hw e he
  cases e with
  | call t c reply =>
    cases hcall
    exact absurd rfl hspare
  | notice n => cases hcall

/-- What a moment does with displays. -/
structure Tidy (m : Moment) : Prop where
  /-- After events that have nothing to do with it, whoever retires goes by whole cleanups. -/
  cleanups : ∃ w, Grew (Spares .display) m.before.world w ∧
    Cleanups (m.retired .display) w m.after.world
  /-- A step that manages displays does nothing else to the world. -/
  managed : ∀ step, m.step = .owner .display step →
    Cleanups (m.retired .display) m.before.world m.after.world
  /-- The journal of the moment has nothing older in it, and is what is recorded. -/
  events : m.before.world.journal = [] ∧ m.record.events = m.after.world.journal
  preceded : Preceded m.after.world.calls
  /-- Forgetting a display and passing it to itself make no call and log nothing. -/
  kept : ∀ name,
    m.step = .owner .display (.forget name) ∨ m.step = .owner .display (.move name name) →
    m.record.events = []
  /-- A slot whose display was forgotten or passed on holds nothing any more. -/
  emptied : ∀ source answer, m.record.result = .ok answer →
    (m.step = .owner .display (.forget source) ∨
      ∃ target ≠ source, m.step = .owner .display (.move source target)) →
    m.after.displays.get? source = some ⟨0⟩
  /-- A step that ends with a fault has not cleaned up anything. -/
  faultless : ∀ fault, m.record.result = .error fault →
    ∀ e ∈ m.record.events, Spares .display e

theorem Cleanups.eq_of_nil (h : Cleanups [] w after) : after = w := by
  cases h
  rfl

section Managed

variable {k : OwnerKind} {s : Session} {st : Step} {m : Moment} {source target name : String}

/-- After an owner was forgotten or passed on, an empty one is left in its slot. -/
theorem managed_emptied {step : OwnerStep} {result : EStateM.Result Fault Session Answer}
    {answer : Answer} {after : Session} (h : Managed k s step result)
    (hr : result = .ok answer after)
    (hs : step = .forget source ∨ ∃ target ≠ source, step = .move source target) :
    ∃ owner, ((shelf k).slots after).get? source = some (Owner.emptied owner) := by
  rcases hs with rfl | ⟨target, hne, rfl⟩
  · cases h with
    | missing => cases hr
    | @forgotten _ owner _ =>
      cases hr
      rw [shelf_put]
      exact ⟨owner, Assoc.get?_set_self _ _ _⟩
  · cases h with
    | missing => cases hr
    | @moved _ owner _ _ =>
      cases hr
      rw [shelf_put, Slots.move, if_neg hne.symm, place_slots, Assoc.get?_set_of_ne _ hne.symm]
      exact ⟨owner, Assoc.get?_set_self _ _ _⟩

theorem step_emptied {answer : Answer} (hr : (moment s st).record.result = .ok answer)
    (hs : st = .owner k (.forget source) ∨
      ∃ target ≠ source, st = .owner k (.move source target)) :
    ∃ owner, ((shelf k).slots (moment s st).after).get? source = some (Owner.emptied owner) := by
  obtain ⟨step, rfl, hstep⟩ : ∃ step, st = .owner k step ∧
      (step = .forget source ∨ ∃ target ≠ source, step = .move source target) := by
    rcases hs with rfl | ⟨target, hne, rfl⟩
    · exact ⟨_, rfl, .inl rfl⟩
    · exact ⟨_, rfl, .inr ⟨target, hne, rfl⟩⟩
  have hm := managed k step s.fresh
  rw [moment_ending] at hr ⊢
  cases hact : (Step.owner k step).act s.fresh with
  | ok a after =>
    rw [hact] at hm
    exact managed_emptied hm rfl hstep
  | error fault after =>
    rw [hact] at hr
    cases hr

theorem retired_kept (h : m.step = .owner k (.forget name) ∨ m.step = .owner k (.move name name)) :
    m.retired k = [] := by
  rcases h with hs | hs
  · simp only [Moment.retired, hs, manner]
  · cases hr : m.record.result with
    | ok answer => rw [retired_move hs hr, if_pos rfl]
    | error fault => exact (nothing_of_fault hr).2.2

theorem step_tidy (h : Sound .display s) (hk : KeepsRecording st)
    (hl : LeavesToOwners .display st) : Tidy (moment s st) := by
  have ha := step_accounted s hk hl h.ordered
  obtain ⟨w, hg, hw⟩ := ha.world
  have hempty : (moment s st).before.world.journal = [] := rfl
  have hevents : (moment s st).record.events = (moment s st).after.world.journal :=
    step_events s st
  have hrecording : Recording (moment s st).before.world := h.recording
  have hcleanups := releases_cleanups ((moment s st).retired .display) (hg.recording hrecording)
  rw [← hw] at hcleanups
  have hmanaged : ∀ step, (moment s st).step = .owner .display step →
      Cleanups ((moment s st).retired .display) (moment s st).before.world
        (moment s st).after.world := by
    intro step hs
    rw [ha.quiet step hs]
    exact releases_cleanups _ hrecording
  refine ⟨⟨w, hg, hcleanups⟩, hmanaged, ⟨hempty, hevents⟩, hcleanups.preceded (hg.preceded hempty),
    fun name hs => ?_, fun source answer hr hs => ?_, fun fault hr => ?_⟩
  · obtain ⟨step, hstep⟩ : ∃ step, (moment s st).step = .owner .display step := by
      rcases hs with hs | hs
      · exact ⟨_, hs⟩
      · exact ⟨_, hs⟩
    have hc := hmanaged step hstep
    rw [retired_kept hs] at hc
    rw [hevents, hc.eq_of_nil, hempty]
  · obtain ⟨owner, hemptied⟩ := step_emptied (k := .display) hr hs
    exact hemptied
  · rw [(nothing_of_fault hr).2.2] at hcleanups
    rw [hevents, hcleanups.eq_of_nil]
    exact hg.of_empty hempty

/-- At the end, surfaces and contexts go before the displays that are still there. -/
theorem finish_cleanups (h : Recording s.world) :
    ∃ w, Grew (Spares .display) s.fresh.world w ∧ Cleanups s.displays.values w s.finish :=
  have hg := finish_resources s
  ⟨_, hg, releases_cleanups s.displays.values (hg.recording h)⟩

end Managed

/-- How a session lets go of displays, from its first step to its end. -/
structure LetGo (s : Session) (steps : List Step) : Prop where
  conserved : Conserved .display s steps
  tidy : ∀ m ∈ history s steps, Tidy m
  /-- The displays that are left go at the end, in the order of their names. -/
  last : ∃ w, Grew (Spares .display) (s.run steps).2.fresh.world w ∧
    Cleanups (s.run steps).2.displays.values w (s.complete steps).2
  preceded : Preceded (s.complete steps).2.calls

/-- Displays are terminated as often as they were obtained, but for those that owners were told to
forget and those that they still hold; and always by whole cleanups, which never fail a step. -/
theorem displays_let_go (b : Backend) (script : Script) (library : Library) (steps : List Step)
    (hk : ∀ st ∈ steps, KeepsRecording st) (hl : ∀ st ∈ steps, LeavesToOwners .display st) :
    LetGo (opening b script library) steps := by
  have hsound := opening_sound .display b script library
  have hrecording := (run_sound hsound hk hl).recording
  obtain ⟨w, hg, hc⟩ := finish_cleanups hrecording
  exact ⟨conserved b script library hk hl, hsound.moments hk hl step_tidy, ⟨w, hg, hc⟩,
    hc.preceded (hg.preceded rfl)⟩

/-- One display makes room for another. That one makes room for a third, while nothing can be made
not current any more. -/
def reconnection : List Step :=
  [.connect "first" 0, .connect "second" 7, .owner .display (.move "first" "second"),
    .configure { failures := some [.makeCurrent] }, .connect "second" 0,
    .owner .display (.forget "second"), .owner .display (.drop "first")]

theorem displays_let_go_reconnection :
    (∀ st ∈ reconnection, KeepsRecording st) ∧
      (∀ st ∈ reconnection, LeavesToOwners .display st) ∧
      LetGo (opening {} {} {}) reconnection :=
  ⟨by decide, by decide, displays_let_go {} {} {} reconnection (by decide) (by decide)⟩

example : (history (opening {} {} {}) reconnection).map (fun m => m.after.world.calls) =
    [[.getDisplay 0], [.getDisplay 7], [.makeCurrent 208 0 0 0, .terminate 208], [],
      [.getDisplay 0, .makeCurrent 208 0 0 0, .terminate 208], [], []] := by decide

end Egl.Proofs
