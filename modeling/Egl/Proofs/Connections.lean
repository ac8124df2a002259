import Egl.Proofs.Cleanups
import Egl.Proofs.Passing

namespace Egl.Proofs

open Backend (displayHandle)

variable {w after : World} {d : Display} {sort : Event → Prop}

/-- The implementation is initialized, and it is not terminated. -/
structure Connected (b : Backend) : Prop where
  initialized : b.isInitialized = true
  lasting : b.isTerminated = false

instance (b : Backend) : Decidable (Connected b) :=
  decidable_of_iff (b.isInitialized = true ∧ b.isTerminated = false)
    ⟨fun ⟨hi, hl⟩ => ⟨hi, hl⟩, fun h => ⟨h.initialized, h.lasting⟩⟩

/-- No answer is scripted. -/
def Silent (script : Script) : Prop := ∀ e, ∀ item ∈ script.pending e, item = none

/-- A call to terminate would get to the implementation, and it would succeed. -/
structure Mortal (w : World) : Prop where
  recording : Recording w
  working : EntryPoint.terminate ∉ w.backend.failures

instance (w : World) : Decidable (Mortal w) :=
  decidable_of_iff (Recording w ∧ EntryPoint.terminate ∉ w.backend.failures)
    ⟨fun ⟨hr, hw⟩ => ⟨hr, hw⟩, fun h => ⟨h.recording, h.working⟩⟩

theorem Went.silent (h : Went sort w after) (hs : Silent w.script) : Silent after.script :=
  h.keeps (P := fun mid => Silent mid.script)
    (fun _ _ _ hmid e item hi => hmid e item (exchange_pending hi)) (fun _ _ hmid => hmid) hs

/-- What counting and responding keep, a call keeps, whoever answers it. -/
theorem exchange_keeps {P : Backend → Prop} {c : Call} (hreach : ∀ b e, P b → P (reach b e))
    (hrespond : ∀ b, P b → P (b.respond c).2) (h : P w.backend) :
    P (w.exchange c).2.backend := by
  have hanswer : P (w.backend.answer c).2 := by
    unfold Backend.answer
    split
    · dsimp only
      split
      · exact hreach w.backend c.entry h
      · exact hrespond _ (hreach w.backend c.entry h)
    · exact hrespond w.backend h
  unfold World.exchange
  split
  · exact h
  · rcases answer_backend w c with hb | hb
    · exact Eq.mpr (congrArg P hb) h
    · exact Eq.mpr (congrArg P hb) hanswer

theorem exchange_failures (w : World) (c : Call) :
    (w.exchange c).2.backend.failures = w.backend.failures :=
  exchange_keeps (P := fun b => b.failures = w.backend.failures) (fun _ _ h => h)
    (fun b h => (respond_settings b c).failures.trans h) rfl

/-- Calls change neither the table nor the switches. -/
theorem Went.mortal (h : Went sort w after) : Mortal after ↔ Mortal w := by
  have hkept : after.table = w.table ∧ after.backend.failures = w.backend.failures :=
    h.keeps (P := fun mid => mid.table = w.table ∧ mid.backend.failures = w.backend.failures)
      (fun mid c _ hmid =>
        ⟨(exchange_table mid c).trans hmid.1, (exchange_failures mid c).trans hmid.2⟩)
      (fun _ _ hmid => hmid) ⟨rfl, rfl⟩
  constructor
  · rintro ⟨hr, hw⟩
    exact ⟨hr.of_table hkept.1.symm, hkept.2 ▸ hw⟩
  · rintro ⟨hr, hw⟩
    exact ⟨hr.of_table hkept.1, hkept.2.symm ▸ hw⟩

/-- Only a call to terminate can end a connection. -/
theorem respond_connected {b : Backend} {c : Call} (hc : c.entry ≠ .terminate)
    (h : Connected b) : Connected (b.respond c).2 := by
  cases c
  case terminate => exact absurd rfl hc
  all_goals
    simp only [Backend.respond]
    repeat' split
    all_goals first | exact ⟨h.initialized, h.lasting⟩ | exact ⟨rfl, rfl⟩

/-- Only a call to initialize can make a connection. -/
theorem respond_unconnected {b : Backend} {c : Call} (hc : c.entry ≠ .initializeDisplay)
    (h : ¬ Connected b) : ¬ Connected (b.respond c).2 := by
  cases c
  case initializeDisplay => exact absurd rfl hc
  all_goals
    simp only [Backend.respond]
    repeat' split
    all_goals first
      | exact fun hc => h ⟨hc.initialized, hc.lasting⟩
      | exact fun hc => Bool.noConfusion hc.initialized

theorem exchange_connected {c : Call} (hc : c.entry ≠ .terminate) (h : Connected w.backend) :
    Connected (w.exchange c).2.backend :=
  exchange_keeps (fun _ _ h => ⟨h.initialized, h.lasting⟩) (fun _ => respond_connected hc) h

theorem exchange_unconnected {c : Call} (hc : c.entry ≠ .initializeDisplay)
    (h : ¬ Connected w.backend) : ¬ Connected (w.exchange c).2.backend :=
  exchange_keeps (P := fun b => ¬ Connected b) (fun _ _ h hc => h ⟨hc.initialized, hc.lasting⟩)
    (fun _ => respond_unconnected hc) h

/-- The connection outlasts whatever terminates nothing. -/
theorem Went.connected (h : Went sort w after)
    (hs : ∀ t c reply, sort (.call t c reply) → c.entry ≠ .terminate)
    (hw : Connected w.backend) : Connected after.backend :=
  h.keeps (P := fun mid => Connected mid.backend)
    (fun _ _ hc hmid => exchange_connected (hs _ _ _ hc) hmid) (fun _ _ hmid => hmid) hw

theorem Went.unconnected (h : Went sort w after)
    (hs : ∀ t c reply, sort (.call t c reply) → c.entry ≠ .initializeDisplay)
    (hw : ¬ Connected w.backend) : ¬ Connected after.backend :=
  h.keeps (P := fun mid => ¬ Connected mid.backend)
    (fun _ _ hc hmid => exchange_unconnected (hs _ _ _ hc) hmid) (fun _ _ hmid => hmid) hw

/-- A call to initialize that the implementation accepts is about its display, and makes the
connection. -/
theorem exchange_initialize (hr : Recording w) (hs : Silent w.script) {display : Handle}
    {wantsVersion : Bool}
    (h : (w.exchange (.initializeDisplay display wantsVersion)).1.accepted = true) :
    display = displayHandle ∧
      Connected (w.exchange (.initializeDisplay display wantsVersion)).2.backend := by
  obtain ⟨hreply, hbackend, -⟩ :=
    exchange_unscripted hr (c := .initializeDisplay display wantsVersion)
      (next_unscripted (hs .initializeDisplay)).1
  rw [hreply] at h
  have ha := answer_accepted rfl h
  rw [ha] at h
  rw [hbackend, ha]
  by_cases hd : display = displayHandle
  · rw [Backend.respond, if_pos hd]
    exact ⟨hd, rfl, rfl⟩
  · rw [Backend.respond, if_neg hd] at h
    cases h

/-- A call to terminate ends the connection if it is about the display of the implementation and
succeeds. -/
theorem exchange_terminate (hs : Silent w.script) (h : Connected w.backend) (display : Handle) :
    Connected (w.exchange (.terminate display)).2.backend ↔
      ¬ (display = displayHandle ∧ Mortal w) := by
  by_cases hr : Recording w
  · obtain ⟨-, hbackend, -⟩ := exchange_unscripted hr (c := .terminate display)
      (next_unscripted (hs .terminate)).1
    rw [hbackend]
    by_cases hf : EntryPoint.terminate ∈ w.backend.failures
    · rw [answer_switched (c := .terminate display) rfl hf]
      exact ⟨fun _ hm => hm.2.working hf, fun _ => ⟨h.initialized, h.lasting⟩⟩
    · rw [answer_working (c := .terminate display) rfl hf]
      by_cases hd : display = displayHandle
      · rw [Backend.respond, if_pos hd]
        exact ⟨fun hc => Bool.noConfusion hc.initialized, fun hm => absurd ⟨hd, hr, hf⟩ hm⟩
      · rw [Backend.respond, if_neg hd]
        exact ⟨fun _ hm => hd hm.1, fun _ => ⟨h.initialized, h.lasting⟩⟩
  · have hn : w.table = .native := Classical.not_not.mp hr
    rw [exchange_native hn]
    exact ⟨fun _ hm => hr hm.2.recording, fun _ => h⟩

/-- The way to the call that terminates a display. -/
theorem unbound_went (display : Handle) (w : World) :
    Went (fun e => ∀ t c reply, e = .call t c reply → c.entry = .makeCurrent) w
      (unbound display w) := by
  refine ((note_went w nofun).trans (cleanup_went _ (fun _ _ => ?_) fun _ _ => nofun)).trans
    (note_went _ nofun)
  rintro _ _ _ ⟨⟩
  rfl

/-- A display that is released ends the connection if it holds the handle of the implementation's
display, and nothing keeps the call that terminates it from success. -/
theorem release_connected (hs : Silent w.script) (h : Connected w.backend) (d : Display) :
    Connected (d.release w).backend ↔ ¬ (d.handle = displayHandle ∧ Mortal w) := by
  by_cases hd : d.handle = 0
  · have hw : d.release w = w := if_pos hd
    rw [hw, hd]
    exact ⟨fun _ hm => absurd hm.1 (by decide), fun _ => h⟩
  · have hwent := unbound_went d.handle w
    have hbetween : Connected (unbound d.handle w).backend := by
      refine hwent.connected (fun t c reply hc he => ?_) h
      cases (hc t c reply rfl).symm.trans he
    have hb : (d.release w).backend =
        ((unbound d.handle w).exchange (.terminate d.handle)).2.backend := by
      rw [release_unbound hd]
      exact cleanup_backend (.terminate d.handle) (unbound d.handle w)
    rw [hb, exchange_terminate (hwent.silent hs) hbetween, hwent.mortal]

theorem release_unconnected (h : ¬ Connected w.backend) (d : Display) :
    ¬ Connected (d.release w).backend := by
  refine (release_went (k := .display) d w).unconnected (fun t c reply hc he => ?_) h
  obtain ⟨token, -, hpart⟩ := hc
  rcases partings_entry hpart with hcurrent | hterminate
  · cases hcurrent.symm.trans he
  · cases hterminate.symm.trans he

theorem releases_unconnected (h : ¬ Connected w.backend) (displays : List Display) :
    ¬ Connected (releases displays w).backend := by
  induction displays generalizing w with
  | nil => exact h
  | cons d rest ih => exact ih (release_unconnected h d)

/-- Of several displays that are released, one is enough to end the connection. -/
theorem releases_connected (hs : Silent w.script) (h : Connected w.backend)
    (displays : List Display) :
    Connected (releases displays w).backend ↔
      ¬ ((∃ d ∈ displays, d.handle = displayHandle) ∧ Mortal w) := by
  induction displays generalizing w with
  | nil => simpa [releases] using h
  | cons d rest ih =>
    have hwent := release_went (k := .display) d w
    change Connected (releases rest (d.release w)).backend ↔ _
    by_cases hd : d.handle = displayHandle ∧ Mortal w
    · have hended := mt (release_connected hs h d).mp (not_not.mpr hd)
      have hlater := releases_unconnected hended rest
      exact ⟨fun hc => absurd hc hlater,
        fun hm => absurd ⟨⟨d, List.mem_cons_self, hd.1⟩, hd.2⟩ hm⟩
    · refine (ih (hwent.silent hs) ((release_connected hs h d).mpr hd)).trans ?_
      rw [hwent.mortal]
      refine not_congr (and_congr_left fun hm => ?_)
      have hne : d.handle ≠ displayHandle := fun he => hd ⟨he, hm⟩
      simp [hne]

end Egl.Proofs
