import Egl.Proofs.Connections
import Egl.Proofs.Touches

namespace Egl.Proofs

open Backend (displayHandle)

variable {s : Session} {st : Step} {name : String}

/-- A moment in which somebody parts with the display of the implementation, and nothing keeps the
call that terminates it from success. -/
def Severs (m : Moment) : Prop :=
  (∃ d ∈ m.retired .display, d.handle = displayHandle) ∧ Mortal m.before.world

instance (m : Moment) : Decidable (Severs m) :=
  inferInstanceAs (Decidable ((∃ d ∈ m.retired .display, d.handle = displayHandle) ∧
    Mortal m.before.world))

/-- A step of the resource layer, or one that sets up what is behind the calls. It makes no typed
call, and it scripts no answer. -/
structure Natural (st : Step) : Prop where
  indirect : direct st = none
  unscripted : ∀ p ∈ scripted st, ∀ item ∈ p.2, item = none

instance (st : Step) : Decidable (Natural st) :=
  decidable_of_iff (direct st = none ∧ ∀ p ∈ scripted st, ∀ item ∈ p.2, item = none)
    ⟨fun ⟨hd, hu⟩ => ⟨hd, hu⟩, fun h => ⟨h.indirect, h.unscripted⟩⟩

/-- The slot whose display a step initializes. -/
def starts : Step → Option String
  | .start display => some display
  | .startVersion display => some display
  | _ => none

theorem Natural.silent (h : Natural st) (hs : Silent s.world.script) :
    Silent (s.step st).2.world.script := by
  cases ha : arranges st with
  | false =>
    have hwent := act_passes h.indirect ha s.fresh
    rw [← step_final] at hwent
    exact hwent.silent hs
  | true =>
    cases st with
    | install table => exact hs
    | configure change => exact fun e => configure_pending (hs e) fun p hp _ => h.unscripted p hp
    | _ => cases ha

/-- A connection survives a step if and only if the step does not sever it. -/
theorem step_connected (h : Natural st) (hs : Silent s.world.script)
    (hc : Connected s.world.backend) :
    Connected (s.step st).2.world.backend ↔ ¬ Severs (moment s st) := by
  cases ha : arranges st with
  | false =>
    obtain ⟨w, hwent, hafter⟩ := step_parted (k := .display) h.indirect ha s
    have hbetween : Connected w.backend := hwent.connected (fun _ _ _ he => he) hc
    change Connected (moment s st).after.world.backend ↔ _
    rw [hafter, releases_connected (hwent.silent hs) hbetween, hwent.mortal]
    rfl
  | true =>
    -- Tables and settings have nothing to do with the connection, and nobody retires.
    have hkept : Connected (s.step st).2.world.backend := by
      cases st with
      | install table => exact hc
      | configure change => exact ⟨hc.initialized, hc.lasting⟩
      | _ => cases ha
    have hnone : (moment s st).retired .display = [] := by
      cases st <;> cases ha <;> rfl
    refine ⟨fun _ hm => ?_, fun _ => hkept⟩
    obtain ⟨d, hd, -⟩ := hm.1
    rw [hnone] at hd
    cases hd

section Start

variable {α : Type} {reply : Reply} {d : Display} {w after : World}

theorem accepted_of_ok {value a : α} {code : ErrorCode}
    (h : (if reply.accepted then .ok value else .error code : Outcome α) = .ok a) :
    reply.accepted = true := by
  split at h
  case isTrue haccepted => exact haccepted
  case isFalse => cases h

/-- Whichever way a display is initialized, it is connected if that succeeds. -/
theorem initialize_connected {what : String} {q : Request (Outcome α)} {a : α}
    {wantsVersion : Bool} (hq : q.call = .initializeDisplay d.handle wantsVersion)
    (ha : ∀ reply a, q.read reply = .ok a → reply.accepted = true) (hw : Recording w)
    (hs : Silent w.script) (h : Op.require what q w = .ok a after) :
    d.handle = displayHandle ∧ Connected after.backend := by
  obtain ⟨hread, rfl⟩ := of_require_ok h
  have haccepted := ha _ _ hread
  rw [hq] at haccepted ⊢
  exact exchange_initialize hw hs haccepted

theorem start_connected {a : Unit} (hw : Recording w) (hs : Silent w.script)
    (h : d.start w = .ok a after) : d.handle = displayHandle ∧ Connected after.backend :=
  initialize_connected (q := .initializeOnly d.handle) rfl (fun _ _ ha => accepted_of_ok ha) hw hs h

theorem startVersion_connected {version : Int32 × Int32} (hw : Recording w)
    (hs : Silent w.script) (h : d.startVersion w = .ok version after) :
    d.handle = displayHandle ∧ Connected after.backend := by
  obtain ⟨a, mid, hrequire, hnote⟩ := of_bind_ok h
  have hc := initialize_connected (q := .initializeVersion d.handle) rfl
    (fun _ _ ha => accepted_of_ok ha) hw hs hrequire
  -- The line in the log that follows has nothing to do with the connection.
  cases hnote
  exact hc

end Start

/-- What an operation on the display in a slot did, if nothing failed. -/
theorem on_slot {α : Type} {op : Display → Op α} {next : α → Act Answer} {answer : Answer}
    {after : Session} (hn : ∀ a, Keeps (next a))
    (h : (do
      let d ← Act.resolve Session.displays name
      let a ← Act.run (op d)
      next a) s = EStateM.Result.ok answer after) :
    ∃ d a, s.displays.get? name = some d ∧ op d s.world = .ok a after.world := by
  rcases resolve_eq Session.displays name s with ⟨d, hd, hres⟩ | ⟨-, hres⟩
  · rw [bind_ok hres] at h
    obtain ⟨a, mid, hrun, hnext⟩ := of_bind_ok h
    obtain ⟨b, kept, hkept, -, hworld⟩ := hn a mid
    rw [hkept] at hnext
    cases hnext
    refine ⟨d, a, hd, ?_⟩
    unfold Act.run at hrun
    split at hrun
    case h_1 hop =>
      cases hrun
      rw [hop, hworld]
    case h_2 => cases hrun
  · rw [bind_error hres] at h
    cases h

theorem act_of_result {answer : Answer} (h : (moment s st).record.result = .ok answer) :
    st.act s.fresh = .ok answer (moment s st).after := by
  rw [moment_ending] at h ⊢
  rw [ending_after]
  cases hact : st.act s.fresh with
  | ok other after =>
    rw [hact] at h
    cases h
    rfl
  | error fault after =>
    rw [hact] at h
    cases h

/-- A display that was initialized is that of the implementation, and it is connected. -/
theorem starts_connected {answer : Answer} (hw : Recording s.world) (hs : Silent s.world.script)
    (hst : starts st = some name) (hr : (moment s st).record.result = .ok answer) :
    (moment s st).after.displays.get? name = some ⟨displayHandle⟩ ∧
      Connected (moment s st).after.world.backend := by
  have hact := act_of_result hr
  obtain ⟨d, hd, hhandle, hc⟩ : ∃ d, s.displays.get? name = some d ∧ d.handle = displayHandle ∧
      Connected (moment s st).after.world.backend := by
    cases st <;> cases hst
    case start.refl =>
      obtain ⟨d, a, hd, hop⟩ := on_slot (fun _ => .pure _) hact
      exact ⟨d, hd, start_connected (w := s.fresh.world) hw hs hop⟩
    case startVersion.refl =>
      obtain ⟨d, a, hd, hop⟩ := on_slot (fun _ => .pure _) hact
      exact ⟨d, hd, startVersion_connected (w := s.fresh.world) hw hs hop⟩
  have huntouched : name ∉ (moment s st).touched .display := by
    unfold Moment.touched
    rw [hr]
    cases st <;> cases hst <;> exact List.not_mem_nil
  refine ⟨(step_untouched huntouched).trans ?_, hc⟩
  cases d
  cases hhandle
  exact hd

/-- A slot holds the display of the implementation, which is connected, and nothing is scripted. -/
structure Holds (name : String) (s : Session) : Prop where
  silent : Silent s.world.script
  slot : s.displays.get? name = some ⟨displayHandle⟩
  connected : Connected s.world.backend

theorem Holds.step (h : Holds name s) (hn : Natural st)
    (ht : name ∉ (moment s st).touched .display) (hs : ¬ Severs (moment s st)) :
    Holds name (s.step st).2 where
  silent := hn.silent h.silent
  slot := (step_untouched ht).trans h.slot
  connected := (step_connected hn h.silent h.connected).mpr hs

section Run

variable {steps : List Step}

theorem run_silent (hn : ∀ st ∈ steps, Natural st) (hs : Silent s.world.script) :
    Silent (s.run steps).2.world.script := by
  induction steps generalizing s with
  | nil => exact hs
  | cons st rest ih =>
    obtain ⟨hst, hrest⟩ := List.forall_mem_cons.mp hn
    exact ih hrest (hst.silent hs)

theorem Holds.run (h : Holds name s) (hn : ∀ st ∈ steps, Natural st)
    (ht : ∀ o ∈ history s steps, name ∉ o.touched .display)
    (hs : ∀ o ∈ history s steps, ¬ Severs o) : Holds name (s.run steps).2 := by
  induction steps generalizing s with
  | nil => exact h
  | cons st rest ih =>
    obtain ⟨hst, hrest⟩ := List.forall_mem_cons.mp hn
    obtain ⟨htouched, htouched'⟩ := List.forall_mem_cons.mp ht
    obtain ⟨hsevers, hsevers'⟩ := List.forall_mem_cons.mp hs
    exact ih (h.step hst htouched hsevers) hrest htouched' hsevers'

end Run

/-- What becomes of a connection that was made through a slot, as long as nobody touches the slot:
it lasts until another slot parts with the same display, and it ends then. -/
structure Lasts (name : String) (start : Moment) (later : List Moment) : Prop where
  slot : start.after.displays.get? name = some ⟨displayHandle⟩
  connected : Connected start.after.world.backend
  kept : ∀ first m last, later = first ++ m :: last →
    (∀ o ∈ first ++ [m], name ∉ o.touched .display) → (∀ o ∈ first, ¬ Severs o) →
      m.after.displays.get? name = some ⟨displayHandle⟩ ∧
        (Connected m.after.world.backend ↔ ¬ Severs m)
  severed : ∀ m ∈ later, Severs m → name ∉ m.touched .display → ∃ other ≠ name,
    other ∈ m.touched .display ∧ m.before.displays.get? other = some ⟨displayHandle⟩

/-- A connection that was made while calls went to the implementation lasts until a slot parts with
its display while nothing keeps the call that terminates it from success. If that is not the slot
through which the connection was made, then that one still holds a display that is no longer
connected. -/
theorem connection_shared (b : Backend) (library : Library) (steps : List Step)
    (hn : ∀ st ∈ steps, Natural st) (earlier later : List Moment) (start : Moment) (name : String)
    (answer : Answer) (hh : history (opening b {} library) steps = earlier ++ start :: later)
    (hs : starts start.step = some name) (hw : Recording start.before.world)
    (hr : start.record.result = .ok answer) : Lasts name start later := by
  obtain ⟨before, st, rest, rfl, -, rfl, rfl⟩ := history_split hh
  obtain ⟨hbefore, hrest⟩ := List.forall_mem_append.mp hn
  obtain ⟨hst, hrest⟩ := List.forall_mem_cons.mp hrest
  have hsilent : Silent ((opening b {} library).run before).2.world.script :=
    run_silent hbefore nofun
  obtain ⟨hslot, hconnected⟩ := starts_connected hw hsilent hs hr
  have hholds := Holds.mk (hst.silent hsilent) hslot hconnected
  refine ⟨hslot, hconnected, fun first m last hl ht hse => ?_, fun m _ hm ht => ?_⟩
  · obtain ⟨between, now, after, rfl, rfl, rfl, -⟩ := history_split hl
    obtain ⟨hbetween, hafter⟩ := List.forall_mem_append.mp hrest
    obtain ⟨htouched, hnow⟩ := List.forall_mem_append.mp ht
    have hmid := hholds.run hbetween htouched hse
    exact ⟨(step_untouched (hnow _ List.mem_cons_self)).trans hmid.slot,
      step_connected (hafter now List.mem_cons_self) hmid.silent hmid.connected⟩
  · obtain ⟨⟨d, hd, hhandle⟩, -⟩ := hm
    obtain ⟨other, hother, hget⟩ := retired_touched hd
    refine ⟨other, ?_, hother, ?_⟩
    · rintro rfl
      exact ht hother
    · cases d
      cases hhandle
      exact hget

/-- Two slots share a connection. One of them makes it, and the other one parts with it. -/
def visit : List Step :=
  [.connect "host" 0, .start "host", .connect "guest" 0, .owner .display (.drop "guest")]

theorem connection_shared_visit : (∀ st ∈ visit, Natural st) ∧
    ∃ earlier start later, history (opening {} {} {}) visit = earlier ++ start :: later ∧
      starts start.step = some "host" ∧ Recording start.before.world ∧
        start.record.result = .ok .done ∧ Lasts "host" start later :=
  ⟨by decide, [moment (opening {} {} {}) (.connect "host" 0)], _, _, rfl, rfl, nofun, rfl,
    connection_shared {} {} visit (by decide) [moment (opening {} {} {}) (.connect "host" 0)]
      _ _ _ _ rfl rfl nofun rfl⟩

/-- The host's slot is never touched, and yet its connection is not its own. -/
theorem visit_severs : (∀ st ∈ visit, Natural st) ∧
    ∃ earlier start later, history (opening {} {} {}) visit = earlier ++ start :: later ∧
      starts start.step = some "host" ∧ start.record.result = .ok .done ∧
        (∀ o ∈ later, "host" ∉ o.touched .display) ∧
          ∃ o ∈ later, ¬ Connected o.after.world.backend := by
  refine ⟨by decide, [moment (opening {} {} {}) (.connect "host" 0)], _, _, rfl, rfl, rfl, ?_⟩
  decide

end Egl.Proofs
