import Egl.Proofs.Accounts
import Egl.Proofs.Passing

namespace Egl.Proofs

variable {start : Option Table} {sort : Event → Prop} {w mid after : World} {s : Session}
  {st : Step}

/-- A move of a program with sections. Only moves that begin or end a section install a table. -/
inductive Move
  /-- Begins a section with an installation. No table at all may be what is installed. -/
  | enter (table : Option Table)
  /-- Ends the innermost section. -/
  | leave
  | work (st : Step) (idle : installs st = none)

/-- A section that has not ended: what was installed, and the table that this returned. -/
structure Frame where
  table : Option Table
  former : Table

/-- A session, and the sections that it is in, the innermost first. -/
structure Visit where
  session : Session
  frames : List Frame

namespace Visit

/-- Makes a move, unless it ends a section and there is none. -/
def move? (v : Visit) : Move → Option Visit
  | .enter t =>
    match v.session.step (.install t) with
    | (⟨.ok (.table former), _⟩, after) => some ⟨after, ⟨t, former⟩ :: v.frames⟩
    | _ => none
  | .leave =>
    match v.frames with
    | [] => none
    | frame :: rest => some ⟨(v.session.step (.install (some frame.former))).2, rest⟩
  | .work st _ => some ⟨(v.session.step st).2, v.frames⟩

def run? (v : Visit) (moves : List Move) : Option Visit := moves.foldlM move? v

end Visit

/-- Moves of which each one that begins a section has one that ends it. -/
inductive Nested : List Move → Prop
  | nil : Nested []
  | work {st : Step} {idle : installs st = none} {rest : List Move} (h : Nested rest) :
    Nested (.work st idle :: rest)
  | within {t : Option Table} {inner rest : List Move} (hi : Nested inner) (hr : Nested rest) :
    Nested (.enter t :: (inner ++ .leave :: rest))

/-- The table of the innermost section. Outside of all sections it is the one of the start. -/
def innermost (start : Table) : List Frame → Table
  | [] => start
  | frame :: _ => frame.table.getD .native

/-- A recorded call went through a table. Behind the native one, no call is recorded. -/
def Through (t : Table) : Event → Prop
  | .call through _ _ => through = t ∧ t ≠ .native
  | .notice _ => True

/-- In a session, it is one table that all calls go through. -/
structure Denotes (s : Session) (t : Table) : Prop where
  asked : (s.step .installedTable).1.result = .ok (.table t)
  /-- An installation returns this table, whatever it installs. -/
  returned : ∀ new, (s.step (.install new)).1.result = .ok (.table t)
  /-- A typed call goes through this table once, and through no other. -/
  typed : t ≠ .native → ∀ call, (s.step (.typed call)).1.events =
      [.call t (typedCall call) (s.fresh.world.exchange (typedCall call)).1] ∧
    (s.step (.typed call)).2.world.library = s.world.library
  /-- Through the native table, it gets to the library, and to nothing that belongs to another. -/
  native : t = .native → ∀ call, (s.step (.typed call)).1.events = [] ∧
    (s.step (.typed call)).2 = { s.fresh with world := { s.fresh.world with
      library := { s.world.library with calls := s.world.library.calls ++ [typedCall call] } } }
  through : ∀ st, ∀ e ∈ (s.step st).1.events, Through t e

section Steps

theorem typed_step (s : Session) (call : TypedCall) :
    (s.step (.typed call)).2 =
      { s.fresh with world := (s.fresh.world.exchange (typedCall call)).2 } := by
  cases call <;> rfl

/-- What is installed stays, and new calls went through it. -/
structure Stays (w after : World) : Prop where
  installed : after.installed = w.installed
  journal : ∃ events, after.journal = w.journal ++ events ∧ ∀ e ∈ events, Through w.table e

theorem Stays.refl (w : World) : Stays w w := ⟨rfl, [], by simp, by simp⟩

theorem Stays.record (h : Stays w mid) {e : Event} (hi : after.installed = mid.installed)
    (hj : after.journal = mid.journal ++ [e]) (he : Through w.table e) : Stays w after := by
  obtain ⟨events, hevents, hall⟩ := h.journal
  refine ⟨hi.trans h.installed, events ++ [e], ?_, ?_⟩
  · rw [hj, hevents, List.append_assoc]
  · intro other hother
    rcases List.mem_append.mp hother with hother | hother
    · exact hall other hother
    · rwa [List.mem_singleton.mp hother]

theorem Stays.table (h : Stays w after) : after.table = w.table := by
  rw [World.table, h.installed, World.table]

theorem Stays.exchange (h : Stays w mid) (c : Call) : Stays w (mid.exchange c).2 := by
  by_cases hr : Recording mid
  · refine h.record (exchange_installed mid c) (exchange_journal hr c) ⟨h.table, ?_⟩
    rw [← h.table]
    exact hr
  · have hn : mid.table = .native := Classical.not_not.mp hr
    rw [exchange_native hn]
    exact ⟨h.installed, h.journal⟩

theorem Went.stays (h : Went sort w after) : Stays w after :=
  h.keeps (fun _ c _ hm => hm.exchange c)
    (fun mid n hm => hm.record rfl (note_journal mid n) trivial) (.refl w)

/-- A step that installs nothing leaves in place what is installed. -/
theorem step_stays (hi : installs st = none) (s : Session) :
    Stays s.fresh.world (s.step st).2.world := by
  cases hd : direct st with
  | some c =>
    cases st <;> cases hd
    case typed.refl call =>
      rw [typed_step]
      exact (Stays.refl _).exchange _
  | none =>
    cases ha : arranges st with
    | false =>
      rw [step_final]
      exact (act_passes hd ha s.fresh).stays
    | true =>
      cases st with
      | install t => cases hi
      | configure change => exact ⟨rfl, [], rfl, by simp⟩
      | _ => cases ha

theorem step_through (s : Session) (st : Step) :
    ∀ e ∈ (s.step st).1.events, Through s.world.table e := by
  cases hi : installs st with
  | some t =>
    cases st <;> cases hi
    exact nofun
  | none =>
    obtain ⟨events, hj, hall⟩ := (step_stays hi s).journal
    rw [step_events, hj]
    exact hall

/-- At any point of a session, all calls go through the table that is in place. -/
theorem denotes_table (s : Session) : Denotes s s.world.table where
  asked := rfl
  returned _ := rfl
  typed h call := by
    have hr : Recording s.fresh.world := h
    rw [step_events, typed_step, exchange_journal hr]
    exact ⟨rfl, exchange_library hr _⟩
  native h call := by
    have hn : s.fresh.world.table = .native := h
    rw [step_events, typed_step, exchange_native hn]
    exact ⟨rfl, rfl⟩
  through := step_through s

end Steps

section Nesting

variable {v point last : Visit} {m : Move} {moves front rest : List Move}

/-- Each section returned the table that calls went through when it began. -/
inductive Stacked (start : Table) : List Frame → Prop
  | nil : Stacked start []
  | cons {frame : Frame} {frames : List Frame} (h : Stacked start frames)
      (hf : frame.former = innermost start frames) : Stacked start (frame :: frames)

/-- Calls go through the table of the innermost section, and all sections know what was before. -/
structure Upright (start : Option Table) (v : Visit) : Prop where
  table : v.session.world.table = innermost (start.getD .native) v.frames
  stacked : Stacked (start.getD .native) v.frames
  /-- What is installed outside of all sections says the same as at the start, if in another way. -/
  stored : v.frames = [] → v.session.world.installed = start ∨
    v.session.world.installed = some (start.getD .native)

theorem Upright.opening (s : Session) : Upright s.world.installed ⟨s, []⟩ :=
  ⟨rfl, .nil, fun _ => .inl rfl⟩

theorem move?_enter (v : Visit) (t : Option Table) :
    v.move? (.enter t) = some ⟨(v.session.step (.install t)).2,
      ⟨t, v.session.world.table⟩ :: v.frames⟩ := rfl

theorem move_upright (h : Upright start v) (hm : v.move? m = some last) : Upright start last := by
  cases m with
  | enter t =>
    rw [move?_enter] at hm
    obtain rfl := Option.some.inj hm
    exact ⟨rfl, h.stacked.cons h.table, nofun⟩
  | leave =>
    obtain ⟨s, frames⟩ := v
    cases h.stacked with
    | nil => cases hm
    | cons hstacked hf =>
      obtain rfl := Option.some.inj hm
      refine ⟨hf, hstacked, fun hnil => .inr ?_⟩
      subst hnil
      exact congrArg some hf
  | work st idle =>
    obtain rfl := Option.some.inj hm
    have hstays := step_stays idle v.session
    refine ⟨hstays.table.trans h.table, h.stacked, fun hnil => ?_⟩
    rw [hstays.installed]
    exact h.stored hnil

theorem run?_cons (v : Visit) (m : Move) (rest : List Move) :
    v.run? (m :: rest) = (v.move? m).bind fun point => point.run? rest := by
  simp only [Visit.run?, List.foldlM_cons]
  rfl

theorem run?_append (v : Visit) (front rest : List Move) :
    v.run? (front ++ rest) = (v.run? front).bind fun point => point.run? rest := by
  simp only [Visit.run?, List.foldlM_append]
  rfl

theorem run_upright (h : Upright start v) (hr : v.run? moves = some last) :
    Upright start last := by
  induction moves generalizing v with
  | nil =>
    obtain rfl := Option.some.inj hr
    exact h
  | cons m rest ih =>
    rw [run?_cons] at hr
    obtain ⟨point, hm, hrest⟩ := Option.bind_eq_some_iff.mp hr
    exact ih (move_upright h hm) hrest

/-- Nested moves can all be made, and end in the sections in which they began. -/
theorem Nested.run (h : Nested moves) (v : Visit) :
    ∃ after, v.run? moves = some ⟨after, v.frames⟩ := by
  induction h generalizing v with
  | nil => exact ⟨v.session, rfl⟩
  | @work st idle rest _ ih =>
    rw [run?_cons]
    exact ih ⟨(v.session.step st).2, v.frames⟩
  | @within t inner rest _ _ ihi ihr =>
    obtain ⟨mid, hmid⟩ := ihi ⟨(v.session.step (.install t)).2,
      ⟨t, v.session.world.table⟩ :: v.frames⟩
    obtain ⟨after, hafter⟩ := ihr ⟨(mid.step (.install (some v.session.world.table))).2, v.frames⟩
    refine ⟨after, ?_⟩
    rw [run?_cons, move?_enter, Option.bind_some, run?_append, hmid, Option.bind_some, run?_cons]
    exact hafter

end Nesting

/-- Sections can be nested in any way. At every point all calls go through the table of the
innermost one, which is also what an installation returns; and in the end they go where they went at
the start, although the native table may now be installed where none was. -/
theorem installations_nest (s : Session) {moves : List Move} (h : Nested moves) :
    (∃ after, Visit.run? ⟨s, []⟩ moves = some ⟨after, []⟩ ∧ Denotes after s.world.table ∧
      (after.world.installed = s.world.installed ∨
        after.world.installed = some s.world.table)) ∧
    ∀ front rest, moves = front ++ rest → ∃ point, Visit.run? ⟨s, []⟩ front = some point ∧
      Denotes point.session (innermost s.world.table point.frames) := by
  obtain ⟨after, hafter⟩ := h.run ⟨s, []⟩
  constructor
  · have hend := run_upright (.opening s) hafter
    have htable : after.world.table = s.world.table := hend.table
    refine ⟨after, hafter, ?_, hend.stored rfl⟩
    rw [← htable]
    exact denotes_table after
  · rintro front rest rfl
    rw [run?_append] at hafter
    obtain ⟨point, hfront, -⟩ := Option.bind_eq_some_iff.mp hafter
    have hpoint := run_upright (.opening s) hfront
    refine ⟨point, hfront, ?_⟩
    have htable : point.session.world.table = innermost s.world.table point.frames := hpoint.table
    rw [← htable]
    exact denotes_table point.session

/-- A section without any table, inside one with a table, in a program that had none installed. -/
def detour : List Move :=
  [.enter (some (.recorded 1)), .work .releaseThread rfl, .enter none, .leave, .leave]

/-- Where none was installed at the start, the native table is in the end. -/
theorem installations_nest_detour :
    Nested detour ∧ ∃ after,
      Visit.run? ⟨{ world := { installed := none } }, []⟩ detour = some ⟨after, []⟩ ∧
        Denotes after .native ∧ after.world.installed = some .native := by
  have h : Nested detour := .within (.work (.within .nil .nil)) .nil
  obtain ⟨⟨after, hafter, hdenotes, -⟩, -⟩ :=
    installations_nest { world := { installed := none } } h
  refine ⟨h, after, hafter, hdenotes, ?_⟩
  cases hafter
  rfl

end Egl.Proofs
