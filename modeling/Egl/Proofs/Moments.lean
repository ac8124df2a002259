import Egl.Proofs.Courses

namespace Egl.Proofs

variable {k kind : OwnerKind} {s : Session} {st : Step}

/-- A step that was taken: the session it started from, with nothing in the journal, what came of
it, and the session it led to. -/
structure Moment where
  before : Session
  step : Step
  record : Record
  after : Session

/-- The moment of a step. -/
def moment (s : Session) (st : Step) : Moment := ⟨s.fresh, st, (s.step st).1, (s.step st).2⟩

namespace Moment

/-- What was created in a moment, as the answer of the step tells. -/
def received (k : OwnerKind) (m : Moment) : Multiset (Token k) :=
  match m.record.result with
  | .ok (.handle handle) => weight (due k) (created k m.before m.step handle).toList
  | _ => 0

/-- What an owner was told to forget in a moment, as the answer of the step tells. -/
def forgotten (k : OwnerKind) (m : Moment) : Multiset (Token k) :=
  match m.step, m.record.result with
  | .owner kind (.forget name), .ok (.handle handle) =>
    if kind = k ∧ handle ≠ 0 then
      ((occupant ((shelf k).slots m.before) name).map fun owner => ticket k owner handle : List _)
    else 0
  | _, _ => 0

/-- The owners that had to go in a moment: they were dropped, or had to make room for others. -/
def retired (k : OwnerKind) (m : Moment) : List (Owned k) :=
  match manner m.step, m.record.result with
  | .manages kind (.drop name), .ok _ =>
    if kind = k then occupant ((shelf k).slots m.before) name else []
  | .manages kind (.move source target), .ok _ =>
    if kind = k ∧ source ≠ target then occupant ((shelf k).slots m.before) target else []
  | .produces kind keep, .ok _ =>
    if kind = k then occupant ((shelf k).slots m.before) keep else []
  | _, _ => []

end Moment

/-- The account of a moment. The slots lose what is retired and forgotten and gain what is received;
and the retired owners are released at the end, after events that give nothing back. -/
structure Accounted (k : OwnerKind) (m : Moment) : Prop where
  ordered : Ordered ((shelf k).slots m.after)
  balance : total (due k) ((shelf k).slots m.before) + m.received k =
    weight (due k) (m.retired k) + m.forgotten k + total (due k) ((shelf k).slots m.after)
  world : ∃ w, Grew (Spares k) m.before.world w ∧ m.after.world = releases (m.retired k) w
  quiet : ∀ step, m.step = .owner k step → m.after.world = releases (m.retired k) m.before.world

/-- The moment of a step that starts with an empty journal and has a given result. -/
def ending (s : Session) (st : Step) : EStateM.Result Fault Session Answer → Moment
  | .ok answer after => ⟨s, st, ⟨.ok answer, after.world.journal⟩, after⟩
  | .error fault after => ⟨s, st, ⟨.error fault, after.world.journal⟩, after⟩

theorem moment_ending (s : Session) (st : Step) :
    moment s st = ending s.fresh st (st.act s.fresh) := by
  unfold moment Session.step
  cases st.act s.fresh <;> rfl

theorem step_final (s : Session) (st : Step) : (s.step st).2 = final (st.act s.fresh) := by
  unfold Session.step
  cases st.act s.fresh <;> rfl

theorem step_events (s : Session) (st : Step) :
    (s.step st).1.events = (s.step st).2.world.journal := by
  unfold Session.step
  cases st.act s.fresh <;> rfl

variable {m : Moment} {result : EStateM.Result Fault Session Answer}

/-- The kind of owner that a step manages or produces. -/
def concern : Manner → Option OwnerKind
  | .manages k _ => some k
  | .produces k _ => some k
  | .uses => none

theorem received_unconcerned (h : concern (manner m.step) ≠ some k) : m.received k = 0 := by
  unfold Moment.received
  split
  case h_1 handle _ =>
    cases hc : created k m.before m.step handle with
    | none => rfl
    | some owner =>
      obtain ⟨keep, hm⟩ := created_manner hc
      rw [hm] at h
      exact absurd rfl h
  case h_2 => rfl

theorem forgotten_unconcerned (h : concern (manner m.step) ≠ some k) : m.forgotten k = 0 := by
  unfold Moment.forgotten
  split
  case h_1 kind name handle hstep _ =>
    rw [hstep] at h
    refine if_neg fun hk => h ?_
    rw [hk.1]
    rfl
  case h_2 => rfl

theorem retired_unconcerned (h : concern (manner m.step) ≠ some k) : m.retired k = [] := by
  have hk : ∀ kind, concern (manner m.step) = some kind → kind ≠ k := by
    rintro kind hc rfl
    exact h hc
  unfold Moment.retired
  split
  case h_1 kind name _ hm _ => exact if_neg (hk kind (by rw [hm]; rfl))
  case h_2 kind source target _ hm _ => exact if_neg fun hb => hk kind (by rw [hm]; rfl) hb.1
  case h_3 kind keep _ hm _ => exact if_neg (hk kind (by rw [hm]; rfl))
  case h_4 => rfl

/-- A moment in which nothing happens to the owners of a kind. -/
theorem Accounted.of_nothing (hr : m.received k = 0) (hf : m.forgotten k = 0)
    (ht : m.retired k = []) (ho : Ordered ((shelf k).slots m.before))
    (hs : (shelf k).slots m.after = (shelf k).slots m.before)
    (hg : Grew (Spares k) m.before.world m.after.world)
    (hq : ∀ step, m.step = .owner k step → m.after.world = m.before.world) : Accounted k m where
  ordered := by rwa [hs]
  balance := by
    rw [hr, hf, ht, hs]
    change _ + 0 = 0 + 0 + _
    rw [add_zero, zero_add, zero_add]
  world := ⟨m.after.world, hg, by rw [ht]; rfl⟩
  quiet step hstep := by
    rw [ht]
    exact hq step hstep

theorem Accounted.unconcerned (hm : concern (manner m.step) ≠ some k)
    (ho : Ordered ((shelf k).slots m.before))
    (hs : (shelf k).slots m.after = (shelf k).slots m.before)
    (hg : Grew (Spares k) m.before.world m.after.world) : Accounted k m := by
  refine .of_nothing (received_unconcerned hm) (forgotten_unconcerned hm) (retired_unconcerned hm)
    ho hs hg fun step hstep => ?_
  rw [hstep] at hm
  exact absurd rfl hm

/-- Nothing is received, forgotten or released in a moment that ends with a fault. -/
theorem nothing_of_fault {fault : Fault} (h : m.record.result = .error fault) :
    m.received k = 0 ∧ m.forgotten k = 0 ∧ m.retired k = [] := by
  refine ⟨?_, ?_, ?_⟩
  · unfold Moment.received
    rw [h]
  · unfold Moment.forgotten
    rw [h]
    split <;> first | rfl | contradiction
  · unfold Moment.retired
    rw [h]
    split <;> first | rfl | contradiction

theorem occupant_some {slots : Slots (Owned k)} {name : String} {owner : Owned k}
    (h : slots.get? name = some owner) : occupant slots name = [owner] := by
  rw [occupant, h, Option.toList_some]

section Managed

variable {name source target : String} {step : OwnerStep} {owner : Owned k} {answer : Answer}

/-- A step that manages owners creates none. -/
theorem received_managed (hs : m.step = .owner kind step) : m.received k = 0 := by
  have hnone : ∀ handle, created k m.before (.owner kind step) handle = none :=
    fun _ => by cases k <;> rfl
  unfold Moment.received
  rw [hs]
  split
  · rw [hnone]
    rfl
  · rfl

theorem forgotten_due (hs : m.step = .owner k (.forget name))
    (hr : m.record.result = .ok (.handle (Owner.handle owner)))
    (h : ((shelf k).slots m.before).get? name = some owner) : m.forgotten k = due k owner := by
  simp only [Moment.forgotten, hs, hr, true_and, due]
  by_cases hz : Owner.handle owner = 0
  · rw [if_pos hz, if_neg (not_not.mpr hz)]
  · rw [if_neg hz, if_pos hz, occupant_some h]
    rfl

theorem retired_drop (hs : m.step = .owner k (.drop name)) (hr : m.record.result = .ok answer) :
    m.retired k = occupant ((shelf k).slots m.before) name := by
  simp only [Moment.retired, hs, hr, manner, if_true]

theorem retired_move (hs : m.step = .owner k (.move source target))
    (hr : m.record.result = .ok answer) :
    m.retired k = if source = target then [] else occupant ((shelf k).slots m.before) target := by
  simp only [Moment.retired, hs, hr, manner, true_and, ne_eq, ite_not]

theorem retired_produce {keep : String} (hs : manner m.step = .produces k keep)
    (hr : m.record.result = .ok answer) :
    m.retired k = occupant ((shelf k).slots m.before) keep := by
  simp only [Moment.retired, hs, hr, if_true]

/-- A step that manages owners is accounted for once its slots are, since it does nothing to the
world but to release whoever retires. -/
theorem Accounted.of_managed {slots : Slots (Owned k)} {w : World} (hs : m.step = .owner k step)
    (ha : m.after = (shelf k).put m.before slots w) (ho : Ordered slots)
    (hb : weight (due k) (m.retired k) + m.forgotten k + total (due k) slots =
      total (due k) ((shelf k).slots m.before))
    (hw : w = releases (m.retired k) m.before.world) : Accounted k m where
  ordered := by rwa [ha, shelf_put]
  balance := by rw [received_managed hs, add_zero, ha, shelf_put, hb]
  world := ⟨m.before.world, .refl _ _, by rw [ha, shelf_put_world, hw]⟩
  quiet _ _ := by rw [ha, shelf_put_world, hw]

theorem forget_account (hs : m.step = .owner k (.forget name))
    (hr : m.record.result = .ok (.handle (Owner.handle owner)))
    (h : ((shelf k).slots m.before).get? name = some owner)
    (ha : m.after = (shelf k).put m.before (((shelf k).slots m.before).forget name owner)
      m.before.world)
    (ho : Ordered ((shelf k).slots m.before)) : Accounted k m := by
  have ht : m.retired k = [] := by
    simp only [Moment.retired, hs, manner]
  refine .of_managed hs ha (ho.forget name owner) ?_ (by rw [ht]; rfl)
  rw [ht, forgotten_due hs hr h]
  change 0 + _ + _ = _
  rw [zero_add, add_comm]
  exact forget_total (due k) ho h (due_emptied owner)

theorem move_account (hs : m.step = .owner k (.move source target))
    (hr : m.record.result = .ok answer) (h : ((shelf k).slots m.before).get? source = some owner)
    (ha : m.after = (shelf k).put m.before
      (((shelf k).slots m.before).move source owner target m.before.world).1
      (((shelf k).slots m.before).move source owner target m.before.world).2)
    (ho : Ordered ((shelf k).slots m.before)) : Accounted k m := by
  have hf : m.forgotten k = 0 := by
    simp only [Moment.forgotten, hs]
  by_cases hst : source = target
  · have ht : m.retired k = [] := by rw [retired_move hs hr, if_pos hst]
    rw [Slots.move, if_pos hst] at ha
    refine .of_managed hs ha ho ?_ (by rw [ht]; rfl)
    rw [ht, hf, add_zero]
    exact zero_add _
  · have ht := retired_move hs hr
    rw [if_neg hst] at ht
    refine .of_managed hs ha (ho.move source owner target m.before.world) ?_ ?_
    · rw [ht, hf, add_zero, add_comm]
      exact move_total (due k) ho h (due_emptied owner) hst m.before.world
    · rw [ht, move_world hst]

theorem drop_account (hs : m.step = .owner k (.drop name)) (hr : m.record.result = .ok answer)
    (h : ((shelf k).slots m.before).get? name = some owner)
    (ha : m.after = (shelf k).put m.before (((shelf k).slots m.before).erase name)
      (Owner.release owner m.before.world))
    (ho : Ordered ((shelf k).slots m.before)) : Accounted k m := by
  have hf : m.forgotten k = 0 := by
    simp only [Moment.forgotten, hs]
  have ht := retired_drop hs hr
  refine .of_managed hs ha (ho.erase name) ?_ ?_
  · rw [ht, hf, add_zero, add_comm]
    exact erase_total (due k) ((shelf k).slots m.before) name
  · rw [ht, occupant_some h]
    rfl

theorem managed_account (h : Managed k s step result) (ho : Ordered ((shelf k).slots s)) :
    Accounted k (ending s (.owner k step) result) := by
  cases h with
  | missing =>
    obtain ⟨hr, hf, ht⟩ :=
      nothing_of_fault (k := k) (m := ending s (.owner k step) (.error .noSuchSlot s)) rfl
    exact .of_nothing hr hf ht ho rfl (.refl _ _) fun _ _ => rfl
  | asked _ => exact .of_nothing (received_managed rfl) rfl rfl ho rfl (.refl _ _) fun _ _ => rfl
  | forgotten h => exact forget_account rfl rfl h rfl ho
  | moved target h => exact move_account rfl rfl h rfl ho
  | dropped h => exact drop_account rfl rfl h rfl ho

theorem received_produced {new : Owned k} (hr : m.record.result = .ok (.handle (Owner.handle new)))
    (hc : created k m.before m.step (Owner.handle new) = some new) : m.received k = due k new := by
  simp only [Moment.received, hr, hc, Option.toList_some, weight_single]

theorem produce_account {keep : String} {new : Owned k} {w : World}
    (hs : manner m.step = .produces k keep)
    (hr : m.record.result = .ok (.handle (Owner.handle new)))
    (hc : created k m.before m.step (Owner.handle new) = some new)
    (hg : Grew Ordinary m.before.world w)
    (ha : m.after = (shelf k).put m.before (((shelf k).slots m.before).set keep new)
      (releases (occupant ((shelf k).slots m.before) keep) w))
    (ho : Ordered ((shelf k).slots m.before)) : Accounted k m := by
  have hreceived := received_produced hr hc
  have hf : m.forgotten k = 0 := by
    unfold Moment.forgotten
    split
    case h_1 hstep _ =>
      rw [hstep] at hs
      cases hs
    case h_2 => rfl
  have ht := retired_produce hs hr
  refine ⟨?_, ?_, ⟨w, hg.mono fun _ he => he.spares, ?_⟩, fun step hstep => ?_⟩
  · rw [ha, shelf_put]
    exact ho.set keep new
  · have hset := set_total (due k) ho keep new
    rw [hreceived, hf, ht, ha, shelf_put, add_zero, add_comm, ← hset, add_comm]
  · rw [ht, ha, shelf_put_world]
  · rw [hstep] at hs
    cases hs

theorem produced_account {keep : String} (hm : manner st = .produces k keep)
    (h : Produced k keep s st result) (ho : Ordered ((shelf k).slots s)) :
    Accounted k (ending s st result) := by
  cases h with
  | @failed fault after hrest =>
    obtain ⟨hr, hf, ht⟩ :=
      nothing_of_fault (k := k) (m := ending s st (.error fault after)) rfl
    refine .of_nothing hr hf ht ho (hrest.slots k) (hrest.grew.mono fun _ he => he.spares) ?_
    rintro step rfl
    cases hm
  | placed hg hc => exact produce_account hm rfl hc hg rfl ho

end Managed

theorem put_aside (hne : kind ≠ k) (slots : Slots (Owned kind)) {w : World}
    (hg : Grew (Spares k) s.world w) :
    (shelf k).slots ((shelf kind).put s slots w) = (shelf k).slots s ∧
      Grew (Spares k) s.world ((shelf kind).put s slots w).world := by
  rw [shelf_put_other hne, shelf_put_world]
  exact ⟨rfl, hg⟩

/-- A step that manages owners of another kind does not touch those of this kind. -/
theorem managed_aside {step : OwnerStep} (hne : kind ≠ k) (h : Managed kind s step result) :
    (shelf k).slots (final result) = (shelf k).slots s ∧
      Grew (Spares k) s.world (final result).world := by
  cases h with
  | missing => exact ⟨rfl, .refl _ _⟩
  | asked _ => exact ⟨rfl, .refl _ _⟩
  | forgotten _ => exact put_aside hne _ (.refl _ _)
  | @moved source owner target _ =>
    refine put_aside hne _ ?_
    by_cases hst : source = target
    · rw [Slots.move, if_pos hst]
      exact .refl _ _
    · rw [move_world hst]
      exact releases_spares hne _ _
  | dropped _ => exact put_aside hne _ (release_spares hne _ _)

theorem produced_aside {keep : String} (hne : kind ≠ k) (h : Produced kind keep s st result) :
    (shelf k).slots (final result) = (shelf k).slots s ∧
      Grew (Spares k) s.world (final result).world := by
  cases h with
  | failed hrest => exact ⟨hrest.slots k, hrest.grew.mono fun _ he => he.spares⟩
  | placed hg _ =>
    exact put_aside hne _ ((hg.mono fun _ he => he.spares).trans (releases_spares hne _ _))

theorem aside_account (hc : concern (manner st) ≠ some k) (ho : Ordered ((shelf k).slots s))
    (h : (shelf k).slots (final result) = (shelf k).slots s ∧
      Grew (Spares k) s.world (final result).world) : Accounted k (ending s st result) := by
  obtain ⟨hs, hg⟩ := h
  cases result with
  | ok answer after => exact .unconcerned hc ho hs hg
  | error fault after => exact .unconcerned hc ho hs hg

/-- Every step of a session is accounted for, for owners of each kind, as long as it keeps the
recording and leaves it to the owners to give back what they hold. -/
theorem step_accounted (s : Session) (hk : KeepsRecording st) (hl : LeavesToOwners k st)
    (ho : Ordered ((shelf k).slots s)) : Accounted k (moment s st) := by
  rw [moment_ending]
  have ho' : Ordered ((shelf k).slots s.fresh) := by
    rwa [Session.fresh, shelf_world]
  cases hm : manner st with
  | manages kind step =>
    obtain rfl := owner_of_manner hm
    by_cases hne : kind = k
    · subst hne
      exact managed_account (managed kind step s.fresh) ho'
    · refine aside_account ?_ ho' (managed_aside hne (managed kind step s.fresh))
      intro hc
      exact hne (Option.some.inj hc)
  | produces kind keep =>
    by_cases hne : kind = k
    · subst hne
      exact produced_account hm (produced hm s.fresh) ho'
    · refine aside_account ?_ ho' (produced_aside hne (produced hm s.fresh))
      rw [hm]
      intro hc
      exact hne (Option.some.inj hc)
  | uses =>
    have hrest := uses_spares hm hk hl s.fresh
    refine aside_account ?_ ho' ⟨hrest.slots k, hrest.grew⟩
    rw [hm]
    intro hc
    cases hc

end Egl.Proofs
