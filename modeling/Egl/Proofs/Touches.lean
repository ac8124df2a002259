import Egl.Proofs.Passing

namespace Egl.Proofs

variable {k kind : OwnerKind} {s : Session} {st : Step} {m : Moment} {name : String}
  {result : EStateM.Result Fault Session Answer}

/-- The slots of one kind whose owners are others after a step that succeeds. -/
def changes (k : OwnerKind) (st : Step) : List String :=
  match manner st with
  | .manages kind (.forget name) => if kind = k then [name] else []
  | .manages kind (.drop name) => if kind = k then [name] else []
  | .manages kind (.move source target) =>
    if kind = k ∧ source ≠ target then [source, target] else []
  | .produces kind keep => if kind = k then [keep] else []
  | _ => []

namespace Moment

/-- The slots of one kind that are touched in a moment. Who fails touches none. -/
def touched (k : OwnerKind) (m : Moment) : List String :=
  match m.record.result with
  | .ok _ => changes k m.step
  | .error _ => []

end Moment

theorem ending_after (s : Session) (st : Step) (result : EStateM.Result Fault Session Answer) :
    (ending s st result).after = final result := by
  cases result <;> rfl

theorem managed_untouched {step : OwnerStep} (h : Managed k s step result)
    (hn : name ∉ (ending s (.owner k step) result).touched k) :
    ((shelf k).slots (final result)).get? name = ((shelf k).slots s).get? name := by
  cases h with
  | missing | asked => rfl
  | @forgotten source owner h =>
    have hne : name ≠ source := by simpa [ending, Moment.touched, changes, manner] using hn
    rw [final, shelf_put]
    exact Assoc.get?_set_of_ne _ hne _
  | @moved source owner target h =>
    rw [final, shelf_put]
    by_cases hst : source = target
    · rw [Slots.move, if_pos hst]
    · have hne : name ≠ source ∧ name ≠ target := by
        simpa [ending, Moment.touched, changes, manner, hst] using hn
      rw [Slots.move, if_neg hst, place_slots, Assoc.get?_set_of_ne _ hne.2]
      exact Assoc.get?_set_of_ne _ hne.1 _
  | @dropped source owner h =>
    have hne : name ≠ source := by simpa [ending, Moment.touched, changes, manner] using hn
    rw [final, shelf_put]
    exact Assoc.get?_erase_of_ne _ hne

theorem produced_untouched {keep : String} (hm : manner st = .produces k keep)
    (h : Produced k keep s st result) (hn : name ∉ (ending s st result).touched k) :
    ((shelf k).slots (final result)).get? name = ((shelf k).slots s).get? name := by
  cases h with
  | failed hrest => rw [final, hrest.slots k]
  | placed hg hc =>
    have hne : name ≠ keep := by simpa [ending, Moment.touched, changes, hm] using hn
    rw [final, shelf_put]
    exact Assoc.get?_set_of_ne _ hne _

theorem uses_slots (hm : manner st = .uses) (k : OwnerKind) (s : Session) :
    (shelf k).slots (final (st.act s)) = (shelf k).slots s := by
  cases hd : direct st with
  | some c =>
    cases st <;> cases hd
    case typed.refl t =>
      have hrests : Rests (fun _ => True) t.act := typed_rests t fun _ _ => trivial
      exact (hrests s).slots k
  | none =>
    cases ha : arranges st with
    | false => exact (used hm hd ha s).slots k
    | true => cases st <;> cases ha <;> cases k <;> rfl

/-- A slot that is not touched keeps its owner, whatever the step is. -/
theorem step_untouched (hn : name ∉ (moment s st).touched k) :
    ((shelf k).slots (moment s st).after).get? name = ((shelf k).slots s).get? name := by
  have hfresh : (shelf k).slots s.fresh = (shelf k).slots s := shelf_world k s _
  rw [moment_ending] at hn ⊢
  rw [ending_after, ← hfresh]
  cases hm : manner st with
  | manages kind step =>
    obtain rfl := owner_of_manner hm
    by_cases hk : kind = k
    · subst hk
      exact managed_untouched (managed kind step s.fresh) hn
    · rw [(managed_aside hk (managed kind step s.fresh)).1]
  | produces kind keep =>
    by_cases hk : kind = k
    · subst hk
      exact produced_untouched hm (produced hm s.fresh) hn
    · rw [(produced_aside hk (produced hm s.fresh)).1]
  | uses => rw [uses_slots hm]

/-- Whoever retires was in a slot that is touched. -/
theorem retired_touched {owner : Owned k} (h : owner ∈ m.retired k) :
    ∃ other ∈ m.touched k, ((shelf k).slots m.before).get? other = some owner := by
  unfold Moment.retired at h
  unfold Moment.touched changes
  split at h
  case h_1 kind name answer hm hr | h_3 kind name answer hm hr =>
    split at h
    case isTrue hk =>
      simp only [hm, hr, if_pos hk]
      exact ⟨name, List.mem_singleton_self name, Option.mem_toList.mp h⟩
    case isFalse => cases h
  case h_2 kind source target answer hm hr =>
    split at h
    case isTrue hk =>
      simp only [hm, hr, if_pos hk]
      exact ⟨target, List.mem_cons_of_mem _ List.mem_cons_self, Option.mem_toList.mp h⟩
    case isFalse => cases h
  case h_4 => cases h

/-- A moment does nothing that belongs to cleanups of a kind, and then releases whoever retires. -/
def Parted (k : OwnerKind) (m : Moment) : Prop :=
  ∃ w, Went (Spares k) m.before.world w ∧ m.after.world = releases (m.retired k) w

/-- Those who retire in a moment are all of one kind, the kind that the step is concerned with. -/
theorem Parted.of_concern {w : World} (hc : concern (manner m.step) = some kind)
    (hw : Went Ordinary m.before.world w) (ha : m.after.world = releases (m.retired kind) w) :
    Parted k m := by
  have hbefore : Went (Spares k) m.before.world w := hw.mono fun _ he => he.spares
  by_cases hk : kind = k
  · subst hk
    exact ⟨w, hbefore, ha⟩
  · have hnone : m.retired k = [] := by
      refine retired_unconcerned fun h => hk ?_
      exact Option.some.inj (hc.symm.trans h)
    refine ⟨m.after.world, ?_, by rw [hnone]; rfl⟩
    rw [ha]
    exact hbefore.trans ((releases_went _ w).mono fun _ he => he.spares hk)

theorem managed_releases {step : OwnerStep} (h : Managed k s step result) :
    (final result).world = releases ((ending s (.owner k step) result).retired k) s.world := by
  cases h with
  | missing =>
    rw [(nothing_of_fault rfl).2.2]
    rfl
  | asked => rfl
  | forgotten =>
    rw [final, shelf_put_world]
    rfl
  | @moved source owner target h =>
    rw [final, shelf_put_world, retired_move rfl rfl]
    by_cases hst : source = target
    · rw [Slots.move, if_pos hst, if_pos hst]
      rfl
    · rw [move_world hst, if_neg hst]
      rfl
  | @dropped name owner h =>
    rw [final, shelf_put_world, retired_drop rfl rfl]
    change _ = releases (occupant ((shelf k).slots s) name) s.world
    rw [occupant_some h]
    rfl

theorem produced_releases {keep : String} (hm : manner st = .produces k keep) (s : Session) :
    ∃ w, Went Ordinary s.world w ∧
      (final (st.act s)).world = releases ((ending s st (st.act s)).retired k) w := by
  rcases supplied hm s with ⟨fault, hact⟩ | ⟨op, hop, hact⟩
  · rw [hact]
    refine ⟨s.world, .refl, ?_⟩
    rw [(nothing_of_fault rfl).2.2]
    rfl
  · have hwent : Went Ordinary s.world (final (op s.world)) :=
      (hop.confined s.world).mono fun _ he => he.ordinary fun _ hc => hc.spares
    rw [hact]
    cases ho : op s.world with
    | ok new w =>
      rw [ho] at hwent
      rw [receive_ok keep ho]
      refine ⟨w, hwent, ?_⟩
      rw [final, shelf_put_world, retired_produce hm rfl]
      rfl
    | error f w =>
      rw [ho] at hwent
      rw [receive_error keep ho]
      refine ⟨w, hwent, ?_⟩
      rw [(nothing_of_fault rfl).2.2]
      rfl

theorem step_parted (hd : direct st = none) (ha : arranges st = false) (s : Session) :
    Parted k (moment s st) := by
  cases hm : manner st with
  | manages kind step =>
    obtain rfl := owner_of_manner hm
    refine .of_concern (w := s.fresh.world) (m := moment s (.owner kind step)) rfl .refl ?_
    rw [moment_ending, ending_after]
    exact managed_releases (managed kind step s.fresh)
  | produces kind keep =>
    obtain ⟨w, hwent, hw⟩ := produced_releases hm s.fresh
    refine .of_concern (m := moment s st) (congrArg concern hm) hwent ?_
    rw [moment_ending, ending_after]
    exact hw
  | uses =>
    have hconcern : concern (manner st) ≠ some k := by
      rw [hm]
      nofun
    have hnone := retired_unconcerned (m := moment s st) hconcern
    have hwent := (used hm hd ha s.fresh).went
    rw [← step_final] at hwent
    refine ⟨_, hwent.mono fun _ he => (he.ordinary fun _ hc => hc.spares).spares, ?_⟩
    rw [hnone]
    rfl

end Egl.Proofs
