import Egl.Proofs.Custody

namespace Egl.Proofs

variable {k : OwnerKind} {w : World}

/-- The calls among some events. -/
def callsOf (events : List Event) : List Call :=
  events.filterMap fun
    | .call _ c _ => some c
    | .notice _ => none

theorem callsOf_append (first last : List Event) :
    callsOf (first ++ last) = callsOf first ++ callsOf last := List.filterMap_append

theorem callsOf_farewell (t : Table) (display : Handle) (first second : Reply) :
    callsOf (farewell t display first second) = partings .display display := by
  unfold farewell attempt callsOf
  cases first.accepted <;> cases second.accepted <;> rfl

theorem release_partings (owner : Owned k) (h : Recording w) :
    ∃ events, (Owner.release owner w).journal = w.journal ++ events ∧
      callsOf events = (holding k owner).flatMap (partings k) := by
  unfold holding
  by_cases hz : Owner.handle owner = 0
  · rw [release_nothing hz, if_pos hz]
    exact ⟨[], (List.append_nil _).symm, rfl⟩
  · rw [if_neg hz, List.flatMap_singleton]
    cases k with
    | display => exact ⟨_, release_farewell h hz, callsOf_farewell _ _ _ _⟩
    | context =>
      obtain ⟨reply, hj⟩ := release_destroy h hz
      exact ⟨_, hj, rfl⟩
    | surface =>
      obtain ⟨reply, hj⟩ := release_destroy h hz
      exact ⟨_, hj, rfl⟩

theorem releases_recording (owners : List (Owned k)) (h : Recording w) :
    Recording (releases owners w) := (releases_gave owners h).recording

theorem releases_partings (owners : List (Owned k)) (h : Recording w) :
    ∃ events, (releases owners w).journal = w.journal ++ events ∧
      callsOf events = (owners.flatMap (holding k)).flatMap (partings k) := by
  induction owners generalizing w with
  | nil => exact ⟨[], (List.append_nil _).symm, rfl⟩
  | cons owner rest ih =>
    obtain ⟨first, hj, hc⟩ := release_partings owner h
    obtain ⟨last, hj', hc'⟩ := ih (release_recording owner h)
    refine ⟨first ++ last, ?_, ?_⟩
    · rw [← List.append_assoc, ← hj]
      exact hj'
    · rw [callsOf_append, hc, hc', List.flatMap_cons, List.flatMap_append]

end Egl.Proofs
