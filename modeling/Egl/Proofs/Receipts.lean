import Egl.Proofs.Moments
import Egl.Proofs.Unwinding

namespace Egl.Proofs

variable {k : OwnerKind} {s : Session} {st : Step} {keep : String}

/-- What the implementation handed out to owners in a moment. What a typed call is answered goes
past all owners. -/
def Moment.supplied (k : OwnerKind) (m : Moment) : Multiset (Token k) :=
  match direct m.step with
  | some _ => 0
  | none => granted k m.record.events

theorem Supplies.obtains {op : Op (Owned k)} (h : Supplies s st k op) :
    ∃ token, Obtains op token := by
  cases h with
  | connect keep id => exact ⟨_, connect_obtains id⟩
  | createContext hd operand config keep version =>
    exact ⟨_, createContext_obtains _ config version⟩
  | createWindowSurface | createPixmapSurface | createPbufferSurface =>
    exact ⟨_, surface_obtains _ _ rfl rfl fun _ => rfl⟩

/-- Whoever has to go is handed nothing. -/
theorem releases_idle (owners : List (Owned k)) (w : World) :
    ∃ events, (releases owners w).journal = w.journal ++ events ∧ gains events = [] := by
  obtain ⟨events, hj, hparts⟩ := (releases_went owners w).grew.journal
  exact ⟨events, hj, gains_nil fun e he => (hparts e he).barren⟩

theorem Within.barren {e : Event} (h : Within (Modest s) e) : acquired e = none := by
  cases e with
  | call t c reply =>
    have hc : Modest s c := h
    rw [acquired, hc.barren, ite_self]
  | notice n => rfl

/-- A step that produces no owner is handed nothing by the implementation. -/
theorem step_idle (hd : direct st = none) (hm : ∀ k keep, manner st ≠ .produces k keep) :
    gains (s.step st).1.events = [] := by
  rw [step_events]
  cases h : manner st with
  | manages k step =>
    obtain rfl := owner_of_manner h
    obtain ⟨tokens, -, hwent⟩ := managed_parts (managed k step s.fresh)
    rw [← step_final] at hwent
    exact gains_nil fun e he => (hwent.grew.of_empty rfl e he).barren
  | produces k keep => exact absurd h (hm k keep)
  | uses =>
    cases ha : arranges st with
    | true => cases st <;> first | rfl | cases ha
    | false =>
      have hwent := (used h hd ha s.fresh).went
      rw [← step_final] at hwent
      exact gains_nil fun e he => (hwent.grew.of_empty rfl e he).barren

/-- A step that produces an owner is handed what this owner then holds. -/
theorem step_handed (hr : Recording s.world) (hm : manner st = .produces k keep) :
    (gains (s.step st).1.events = [] ∧ (moment s st).received k = 0) ∨
      ∃ token, gains (s.step st).1.events = [⟨k, token⟩] ∧ (moment s st).received k = {token} := by
  have hending := moment_ending s st
  have hfinal := step_final s st
  rw [step_events]
  rcases supplied hm s.fresh with ⟨fault, hact⟩ | ⟨op, hop, hact⟩
  · rw [hact] at hending hfinal
    refine .inl ⟨?_, (nothing_of_fault (by rw [hending]; rfl)).1⟩
    rw [hfinal]
    rfl
  · obtain ⟨token, hobtains⟩ := hop.obtains
    rcases hobtains s.fresh.world hr with ⟨new, w, body, handle, ho, hran, -, hholding, hgains⟩ |
      ⟨code, subject, w, body, ho, hidled, -⟩
    · obtain ⟨rest, hj, hidle⟩ := releases_idle (occupant ((shelf k).slots s.fresh) keep) w
      have hreceived : (moment s st).received k = due k new := by
        rw [hact, receive_ok keep ho] at hending
        rw [hending]
        exact received_produced rfl (hop.created ho)
      rw [hact, receive_ok keep ho] at hfinal
      have hjournal : (s.step st).2.world.journal = body ++ rest := by
        rw [hfinal]
        simp only [final, shelf_put_world]
        rw [hj, hran.journal]
        rfl
      refine .inr ⟨token handle, ?_, ?_⟩
      · rw [hjournal, gains_append, hgains, hidle, List.append_nil]
      · rw [hreceived, due_holding, hholding]
        rfl
    · rw [hact, receive_error keep ho] at hending hfinal
      refine .inl ⟨?_, (nothing_of_fault (by rw [hending]; rfl)).1⟩
      rw [hfinal]
      exact (congrArg gains hidled.journal).trans hidled.idle

/-- What owners receive is what the implementation hands out to them. -/
theorem step_received (hr : Recording s.world) (k : OwnerKind) (st : Step) :
    (moment s st).received k = (moment s st).supplied k := by
  cases hd : direct st with
  | some c =>
    cases st <;> cases hd
    exact received_unconcerned nofun
  | none =>
    have hs : (moment s st).supplied k = granted k (s.step st).1.events := by
      simp only [Moment.supplied, moment, hd]
    rw [hs]
    cases hm : manner st with
    | manages kind step =>
      have hidle : gains (s.step st).1.events = [] := step_idle hd (by rw [hm]; nofun)
      rw [received_managed (owner_of_manner hm), granted_nil hidle]
    | uses =>
      have hidle : gains (s.step st).1.events = [] := step_idle hd (by rw [hm]; nofun)
      have hc : concern (manner st) ≠ some k := by
        rw [hm]
        nofun
      rw [received_unconcerned hc, granted_nil hidle]
    | produces kind keep =>
      by_cases hne : kind = k
      · subst hne
        rcases step_handed hr hm with ⟨hgains, hreceived⟩ | ⟨token, hgains, hreceived⟩
        · rw [hreceived, granted_nil hgains]
        · rw [hreceived, granted_single hgains]
      · have hc : concern (manner st) ≠ some k := by
          rw [hm]
          exact fun hc => hne (Option.some.inj hc)
        rw [received_unconcerned hc]
        rcases step_handed hr hm with ⟨hgains, -⟩ | ⟨token, hgains, -⟩
        · rw [granted_nil hgains]
        · rw [granted_other hgains hne]

end Egl.Proofs
