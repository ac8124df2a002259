import Egl.Proofs.Accounts

namespace Egl.Proofs

variable {k : OwnerKind} {s : Session} {st : Step} {w after : World}

/-- An event by which nothing is lost: a call gives nothing back, and hands out no context or
surface that would be left without an owner; and no cleanup starts. -/
def Harmless : Event → Prop
  | .call _ c reply => givesBack c.entry = false ∧ (creates c.entry = true → reply.ret = 0)
  | .notice n => n ≠ .unbinding

theorem Within.harmless {P : Call → Prop} {e : Event} (h : Within P e)
    (hc : ∀ c, P c → givesBack c.entry = false ∧ creates c.entry = false) : Harmless e := by
  cases e with
  | call t c reply =>
    obtain ⟨hs, hb⟩ := hc c h
    exact ⟨hs, fun hcreates => absurd hcreates (by simp [hb])⟩
  | notice n => exact h

/-- How a step can fail: it leaves the session as it is, up to harmless events. -/
structure Withdrawn (s after : Session) : Prop where
  kept : after = { s with world := after.world }
  went : Went Harmless s.world after.world

theorem Withdrawn.refl (s : Session) : Withdrawn s s := ⟨rfl, .refl⟩

/-- Nothing can fail any more once there is a new context or surface. -/
theorem create_failed {kind : ResourceKind} {display : Handle} {what : String} {c : Call}
    {f : Failure} (hc : givesBack c.entry = false)
    (h : Resource.create kind display what (.handle c) w = .error f after) :
    Went Harmless w after := by
  rw [create_eq] at h
  split at h
  case isTrue hz =>
    cases h
    exact .call .refl c ⟨hc, fun _ => hz⟩
  case isFalse => cases h

theorem Supplies.failed {op : Op (Owned k)} {f : Failure} (h : Supplies s st k op)
    (hop : op w = .error f after) : Went Harmless w after := by
  cases h with
  | connect keep id =>
    have hwent := connect_confined (P := (· = .getDisplay id)) rfl w
    rw [hop] at hwent
    refine hwent.mono fun e he => he.harmless ?_
    rintro c rfl
    exact ⟨rfl, rfl⟩
  | createContext | createWindowSurface | createPixmapSurface | createPbufferSurface =>
    exact create_failed rfl hop

theorem typed_ok (t : TypedCall) (s : Session) : ∃ answer after, t.act s = .ok answer after := by
  cases t <;> exact ⟨_, _, rfl⟩

theorem act_withdrawn {fault : Fault} {after : Session} (h : st.act s = .error fault after) :
    Withdrawn s after := by
  cases hm : manner st with
  | manages k step =>
    have hmanaged := managed k step s
    rw [← owner_of_manner hm, h] at hmanaged
    -- A step that manages owners can only fail to find the one that it names.
    cases hmanaged
    exact .refl s
  | produces k keep =>
    rcases supplied hm s with ⟨missing, hact⟩ | ⟨op, hop, hact⟩
    · rw [hact] at h
      cases h
      exact .refl s
    · rw [hact] at h
      cases ho : op s.world with
      | ok new w =>
        rw [receive_ok keep ho] at h
        cases h
      | error f w =>
        rw [receive_error keep ho] at h
        cases h
        exact ⟨rfl, hop.failed ho⟩
  | uses =>
    cases hd : direct st with
    | some c =>
      cases st <;> cases hd
      obtain ⟨answer, other, hact⟩ := typed_ok _ s
      cases hact.symm.trans h
    | none =>
      cases ha : arranges st with
      | true =>
        cases st with
        | install | configure => cases h
        | _ => cases ha
      | false =>
        have hused := used hm hd ha s
        have hwent := hused.went
        rw [h] at hwent
        exact ⟨hused.faulted fault after h,
          hwent.mono fun e he => he.harmless fun c hc => ⟨hc.spares, hc.uncreative⟩⟩

/-- How a step failed in a session. Its record starts from an empty journal. -/
structure Atomic (s : Session) (st : Step) : Prop where
  /-- Every slot of every kind, list and filter is as it was. -/
  kept : (s.step st).2 = { s with world := (s.step st).2.world }
  /-- Nothing was given back, and no handle that was handed out is left without an owner. -/
  recorded : ∀ e ∈ (s.step st).1.events, Harmless e
  /-- The world differs by what calls and lines in the log did to it, recorded or not. -/
  went : Went Harmless s.fresh.world (s.step st).2.world

/-- Whatever the state of a session is and whatever the implementation answers: a step that fails
changes nothing but the world, and there it neither gives back nor receives anything. -/
theorem failures_atomic (s : Session) (st : Step) (fault : Fault)
    (h : (s.step st).1.result = .error fault) : Atomic s st := by
  have hact : st.act s.fresh = .error fault (s.step st).2 := by
    unfold Session.step at h ⊢
    cases hact : st.act s.fresh with
    | ok answer after =>
      rw [hact] at h
      cases h
    | error other after =>
      rw [hact] at h
      cases h
      rfl
  obtain ⟨hkept, hwent⟩ := act_withdrawn hact
  refine ⟨hkept, ?_, hwent⟩
  rw [step_events]
  exact hwent.grew.of_empty rfl

/-- A context is in its slot, and no more contexts can be created. -/
def exhausted : Session :=
  ((opening { configs := [.make 1 8 8 8 8 24 8] } {} {}).run
    [.connect "display" 0, .createContext "display" (.direct ⟨208, 1⟩) "context" none,
      .configure { failures := some [.createContext] }]).2

theorem failures_atomic_exhausted :
    (exhausted.step (.createContext "display" (.direct ⟨208, 1⟩) "context" (some 2))).1.result =
        .error (.failed (.coded (.ofEntry .createContext) (entryName .createContext))) ∧
      Atomic exhausted (.createContext "display" (.direct ⟨208, 1⟩) "context" (some 2)) :=
  ⟨by rfl, failures_atomic exhausted _ _ (by rfl)⟩

example : held .context
    (exhausted.step (.createContext "display" (.direct ⟨208, 1⟩) "context" (some 2))).2 =
      [0x1000] := by decide

end Egl.Proofs
