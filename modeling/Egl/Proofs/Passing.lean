import Egl.Proofs.Freshness
import Egl.Proofs.Partings

namespace Egl.Proofs

variable {k : OwnerKind} {s : Session} {st : Step} {w : World}

/-- A call passes on no context or surface but those that slots hold. -/
def Passes (s : Session) : Event → Prop
  | .call _ c _ => Provided s c
  | .notice _ => True

theorem Within.passes {P : Call → Prop} {e : Event} (h : Within P e)
    (hc : ∀ c, P c → Provided s c) : Passes s e := by
  cases e with
  | call t c reply => exact hc c h
  | notice n => trivial

theorem Plain.provided {c : Call} (h : Plain c) : Provided s c := fun p hp => .inl (h.null p hp)

/-- An owner that parts with something passes on what it holds. -/
theorem partings_provided {owner : Owned k} (ho : owner ∈ ((shelf k).slots s).values)
    {token : Token k} (ht : token ∈ holding k owner) {c : Call} (hc : c ∈ partings k token) :
    Provided s c := by
  unfold holding at ht
  split at ht
  case isTrue => cases ht
  case isFalse hz =>
    have hheld : Owner.handle owner ∈ held k s := mem_held.mpr ⟨hz, owner, ho, rfl⟩
    obtain rfl := List.mem_singleton.mp ht
    intro p hp
    cases k with
    | display =>
      simp only [partings, List.mem_cons, List.not_mem_nil, or_false] at hc
      rcases hc with rfl | rfl
      · simp only [handed, List.mem_cons, List.not_mem_nil, or_false] at hp
        rcases hp with rfl | rfl | rfl <;> exact .inl rfl
      · cases hp
    | context =>
      obtain rfl := List.mem_singleton.mp hc
      obtain rfl := List.mem_singleton.mp hp
      exact .inr hheld
    | surface =>
      obtain rfl := List.mem_singleton.mp hc
      obtain rfl := List.mem_singleton.mp hp
      exact .inr hheld

theorem Parts.passes {tokens : List (Token k)} {e : Event} (h : Parts k tokens e)
    (ht : Kept s tokens) : Passes s e := by
  cases e with
  | call t c reply =>
    obtain ⟨token, htoken, hc⟩ := h
    obtain ⟨owner, ho, hholding⟩ := ht token htoken
    exact partings_provided ho hholding hc
  | notice n => trivial

/-- Whoever has to make room in a slot only parts with what he holds. -/
theorem occupant_passes (k : OwnerKind) (s : Session) (name : String) (w : World) :
    Went (Passes s) w (releases (occupant ((shelf k).slots s) name) w) := by
  obtain ⟨tokens, hkept, hwent⟩ := occupant_parts k s name w
  exact hwent.mono fun e he => he.passes hkept

theorem managed_passes {step : OwnerStep} {result : EStateM.Result Fault Session Answer}
    (h : Managed k s step result) : Went (Passes s) s.world (final result).world := by
  obtain ⟨tokens, hkept, hwent⟩ := managed_parts h
  exact hwent.mono fun e he => he.passes hkept

theorem receive_passes {op : Op (Owned k)} (h : Confined Plain op) (keep : String) :
    Went (Passes s) s.world (final ((shelf k).receive op keep s)).world := by
  have hwent := (h s.world).mono fun e he => he.passes (s := s) fun c hc => hc.provided
  cases ho : op s.world with
  | ok new w =>
    rw [ho] at hwent
    rw [receive_ok keep ho]
    simp only [final, shelf_put_world]
    exact hwent.trans (occupant_passes k s keep w)
  | error f w =>
    rw [ho] at hwent
    rw [receive_error keep ho]
    exact hwent

theorem act_passes (hd : direct st = none) (ha : arranges st = false) (s : Session) :
    Went (Passes s) s.world (final (st.act s)).world := by
  cases hm : manner st with
  | manages k step =>
    rw [owner_of_manner hm]
    exact managed_passes (managed k step s)
  | produces k keep =>
    rcases supplied hm s with ⟨fault, hact⟩ | ⟨op, hop, hact⟩
    · rw [hact]
      exact .refl
    · rw [hact]
      exact receive_passes hop.confined keep
  | uses => exact (used hm hd ha s).went.mono fun e he => he.passes fun c hc => hc.provided

/-- The items that a step puts into the script. -/
def scripted : Step → List (EntryPoint × List (Option Reply))
  | .configure change => change.script
  | _ => []

/-- A step of the resource layer, or one that sets up the implementation. It makes no typed call,
its calls are recorded, and it leaves it to the implementation to hand out contexts and surfaces. -/
structure Layered (st : Step) : Prop where
  indirect : direct st = none
  recording : KeepsRecording st
  unscripted : ∀ p ∈ scripted st, creates p.1 = true → ∀ item ∈ p.2, item = none

instance (st : Step) : Decidable (Layered st) :=
  decidable_of_iff (direct st = none ∧ KeepsRecording st ∧
      ∀ p ∈ scripted st, creates p.1 = true → ∀ item ∈ p.2, item = none)
    ⟨fun ⟨hd, hr, hu⟩ => ⟨hd, hr, hu⟩, fun h => ⟨h.indirect, h.recording, h.unscripted⟩⟩

theorem Layered.leaves (h : Layered st) (k : OwnerKind) : LeavesToOwners k st := by
  intro c hc
  rw [h.indirect] at hc
  cases hc

/-- An entry point has no scripted answer afterwards if it had none before and gets none. -/
theorem configure_pending {script : Script} {items : List (EntryPoint × List (Option Reply))}
    {e : EntryPoint} (h : ∀ item ∈ script.pending e, item = none)
    (hi : ∀ p ∈ items, p.1 = e → ∀ item ∈ p.2, item = none) :
    ∀ item ∈ (items.foldl (fun s (e, items) => s.replace e items) script).pending e,
      item = none := by
  induction items generalizing script with
  | nil => exact h
  | cons head rest ih =>
    refine ih (fun item hitem => ?_) fun p hp => hi p (List.mem_cons_of_mem _ hp)
    unfold Script.replace at hitem
    dsimp only at hitem
    split at hitem
    case isTrue heq => exact hi head List.mem_cons_self heq.symm item hitem
    case isFalse => exact h item hitem

theorem configure_unscripted {script : Script} {items : List (EntryPoint × List (Option Reply))}
    (h : Unscripted script)
    (hi : ∀ p ∈ items, creates p.1 = true → ∀ item ∈ p.2, item = none) :
    Unscripted (items.foldl (fun s (e, items) => s.replace e items) script) :=
  fun e he => configure_pending (h e he) fun p hp hpe => hi p hp (hpe ▸ he)

/-- How a step proceeds: the script keeps out of creations, the counters only grow, and what is
passed on was held before. -/
structure Proceeds (s : Session) (st : Step) : Prop where
  unscripted : Unscripted (s.step st).2.world.script
  next_le : ∀ kind, next kind s.world.backend ≤ next kind (s.step st).2.world.backend
  provided : ∀ c ∈ callsOf (s.step st).1.events, Provided s c

theorem mem_callsOf {c : Call} {events : List Event} (h : c ∈ callsOf events) :
    ∃ t reply, .call t c reply ∈ events := by
  obtain ⟨e, he, hc⟩ := List.mem_filterMap.mp h
  cases e with
  | call t other reply =>
    obtain rfl := Option.some.inj hc
    exact ⟨t, reply, he⟩
  | notice n => cases hc

theorem held_fresh (k : OwnerKind) (s : Session) : held k s.fresh = held k s := by
  unfold held Session.fresh
  rw [shelf_world]

theorem step_proceeds (h : Layered st) (hu : Unscripted s.world.script) : Proceeds s st := by
  cases ha : arranges st with
  | false =>
    have hwent := act_passes h.indirect ha s.fresh
    rw [← step_final] at hwent
    refine ⟨hwent.unscripted hu, hwent.next_le, fun c hc p hp => ?_⟩
    obtain ⟨t, reply, he⟩ := mem_callsOf hc
    rw [step_events] at he
    have hprovided : Provided s.fresh c := hwent.grew.of_empty rfl _ he
    rw [← held_fresh]
    exact hprovided p hp
  | true =>
    cases st with
    | install table => exact ⟨hu, fun kind => Nat.le_refl _, nofun⟩
    | configure change =>
      refine ⟨configure_unscripted hu h.unscripted, fun kind => ?_, nofun⟩
      cases kind <;> exact Nat.le_refl _
    | _ => cases ha

end Egl.Proofs
