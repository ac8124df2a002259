import Egl.Proofs.Passing

namespace Egl.Proofs

variable {k other : OwnerKind} {kind : ResourceKind} {s : Session} {st : Step}

/-- What a wrapper does with handles: it makes a call, or it is told to forget what it holds. -/
inductive Deed
  | call (c : Call)
  | forgot (k : OwnerKind) (handle : Handle)

/-- The handle in what was handed out. -/
def handleOf : (k : OwnerKind) → Token k → Handle
  | .display, display => display
  | .context, token => token.2
  | .surface, token => token.2

namespace Deed

/-- The handles of one kind that a deed passes to the implementation. -/
def passes (k : OwnerKind) : Deed → List Handle
  | call c => ((handed c).filter (·.1 = k)).map Prod.snd
  | forgot _ _ => []

/-- The handles of one kind that a deed gives up, whether or not the implementation agrees. -/
def yields (k : OwnerKind) : Deed → List Handle
  | call c => ((returned k c).map (handleOf k)).toList
  | forgot kind handle => if kind = k then [handle] else []

end Deed

namespace Moment

/-- What an owner was told to forget, as a deed. -/
def renounced (m : Moment) : List Deed :=
  match m.step, m.record.result with
  | .owner k (.forget _), .ok (.handle handle) => [.forgot k handle]
  | _, _ => []

/-- The deeds of a moment, in order. -/
def deeds (m : Moment) : List Deed := (callsOf m.record.events).map .call ++ m.renounced

/-- The handles that come to the slots of one kind in a moment. -/
def gained (k : OwnerKind) (m : Moment) : Multiset Handle := (m.received k).map (handleOf k)

/-- The handles that leave the slots of one kind in a moment. -/
def lost (k : OwnerKind) (m : Moment) : Multiset Handle :=
  (weight (due k) (m.retired k) + m.forgotten k).map (handleOf k)

end Moment

/-- The deeds of a whole session, up to the last release. -/
def deeds (s : Session) (steps : List Step) : List Deed :=
  (history s steps).flatMap Moment.deeds ++ (callsOf (s.complete steps).2.journal).map .call

theorem mem_passes {c : Call} {h : Handle} :
    h ∈ (Deed.call c).passes k ↔ (k, h) ∈ handed c := by
  simp [Deed.passes]

theorem Provided.passes {c : Call} {h : Handle} (hc : Provided s c)
    (hp : h ∈ (Deed.call c).passes k) : h = 0 ∨ h ∈ held k s := hc _ (mem_passes.mp hp)

/-- A call by which an owner parts with something gives up nothing else. -/
theorem partings_yields {token : Token other} {c : Call} {h : Handle}
    (hc : c ∈ partings other token) (hy : h ∈ (Deed.call c).yields k) :
    other = k ∧ h = handleOf other token := by
  cases other with
  | display =>
    simp only [partings, List.mem_cons, List.not_mem_nil, or_false] at hc
    rcases hc with rfl | rfl
    · cases k <;> cases hy
    · cases k with
      | display => exact ⟨rfl, List.mem_singleton.mp hy⟩
      | context | surface => cases hy
  | context =>
    obtain rfl := List.mem_singleton.mp hc
    cases k with
    | context => exact ⟨rfl, List.mem_singleton.mp hy⟩
    | display | surface => cases hy
  | surface =>
    obtain rfl := List.mem_singleton.mp hc
    cases k with
    | surface => exact ⟨rfl, List.mem_singleton.mp hy⟩
    | display | context => cases hy

theorem partings_passes {token : Token other} {c : Call} {h : Handle}
    (hc : c ∈ partings other token) (hp : h ∈ (Deed.call c).passes k) :
    h = 0 ∨ other = k ∧ h = handleOf other token := by
  rw [mem_passes] at hp
  cases other with
  | display =>
    simp only [partings, List.mem_cons, List.not_mem_nil, or_false] at hc
    rcases hc with rfl | rfl
    · simp only [handed, List.mem_cons, Prod.mk.injEq, List.not_mem_nil, or_false] at hp
      rcases hp with ⟨-, hz⟩ | ⟨-, hz⟩ | ⟨-, hz⟩ <;> exact .inl hz
    · cases hp
  | context | surface =>
    obtain rfl := List.mem_singleton.mp hc
    obtain ⟨rfl, rfl⟩ := Prod.mk.inj (List.mem_singleton.mp hp)
    exact .inr ⟨rfl, rfl⟩

/-- The handles that owners hold. -/
def handles (owners : List (Owned k)) : List Handle :=
  (owners.map Owner.handle).filter (· ≠ 0)

theorem ticket_handle (owner : Owned k) (h : Handle) : handleOf k (ticket k owner h) = h := by
  cases k <;> rfl

theorem holding_handles (owners : List (Owned k)) :
    (owners.flatMap (holding k)).map (handleOf k) = handles owners := by
  induction owners with
  | nil => rfl
  | cons owner rest ih =>
    rw [List.flatMap_cons, List.map_append, ih]
    by_cases hz : Owner.handle owner = 0
    · simp [holding, handles, hz]
    · simp [holding, handles, hz, ticket_handle]

theorem weight_holding (owners : List (Owned k)) :
    weight (due k) owners = (owners.flatMap (holding k) : List (Token k)) := by
  induction owners with
  | nil => rfl
  | cons owner rest ih =>
    rw [weight_cons, ih, List.flatMap_cons, ← Multiset.coe_add, due_holding]

theorem weight_handles (owners : List (Owned k)) :
    (weight (due k) owners).map (handleOf k) = (handles owners : Multiset Handle) := by
  rw [weight_holding, Multiset.map_coe, holding_handles]

/-- The account of a step in terms of handles. -/
theorem step_handles (hs : Sound k s) (h : Layered st) :
    (held k s : Multiset Handle) + (moment s st).gained k =
      (moment s st).lost k + (held k (s.step st).2 : Multiset Handle) := by
  have hbalance := (step_accounted s h.recording (h.leaves k) hs.ordered).balance
  have hmapped := congrArg (Multiset.map (handleOf k)) hbalance
  rw [Multiset.map_add, Multiset.map_add] at hmapped
  unfold total at hmapped
  rw [weight_handles, weight_handles] at hmapped
  have hbefore : (shelf k).slots (moment s st).before = (shelf k).slots s := shelf_world k s _
  rw [hbefore] at hmapped
  exact hmapped

/-- A new context or surface has the next handle, whoever has to make room for it. -/
theorem Supplies.received {op : Op (Owned (ownerKind kind))} {new : Owned (ownerKind kind)}
    {keep : String} {w : World} (h : Supplies s.fresh st (ownerKind kind) op)
    (hr : Recording s.world) (hu : Unscripted s.world.script) (hop : op s.fresh.world = .ok new w)
    (hact : st.act s.fresh = (shelf (ownerKind kind)).receive op keep s.fresh) :
    (moment s st).received (ownerKind kind) = due (ownerKind kind) new ∧
      Owner.handle new = next kind s.world.backend ∧
      next kind s.world.backend < next kind (s.step st).2.world.backend := by
  have hending := moment_ending s st
  have hfinal := step_final s st
  rw [hact, receive_ok keep hop] at hending hfinal
  obtain ⟨hnew, hnext⟩ := h.fresh (w := s.fresh.world) rfl hr hu hop
  refine ⟨?_, hnew, ?_⟩
  · rw [hending]
    exact received_produced rfl (h.created hop)
  · rw [hfinal]
    simp only [final, shelf_put_world]
    exact hnext.ge.trans ((occupant_passes (ownerKind kind) s.fresh keep w).next_le kind)

theorem received_next (hr : Recording s.world) (hu : Unscripted s.world.script) (st : Step) :
    (moment s st).received (ownerKind kind) = 0 ∨ ∃ new : Owned (ownerKind kind),
      (moment s st).received (ownerKind kind) = due (ownerKind kind) new ∧
        Owner.handle new = next kind s.world.backend ∧
        next kind s.world.backend < next kind (s.step st).2.world.backend := by
  by_cases hc : concern (manner st) = some (ownerKind kind)
  · cases hm : manner st with
    | manages k step => exact .inl (received_managed (owner_of_manner hm))
    | uses =>
      rw [hm] at hc
      cases hc
    | produces k keep =>
      rw [hm] at hc
      obtain rfl : k = ownerKind kind := Option.some.inj hc
      have hending := moment_ending s st
      rcases supplied hm s.fresh with ⟨fault, hact⟩ | ⟨op, hop, hact⟩
      · rw [hact] at hending
        exact .inl (nothing_of_fault (by rw [hending]; rfl)).1
      · cases ho : op s.fresh.world with
        | error f w =>
          rw [hact, receive_error keep ho] at hending
          exact .inl (nothing_of_fault (by rw [hending]; rfl)).1
        | ok new w => exact .inr ⟨new, hop.received hr hu ho hact⟩
  · exact .inl (received_unconcerned hc)

/-- What a step receives was never handed out before. -/
theorem gained_fresh (kind : ResourceKind) (hr : Recording s.world)
    (hu : Unscripted s.world.script) (st : Step) :
    ((moment s st).gained (ownerKind kind)).Nodup ∧
      ∀ h ∈ (moment s st).gained (ownerKind kind),
        next kind s.world.backend ≤ h ∧ h < next kind (s.step st).2.world.backend := by
  unfold Moment.gained
  rcases received_next hr hu st with hz | ⟨new, hnew, hhandle, hnext⟩
  · rw [hz]
    exact ⟨Multiset.nodup_zero, fun h hh => absurd hh (Multiset.notMem_zero h)⟩
  · rw [hnew]
    unfold due
    split
    · exact ⟨Multiset.nodup_zero, fun h hh => absurd hh (Multiset.notMem_zero h)⟩
    · rw [Multiset.map_singleton, ticket_handle, hhandle]
      refine ⟨Multiset.nodup_singleton _, fun h hh => ?_⟩
      rw [Multiset.mem_singleton.mp hh]
      exact ⟨Nat.le_refl _, hnext⟩

/-- The calls of a step give nothing back at first; then the owners that have to go part with what
they hold. -/
theorem step_calls (hs : Sound k s) (h : Layered st) :
    ∃ calls, (∀ c ∈ calls, returned k c = none) ∧ callsOf (s.step st).1.events =
      calls ++ (((moment s st).retired k).flatMap (holding k)).flatMap (partings k) := by
  obtain ⟨w, hg, hw⟩ := (step_accounted s h.recording (h.leaves k) hs.ordered).world
  obtain ⟨first, hj, hspares⟩ := hg.journal
  obtain ⟨last, hj', hlast⟩ := releases_partings ((moment s st).retired k)
    (hg.recording hs.recording)
  have hempty : (moment s st).before.world.journal = [] := rfl
  rw [hempty, List.nil_append] at hj
  rw [← hw, hj] at hj'
  refine ⟨callsOf first, fun c hc => ?_, ?_⟩
  · obtain ⟨t, reply, he⟩ := mem_callsOf hc
    exact returned_none (hspares _ he)
  · rw [step_events, ← hlast, ← callsOf_append]
    exact congrArg callsOf hj'

theorem renounced_forgotten {deed : Deed} {h : Handle} (hd : deed ∈ (moment s st).renounced)
    (hy : h ∈ deed.yields k) (hz : h ≠ 0) : h ∈ ((moment s st).forgotten k).map (handleOf k) := by
  unfold Moment.renounced at hd
  split at hd
  case h_2 => cases hd
  case h_1 other name handle hstep hresult =>
    obtain rfl := List.mem_singleton.mp hd
    by_cases hk : other = k
    · subst hk
      simp only [Deed.yields, if_true, List.mem_singleton] at hy
      subst hy
      change st = _ at hstep
      subst hstep
      have hm := managed other (.forget name) s.fresh
      rw [moment_ending] at hresult ⊢
      generalize (Step.owner other (.forget name)).act s.fresh = result at hm hresult ⊢
      cases hm with
      | missing => cases hresult
      | forgotten ho =>
        cases hresult
        rw [forgotten_due rfl rfl ho, due, if_neg hz, Multiset.map_singleton, ticket_handle]
        exact Multiset.mem_singleton_self _
    · simp only [Deed.yields, if_neg hk] at hy
      cases hy

/-- Whatever a deed gives up leaves the slots. -/
theorem yields_lost {deed : Deed} {h : Handle} (hs : Sound k s) (hl : Layered st)
    (hd : deed ∈ (moment s st).deeds) (hy : h ∈ deed.yields k) (hz : h ≠ 0) :
    h ∈ (moment s st).lost k := by
  unfold Moment.lost
  rw [Multiset.map_add, Multiset.mem_add]
  rcases List.mem_append.mp hd with hcall | hrenounced
  · refine .inl ?_
    obtain ⟨c, hc, rfl⟩ := List.mem_map.mp hcall
    obtain ⟨calls, hnone, hcalls⟩ := step_calls hs hl
    change c ∈ callsOf (s.step st).1.events at hc
    rw [hcalls] at hc
    rcases List.mem_append.mp hc with hfirst | hlast
    · simp [Deed.yields, hnone c hfirst] at hy
    · obtain ⟨token, ht, hpart⟩ := List.mem_flatMap.mp hlast
      rw [weight_holding, (partings_yields hpart hy).2]
      exact Multiset.mem_map_of_mem _ ht
  · exact .inr (renounced_forgotten hrenounced hy hz)

/-- Nothing is passed on by forgetting. -/
theorem renounced_passes {deed : Deed} {m : Moment} (hd : deed ∈ m.renounced) :
    deed.passes k = [] := by
  unfold Moment.renounced at hd
  split at hd
  · obtain rfl := List.mem_singleton.mp hd
    rfl
  · cases hd

theorem deed_passes {deed : Deed} {h : Handle} (hp : Proceeds s st)
    (hd : deed ∈ (moment s st).deeds) (hm : h ∈ deed.passes k) : h = 0 ∨ h ∈ held k s := by
  rcases List.mem_append.mp hd with hcall | hrenounced
  · obtain ⟨c, hc, rfl⟩ := List.mem_map.mp hcall
    exact (hp.provided c hc).passes hm
  · rw [renounced_passes hrenounced] at hm
    cases hm

end Egl.Proofs
