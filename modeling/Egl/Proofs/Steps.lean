import Egl.Proofs.Custody

namespace Egl.Proofs

variable {α β : Type} {sort finer : Event → Prop} {k other : OwnerKind} {s mid after : Session}

/-- Where a session keeps the owners of one kind. -/
def shelf : (k : OwnerKind) → Shelf (Owned k)
  | .display => .displays
  | .context => .contexts
  | .surface => .surfaces

theorem shelf_put (k : OwnerKind) (s : Session) (slots : Slots (Owned k)) (w : World) :
    (shelf k).slots ((shelf k).put s slots w) = slots := by
  cases k <;> rfl

theorem shelf_put_other (h : other ≠ k) (s : Session) (slots : Slots (Owned other)) (w : World) :
    (shelf k).slots ((shelf other).put s slots w) = (shelf k).slots s := by
  cases k <;> cases other <;> first | rfl | exact absurd rfl h

theorem shelf_put_world (k : OwnerKind) (s : Session) (slots : Slots (Owned k)) (w : World) :
    ((shelf k).put s slots w).world = w := by
  cases k <;> rfl

theorem shelf_world (k : OwnerKind) (s : Session) (w : World) :
    (shelf k).slots { s with world := w } = (shelf k).slots s := by
  cases k <;> rfl

/-- How a step deals with owners. -/
inductive Manner
  | manages (k : OwnerKind) (step : OwnerStep)
  | produces (k : OwnerKind) (keep : String)
  | uses

/-- How each step deals with owners. -/
def manner : Step → Manner
  | .owner k step => .manages k step
  | .connect keep _ => .produces .display keep
  | .createContext _ _ keep _ => .produces .context keep
  | .createWindowSurface _ _ _ keep => .produces .surface keep
  | .createPixmapSurface _ _ _ keep => .produces .surface keep
  | .createPbufferSurface _ _ _ keep => .produces .surface keep
  | _ => .uses

/-- The owner that a step creates when it answers with a given handle. A context or surface belongs
to the display that is in the named slot at the time. -/
def created : (k : OwnerKind) → Session → Step → Handle → Option (Owned k)
  | .display, _, .connect _ _, handle => some ⟨handle⟩
  | .context, s, .createContext display _ _ _, handle =>
    (s.displays.get? display).map fun d => ⟨d.handle, handle⟩
  | .surface, s, .createWindowSurface display _ _ _, handle
  | .surface, s, .createPixmapSurface display _ _ _, handle
  | .surface, s, .createPbufferSurface display _ _ _, handle =>
    (s.displays.get? display).map fun d => ⟨d.handle, handle⟩
  | _, _, _, _ => none

/-- The call that a typed call makes. -/
def typedCall : TypedCall → Call
  | .status q => q.call
  | .number q => q.call
  | .handle q => q.call
  | .text q => q.call
  | .version q => q.call
  | .buffer _ q => q.call
  | .errorState q => q.call
  | .boundApi q => q.call

/-- The call that a step makes past all owners, if it is a typed one. -/
def direct : Step → Option Call
  | .typed t => some (typedCall t)
  | _ => none

/-- What a step installs, if it installs a table or removes the one that is installed. -/
def installs : Step → Option (Option Table)
  | .install t => some t
  | _ => none

/-- A step that does not install a table through which nothing is recorded. -/
def KeepsRecording (st : Step) : Prop := ∀ t ∈ installs st, t.getD .native ≠ .native

instance (st : Step) : Decidable (KeepsRecording st) :=
  inferInstanceAs (Decidable (∀ t ∈ installs st, t.getD .native ≠ .native))

/-- A step that does not make a typed call to the entry point through which owners of one kind give
back what they hold. -/
def LeavesToOwners (k : OwnerKind) (st : Step) : Prop :=
  ∀ c ∈ direct st, c.entry ≠ releaser k

instance (k : OwnerKind) (st : Step) : Decidable (LeavesToOwners k st) :=
  inferInstanceAs (Decidable (∀ c ∈ direct st, c.entry ≠ releaser k))

theorem created_manner {st : Step} {handle : Handle} {owner : Owned k}
    (h : created k s st handle = some owner) : ∃ keep, manner st = .produces k keep := by
  cases k <;> cases st <;> first | exact ⟨_, rfl⟩ | cases h

theorem owner_of_manner {st : Step} {step : OwnerStep} (h : manner st = .manages k step) :
    st = .owner k step := by
  cases st <;> cases h
  rfl

/-- All owners stay where they are, and the journal only grows by events of one sort. -/
structure Rested (sort : Event → Prop) (s after : Session) : Prop where
  slots : ∀ k, (shelf k).slots after = (shelf k).slots s
  grew : Grew sort s.world after.world

theorem Rested.refl (sort : Event → Prop) (s : Session) : Rested sort s s :=
  ⟨fun _ => rfl, .refl sort s.world⟩

theorem Rested.trans (h : Rested sort s mid) (h' : Rested sort mid after) :
    Rested sort s after :=
  ⟨fun k => (h'.slots k).trans (h.slots k), h.grew.trans h'.grew⟩

theorem Rested.mono (h : Rested finer s after) (hs : ∀ e, finer e → sort e) :
    Rested sort s after := ⟨h.slots, h.grew.mono hs⟩

theorem Rested.of_world {w : World} (h : Grew sort s.world w) :
    Rested sort s { s with world := w } :=
  ⟨fun k => shelf_world k s w, h⟩

/-- An act leaves all owners where they are, however it ends. -/
def Rests (sort : Event → Prop) (act : Act α) : Prop := ∀ s, Rested sort s (final (act s))

theorem Rests.pure (a : α) : Rests sort (pure a) := fun s => .refl sort s

theorem Rests.bind {act : Act α} {next : α → Act β} (h : Rests sort act)
    (hn : ∀ a, Rests sort (next a)) : Rests sort (act >>= next) := by
  intro s
  have hs := h s
  cases ha : act s with
  | ok a mid =>
    rw [ha] at hs
    rw [bind_ok ha]
    exact hs.trans (hn a mid)
  | error f mid =>
    rw [ha] at hs
    rw [bind_error ha]
    exact hs

theorem Rests.map {act : Act α} (f : α → β) (h : Rests sort act) : Rests sort (f <$> act) := by
  intro s
  have hs := h s
  change Rested sort s (final (EStateM.map f act s))
  unfold EStateM.map
  cases ha : act s with
  | ok a mid => rwa [ha] at hs
  | error f mid => rwa [ha] at hs

theorem Rests.run {op : Op α} (h : Adds sort op) : Rests sort (Act.run op) := by
  intro s
  have hs := h s.world
  unfold Act.run
  cases ho : op s.world with
  | ok a w =>
    rw [ho] at hs
    exact .of_world hs
  | error f w =>
    rw [ho] at hs
    exact .of_world hs

theorem resolve_eq (slots : Session → Slots α) (name : String) (s : Session) :
    (∃ a, (slots s).get? name = some a ∧ Act.resolve slots name s = .ok a s) ∨
    (slots s).get? name = none ∧ Act.resolve slots name s = .error .noSuchSlot s := by
  unfold Act.resolve
  cases h : (slots s).get? name with
  | some a => exact .inl ⟨a, rfl, rfl⟩
  | none => exact .inr ⟨rfl, rfl⟩

/-- Naming a config changes nothing, whether or not there is one. -/
theorem config_eq (c : ConfigOperand) (s : Session) :
    (∃ config, Act.config c s = .ok config s) ∨ ∃ fault, Act.config c s = .error fault s := by
  cases c with
  | direct config => exact .inl ⟨config, rfl⟩
  | listed list index =>
    simp only [Act.config]
    rcases resolve_eq Session.lists list s with ⟨configs, -, h⟩ | ⟨-, h⟩
    · rw [bind_ok h]
      cases configs[index]? with
      | some config => exact .inl ⟨config, rfl⟩
      | none => exact .inr ⟨.noSuchConfig, rfl⟩
    · rw [bind_error h]
      exact .inr ⟨.noSuchSlot, rfl⟩

end Egl.Proofs
