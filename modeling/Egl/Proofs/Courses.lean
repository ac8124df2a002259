import Egl.Proofs.Uses

namespace Egl.Proofs

variable {α : Type} {sort : Event → Prop} {k : OwnerKind} {s : Session} {st : Step}

theorem typed_rests (t : TypedCall)
    (h : ∀ through reply, sort (.call through (typedCall t) reply)) : Rests sort t.act := by
  cases t with
  | buffer span q =>
    exact (Rests.run (Goes.perform h).adds).bind fun (outcome, written) => .pure _
  | _ q => exact (Rests.run (Goes.perform h).adds).map _

theorem Used.rested {result : EStateM.Result Fault Session α} (h : Used s result) :
    Rested Ordinary s (final result) :=
  ⟨h.slots, h.went.grew.mono fun _ he => he.ordinary fun _ hc => hc.spares⟩

/-- A step that only uses what is there leaves all owners where they are. -/
theorem uses_rests (hm : manner st = .uses) (hd : direct st = none) (hr : KeepsRecording st) :
    Rests Ordinary st.act := by
  cases ha : arranges st with
  | false => exact fun s => (used hm hd ha s).rested
  | true =>
    cases st with
    | install table =>
      -- What is installed changes, but calls stay recorded.
      exact fun s => .of_world ⟨fun _ => hr table rfl, [], by simp, by simp⟩
    | configure change =>
      exact fun s => .of_world ⟨id, [], by simp [World.configure], by simp⟩
    | _ => cases ha

/-- A typed call may do anything but what is left to the owners of one kind. -/
theorem uses_spares (hm : manner st = .uses) (hr : KeepsRecording st) (hl : LeavesToOwners k st) :
    Rests (Spares k) st.act := by
  cases hd : direct st with
  | none => exact fun s => (uses_rests hm hd hr s).mono fun _ he => he.spares
  | some c =>
    have hc : c.entry ≠ releaser k := hl c hd
    cases st <;> cases hd
    exact typed_rests _ fun _ _ => hc

/-- How a step that manages an owner can end. It calls the implementation only to release whoever
has to make room. -/
inductive Managed (k : OwnerKind) (s : Session) :
    OwnerStep → EStateM.Result Fault Session Answer → Prop
  | missing (step : OwnerStep) : Managed k s step (.error .noSuchSlot s)
  | asked {name : String} {owner : Owned k} (h : ((shelf k).slots s).get? name = some owner) :
      Managed k s (.handle name) (.ok (.handle (Owner.handle owner)) s)
  | forgotten {name : String} {owner : Owned k}
      (h : ((shelf k).slots s).get? name = some owner) :
      Managed k s (.forget name) (.ok (.handle (Owner.handle owner))
        ((shelf k).put s (((shelf k).slots s).forget name owner) s.world))
  | moved {source : String} {owner : Owned k} (target : String)
      (h : ((shelf k).slots s).get? source = some owner) :
      Managed k s (.move source target)
        (.ok (.handles (Owner.handle (if source = target then owner else Owner.emptied owner))
            (Owner.handle owner))
          ((shelf k).put s (((shelf k).slots s).move source owner target s.world).1
            (((shelf k).slots s).move source owner target s.world).2))
  | dropped {name : String} {owner : Owned k} (h : ((shelf k).slots s).get? name = some owner) :
      Managed k s (.drop name) (.ok .done
        ((shelf k).put s (((shelf k).slots s).erase name) (Owner.release owner s.world)))

/-- What some owners in the slots of one kind hold. -/
def Kept (s : Session) (tokens : List (Token k)) : Prop :=
  ∀ token ∈ tokens, ∃ owner ∈ ((shelf k).slots s).values, token ∈ holding k owner

theorem owner_act (k : OwnerKind) (step : OwnerStep) :
    (Step.owner k step).act = (shelf k).act step := by
  cases k <;> rfl

theorem resolve_managed {step : OwnerStep} {name : String} {next : Owned k → Act Answer}
    (h : ∀ owner, ((shelf k).slots s).get? name = some owner → Managed k s step (next owner s)) :
    Managed k s step ((Act.resolve (shelf k).slots name >>= next) s) := by
  rcases resolve_eq (shelf k).slots name s with ⟨owner, ho, hres⟩ | ⟨-, hres⟩
  · rw [bind_ok hres]
    exact h owner ho
  · rw [bind_error hres]
    exact .missing step

theorem managed (k : OwnerKind) (step : OwnerStep) (s : Session) :
    Managed k s step ((Step.owner k step).act s) := by
  rw [owner_act]
  cases step with
  | handle name => exact resolve_managed fun _ ho => .asked ho
  | forget name => exact resolve_managed fun _ ho => .forgotten ho
  | move source target => exact resolve_managed fun _ ho => .moved target ho
  | drop name => exact resolve_managed fun _ ho => .dropped ho

theorem occupant_parts (k : OwnerKind) (s : Session) (name : String) (w : World) :
    ∃ tokens, Kept s tokens ∧
      Went (Parts k tokens) w (releases (occupant ((shelf k).slots s) name) w) := by
  refine ⟨_, fun token ht => ?_, releases_went _ w⟩
  obtain ⟨owner, ho, hholding⟩ := List.mem_flatMap.mp ht
  exact ⟨owner, mem_occupant ho, hholding⟩

/-- A step that manages owners does nothing to the world but to part with what slots hold. -/
theorem managed_parts {step : OwnerStep} {result : EStateM.Result Fault Session Answer}
    (h : Managed k s step result) :
    ∃ tokens, Kept s tokens ∧ Went (Parts k tokens) s.world (final result).world := by
  cases h with
  | missing | asked => exact ⟨[], nofun, .refl⟩
  | forgotten h =>
    simp only [final, shelf_put_world]
    exact ⟨[], nofun, .refl⟩
  | @moved source owner target h =>
    simp only [final, shelf_put_world]
    by_cases hst : source = target
    · rw [Slots.move, if_pos hst]
      exact ⟨[], nofun, .refl⟩
    · rw [move_world hst]
      exact occupant_parts k s target s.world
  | @dropped name owner h =>
    simp only [final, shelf_put_world]
    exact ⟨_, fun token ht => ⟨owner, mem_values h, ht⟩, release_went owner s.world⟩

/-- How a step that produces an owner can end. The new owner is in its slot before the old one is
released, and if there is no new one, then the old one stays. -/
inductive Produced (k : OwnerKind) (keep : String) (s : Session) (st : Step) :
    EStateM.Result Fault Session Answer → Prop
  | failed {fault : Fault} {after : Session} (h : Rested Ordinary s after) :
      Produced k keep s st (.error fault after)
  | placed {new : Owned k} {w : World} (hg : Grew Ordinary s.world w)
      (hc : created k s st (Owner.handle new) = some new) :
      Produced k keep s st (.ok (.handle (Owner.handle new))
        ((shelf k).put s (((shelf k).slots s).set keep new)
          (releases (occupant ((shelf k).slots s) keep) w)))

/-- A new owner takes its slot, and then the old one is released. -/
theorem receive_ok {op : Op (Owned k)} {new : Owned k} {w : World} (keep : String)
    (h : op s.world = .ok new w) :
    (shelf k).receive op keep s = .ok (.handle (Owner.handle new))
      ((shelf k).put s (((shelf k).slots s).set keep new)
        (releases (occupant ((shelf k).slots s) keep) w)) := by
  have hrun : Act.run op s = .ok new { s with world := w } := by
    simp only [Act.run, h]
  unfold Shelf.receive
  rw [bind_ok hrun, ← place_slots _ keep new w, ← place_world _ keep new w]
  cases k <;> rfl

theorem receive_error {op : Op (Owned k)} {f : Failure} {w : World} (keep : String)
    (h : op s.world = .error f w) :
    (shelf k).receive op keep s = .error (.failed f) { s with world := w } := by
  have hrun : Act.run op s = .error (.failed f) { s with world := w } := by
    simp only [Act.run, h]
  unfold Shelf.receive
  rw [bind_error hrun]

/-- A creation hands on the new handle, if there is one. Nothing can fail after that. -/
theorem create_eq (kind : ResourceKind) (display : Handle) (what : String) (c : Call)
    (w : World) :
    Resource.create kind display what (.handle c) w =
      if (w.exchange c).1.ret = 0 then
        .error (.coded (.ofEntry c.entry) (.ofString what)) (w.exchange c).2
      else
        .ok ⟨display, (w.exchange c).1.ret⟩
          ((w.exchange c).2.note (.created kind (w.exchange c).1.ret)) := by
  rcases hx : w.exchange c with ⟨reply, after⟩
  have hread : (Request.handle c).read reply =
      if reply.ret = 0 then .error (.ofEntry c.entry) else .ok reply.ret := rfl
  unfold Resource.create
  by_cases hz : reply.ret = 0
  · rw [if_pos hz] at hread
    rw [bind_error (require_error (q := .handle c) hx hread), if_pos hz]
  · rw [if_neg hz] at hread
    rw [bind_ok (require_ok (q := .handle c) hx hread), if_neg hz]
    rfl

theorem create_display {kind : ResourceKind} {display : Handle} {what : String} {c : Call}
    {w after : World} {new : Resource kind}
    (h : Resource.create kind display what (.handle c) w = .ok new after) :
    new = ⟨display, new.handle⟩ := by
  rw [create_eq] at h
  split at h
  case isTrue => cases h
  case isFalse =>
    cases h
    rfl

/-- The operation by which a step produces an owner, on the display in the slot that it names. -/
inductive Supplies (s : Session) : Step → (k : OwnerKind) → Op (Owned k) → Prop
  | connect (keep : String) (id : Handle) :
    Supplies s (.connect keep id) .display (Display.connect id)
  | createContext {display : String} {d : Display} (hd : s.displays.get? display = some d)
      (operand : ConfigOperand) (config : ConfigRef) (keep : String) (version : Option Int32) :
    Supplies s (.createContext display operand keep version) .context
      (d.createContext config version)
  | createWindowSurface {display : String} {d : Display} (hd : s.displays.get? display = some d)
      (operand : ConfigOperand) (config : ConfigRef) (window : Handle) (keep : String) :
    Supplies s (.createWindowSurface display operand window keep) .surface
      (d.createWindowSurface config window)
  | createPixmapSurface {display : String} {d : Display} (hd : s.displays.get? display = some d)
      (operand : ConfigOperand) (config : ConfigRef) (pixmap : Handle) (keep : String) :
    Supplies s (.createPixmapSurface display operand pixmap keep) .surface
      (d.createPixmapSurface config pixmap)
  | createPbufferSurface {display : String} {d : Display} (hd : s.displays.get? display = some d)
      (operand : ConfigOperand) (config : ConfigRef) (attributes : List Int32) (keep : String) :
    Supplies s (.createPbufferSurface display operand attributes keep) .surface
      (d.createPbufferSurface config attributes)

/-- A context or surface is produced on the display in a slot, once the config is known. -/
theorem on_display (op : Display → ConfigRef → Op (Owned k)) (display keep : String)
    (config : ConfigOperand)
    (h : ∀ d c, s.displays.get? display = some d → Supplies s st k (op d c)) :
    (∃ fault, (do
      let d ← Act.resolve Session.displays display
      let c ← Act.config config
      (shelf k).receive (op d c) keep) s = .error fault s) ∨
    ∃ made, Supplies s st k made ∧ (do
      let d ← Act.resolve Session.displays display
      let c ← Act.config config
      (shelf k).receive (op d c) keep) s = (shelf k).receive made keep s := by
  rcases resolve_eq Session.displays display s with ⟨d, hd, hres⟩ | ⟨-, hres⟩
  · rw [bind_ok hres]
    rcases config_eq config s with ⟨c, hconf⟩ | ⟨fault, hconf⟩
    · rw [bind_ok hconf]
      exact .inr ⟨op d c, h d c hd, rfl⟩
    · rw [bind_error hconf]
      exact .inl ⟨fault, rfl⟩
  · rw [bind_error hres]
    exact .inl ⟨.noSuchSlot, rfl⟩

/-- A step that produces an owner names something that is not there, or it does nothing but to put
what its operation makes into a slot. -/
theorem supplied {keep : String} (hm : manner st = .produces k keep) (s : Session) :
    (∃ fault, st.act s = .error fault s) ∨
      ∃ op, Supplies s st k op ∧ st.act s = (shelf k).receive op keep s := by
  cases st <;> cases hm
  case connect id => exact .inr ⟨_, .connect keep id, rfl⟩
  case createContext display config version =>
    exact on_display (k := .context) (fun d c => d.createContext c version) display keep
      config fun d c hd => .createContext hd config c keep version
  case createWindowSurface display config window =>
    exact on_display (k := .surface) (fun d c => d.createWindowSurface c window) display keep
      config fun d c hd => .createWindowSurface hd config c window keep
  case createPixmapSurface display config pixmap =>
    exact on_display (k := .surface) (fun d c => d.createPixmapSurface c pixmap) display keep
      config fun d c hd => .createPixmapSurface hd config c pixmap keep
  case createPbufferSurface display config attributes =>
    exact on_display (k := .surface) (fun d c => d.createPbufferSurface c attributes) display
      keep config fun d c hd => .createPbufferSurface hd config c attributes keep

/-- A call that gives nothing back, and passes on no context and no surface. -/
structure Plain (c : Call) : Prop where
  spares : givesBack c.entry = false
  null : ∀ p ∈ handed c, p.2 = 0

theorem Plain.of_none {c : Call} (hs : givesBack c.entry = false) (hn : handed c = []) :
    Plain c := by
  refine ⟨hs, fun p hp => ?_⟩
  rw [hn] at hp
  cases hp

theorem Supplies.confined {op : Op (Owned k)} (h : Supplies s st k op) : Confined Plain op := by
  cases h with
  | connect keep id => exact connect_confined (.of_none rfl rfl)
  | createContext hd operand config keep version =>
    refine create_confined _ _ ⟨rfl, fun p hp => ?_⟩
    -- A new context shares nothing.
    rw [List.mem_singleton.mp hp]
  | createWindowSurface => exact create_confined _ _ (.of_none rfl rfl)
  | createPixmapSurface => exact create_confined _ _ (.of_none rfl rfl)
  | createPbufferSurface => exact create_confined _ _ (.of_none rfl rfl)

theorem Supplies.created {op : Op (Owned k)} {w : World} {new : Owned k} (h : Supplies s st k op)
    (hop : op s.world = .ok new w) : created k s st (Owner.handle new) = some new := by
  cases h with
  | connect => rfl
  | createContext hd | createWindowSurface hd | createPixmapSurface hd | createPbufferSurface hd =>
    rw [create_display hop, Proofs.created, hd]
    rfl

theorem produced {keep : String} (hm : manner st = .produces k keep) (s : Session) :
    Produced k keep s st (st.act s) := by
  rcases supplied hm s with ⟨fault, hact⟩ | ⟨op, hop, hact⟩
  · rw [hact]
    exact .failed (.refl _ s)
  · rw [hact]
    have hw : Grew Ordinary s.world (final (op s.world)) :=
      (hop.confined s.world).grew.mono fun _ he => he.ordinary fun _ hc => hc.spares
    cases ho : op s.world with
    | ok new w =>
      rw [ho] at hw
      rw [receive_ok keep ho]
      exact .placed hw (hop.created ho)
    | error f w =>
      rw [ho] at hw
      rw [receive_error keep ho]
      exact .failed (.of_world hw)

end Egl.Proofs
