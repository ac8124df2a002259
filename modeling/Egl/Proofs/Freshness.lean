import Egl.Proofs.Accounts
import Egl.Proofs.Serving

namespace Egl.Proofs

variable {k : OwnerKind} {kind : ResourceKind} {sort : Event → Prop} {s : Session} {st : Step}
  {w after : World} {c : Call}

/-- The handle that the next context or surface gets. -/
def next : ResourceKind → Backend → Handle
  | .context, b => b.nextContext
  | .surface, b => b.nextSurface

/-- Which of the two an entry point hands out, if any. -/
def offspring : EntryPoint → Option ResourceKind
  | .createContext => some .context
  | .createPbufferFromClientBuffer | .createPbufferSurface | .createPixmapSurface
  | .createPlatformWindowSurface | .createWindowSurface => some .surface
  | _ => none

/-- How an answer moves the counter of one kind: it hands out the next handle, or it hands out
nothing of the kind and leaves the counter alone. -/
inductive Counts (kind : ResourceKind) (c : Call) (b : Backend) (reply : Reply) (after : Backend) :
    Prop
  | kept (hn : offspring c.entry = some kind → reply.ret = 0) (ha : next kind after = next kind b)
  | drawn (hr : reply.ret = next kind b) (ha : next kind after = next kind b + 1)

theorem Counts.next_le {b other : Backend} {reply : Reply} (h : Counts kind c b reply other) :
    next kind b ≤ next kind other := by
  cases h with
  | kept _ ha => exact ha.ge
  | drawn _ ha => exact (Nat.le_succ _).trans ha.ge

theorem respond_counts (kind : ResourceKind) (b : Backend) (c : Call) :
    Counts kind c b (b.respond c).1 (b.respond c).2 := by
  cases c
  all_goals
    simp only [Backend.respond]
    repeat' split
    all_goals
      cases kind
      all_goals first
        | exact .kept (fun _ => rfl) rfl
        | exact .drawn rfl rfl
        | exact .kept (fun h => by cases h) rfl

theorem answer_counts (kind : ResourceKind) (b : Backend) (c : Call) :
    Counts kind c b (b.answer c).1 (b.answer c).2 := by
  have hreach : next kind (reach b c.entry) = next kind b := by cases kind <;> rfl
  by_cases hc : c.entry.canFail = true
  · by_cases hf : c.entry ∈ b.failures
    · rw [answer_switched hc hf]
      exact .kept (fun _ => rfl) hreach
    · rw [answer_working hc hf]
      cases respond_counts kind (reach b c.entry) c with
      | kept hn ha => exact .kept hn (ha.trans hreach)
      | drawn hr ha => exact .drawn (hr.trans hreach) (by rw [ha, hreach])
  · have ha : b.answer c = b.respond c := if_neg hc
    rw [ha]
    exact respond_counts kind b c

/-- A script that answers keeps the call from the implementation. -/
theorem answer_backend (w : World) (c : Call) :
    (w.answer c).2.backend = w.backend ∨ (w.answer c).2.backend = (w.backend.answer c).2 := by
  unfold World.answer
  split
  · exact .inl rfl
  · exact .inr rfl

theorem answer_script (w : World) (c : Call) :
    (w.answer c).2.script = (w.script.next c.entry).2 := by
  unfold World.answer
  split
  case h_1 hs => rw [hs]
  case h_2 hs => rw [hs]

/-- No call lowers a counter, whoever answers it. -/
theorem exchange_next (kind : ResourceKind) (w : World) (c : Call) :
    next kind w.backend ≤ next kind (w.exchange c).2.backend := by
  unfold World.exchange
  split
  · exact Nat.le_refl _
  · change next kind w.backend ≤ next kind (w.answer c).2.backend
    rcases answer_backend w c with h | h
    · rw [h]
    · rw [h]
      exact (answer_counts kind w.backend c).next_le

theorem Went.next_le (h : Went sort w after) (kind : ResourceKind) :
    next kind w.backend ≤ next kind after.backend :=
  h.keeps (P := fun mid => next kind w.backend ≤ next kind mid.backend)
    (fun mid c _ hle => hle.trans (exchange_next kind mid c)) (fun _ _ hle => hle) (Nat.le_refl _)

/-- The script leaves it to the implementation to hand out contexts and surfaces. -/
def Unscripted (script : Script) : Prop :=
  ∀ e, creates e = true → ∀ item ∈ script.pending e, item = none

theorem exchange_pending {e : EntryPoint} {item : Option Reply}
    (h : item ∈ (w.exchange c).2.script.pending e) : item ∈ w.script.pending e := by
  unfold World.exchange at h
  split at h
  · exact h
  · change item ∈ (w.answer c).2.script.pending e at h
    rw [answer_script] at h
    exact next_pending w.script c.entry e h

theorem Went.unscripted (h : Went sort w after) (hu : Unscripted w.script) :
    Unscripted after.script :=
  h.keeps (P := fun mid => Unscripted mid.script)
    (fun _ _ _ hmid e he item hi => hmid e he item (exchange_pending hi)) (fun _ _ hmid => hmid) hu

/-- A call that hands out something fails or gets the next handle, unless the script answers it. -/
theorem exchange_fresh (hr : Recording w) (hu : Unscripted w.script)
    (hc : offspring c.entry = some kind) (hz : (w.exchange c).1.ret ≠ 0) :
    (w.exchange c).1.ret = next kind w.backend ∧
      next kind (w.exchange c).2.backend = next kind w.backend + 1 := by
  have hcreates : creates c.entry = true := by
    cases he : c.entry <;> rw [he] at hc <;> first | rfl | cases hc
  obtain ⟨hreply, hbackend, -⟩ := exchange_unscripted hr (next_unscripted (hu _ hcreates)).1
  rw [hreply] at hz ⊢
  rw [hbackend]
  cases answer_counts kind w.backend c with
  | kept hn _ => exact absurd (hn hc) hz
  | drawn hret ha => exact ⟨hret, ha⟩

theorem create_fresh {display : Handle} {what : String} {new : Resource kind} (hr : Recording w)
    (hu : Unscripted w.script) (hc : offspring c.entry = some kind)
    (h : Resource.create kind display what (.handle c) w = .ok new after) :
    new.handle = next kind w.backend ∧ next kind after.backend = next kind w.backend + 1 := by
  rw [create_eq] at h
  split at h
  case isTrue => cases h
  case isFalse hz =>
    cases h
    exact exchange_fresh hr hu hc hz

/-- Whatever a step produces is new. -/
theorem Supplies.fresh {op : Op (Owned k)} {new : Owned k} (h : Supplies s st k op)
    (hk : k = ownerKind kind) (hr : Recording w) (hu : Unscripted w.script)
    (hop : op w = .ok new after) :
    Owner.handle new = next kind w.backend ∧
      next kind after.backend = next kind w.backend + 1 := by
  cases h with
  | connect => cases kind <;> cases hk
  | createContext =>
    cases kind <;> cases hk
    exact create_fresh hr hu rfl hop
  | createWindowSurface | createPixmapSurface | createPbufferSurface =>
    cases kind <;> cases hk
    exact create_fresh hr hu rfl hop

end Egl.Proofs
