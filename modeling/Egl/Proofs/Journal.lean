import Egl.Session.Run

namespace Egl.Proofs

variable {α β ε σ : Type} {w after : World} {sort other : Event → Prop}

/-- What a program leaves behind, whether it ended with a value or with an error. -/
def final : EStateM.Result ε σ α → σ
  | .ok _ s => s
  | .error _ s => s

/-- The name of an entry point, as what a failure is about. -/
def entryName (e : EntryPoint) : Bytes := .ofString e.name

/-- Calls are recorded, since they do not go through the native table. -/
def Recording (w : World) : Prop := w.table ≠ .native

instance (w : World) : Decidable (Recording w) := inferInstanceAs (Decidable (w.table ≠ .native))

theorem Recording.of_table (h : Recording w) (ht : after.table = w.table) : Recording after := by
  unfold Recording
  rwa [ht]

/-- The journal only grew, by events of one sort, and a recording table is still in place. This says
nothing about the implementation. -/
structure Grew (sort : Event → Prop) (w after : World) : Prop where
  recording : Recording w → Recording after
  journal : ∃ events, after.journal = w.journal ++ events ∧ ∀ e ∈ events, sort e

theorem Grew.refl (sort : Event → Prop) (w : World) : Grew sort w w :=
  ⟨id, [], by simp, by simp⟩

theorem Grew.trans {mid : World} (h : Grew sort w mid) (h' : Grew sort mid after) :
    Grew sort w after := by
  obtain ⟨first, hf, hs⟩ := h.journal
  obtain ⟨last, hl, hs'⟩ := h'.journal
  refine ⟨fun hr => h'.recording (h.recording hr), first ++ last, ?_, ?_⟩
  · rw [hl, hf, List.append_assoc]
  · intro e he
    rcases List.mem_append.mp he with he | he
    · exact hs e he
    · exact hs' e he

theorem Grew.mono (h : Grew sort w after) (hs : ∀ e, sort e → other e) : Grew other w after := by
  obtain ⟨events, he, ha⟩ := h.journal
  exact ⟨h.recording, events, he, fun e hm => hs e (ha e hm)⟩

/-- A journal that starts empty ends with the new events alone. -/
theorem Grew.of_empty (h : Grew sort w after) (hw : w.journal = []) :
    ∀ e ∈ after.journal, sort e := by
  obtain ⟨events, he, ha⟩ := h.journal
  rwa [he, hw, List.nil_append]

theorem note_table (w : World) (n : Notice) : (w.note n).table = w.table := rfl

theorem note_journal (w : World) (n : Notice) : (w.note n).journal = w.journal ++ [.notice n] := rfl

theorem answer_installed (w : World) (c : Call) : (w.answer c).2.installed = w.installed := by
  unfold World.answer
  split <;> rfl

theorem answer_journal (w : World) (c : Call) : (w.answer c).2.journal = w.journal := by
  unfold World.answer
  split <;> rfl

theorem exchange_native (h : w.table = .native) (c : Call) :
    w.exchange c = ((w.library.answer c).1, { w with library := (w.library.answer c).2 }) := by
  simp [World.exchange, h]

theorem exchange_installed (w : World) (c : Call) : (w.exchange c).2.installed = w.installed := by
  unfold World.exchange
  split
  · rfl
  · exact answer_installed w c

theorem exchange_table (w : World) (c : Call) : (w.exchange c).2.table = w.table := by
  rw [World.table, exchange_installed, World.table]

/-- A recorded call is one event, with the reply that the caller saw. -/
theorem exchange_journal (h : Recording w) (c : Call) :
    (w.exchange c).2.journal = w.journal ++ [.call w.table c (w.exchange c).1] := by
  have hn : ¬ w.table = .native := h
  simp only [World.exchange, hn, if_false, World.record, answer_journal]

/-- A recorded call does not get to the library. -/
theorem exchange_library (h : Recording w) (c : Call) : (w.exchange c).2.library = w.library := by
  have hn : ¬ w.table = .native := h
  simp only [World.exchange, hn, if_false, World.record]
  unfold World.answer
  split <;> rfl

theorem exchange_recording (h : Recording w) {c : Call} {reply : Reply}
    (hw : w.exchange c = (reply, after)) : Recording after := by
  have ht := exchange_table w c
  rw [hw] at ht
  exact h.of_table ht

theorem exchange_calls (h : Recording w) {c : Call} {reply : Reply}
    (hw : w.exchange c = (reply, after)) : after.calls = w.calls ++ [c] := by
  have hj := exchange_journal h c
  simp only [hw] at hj
  simp [World.calls, hj]

theorem exchange_log {c : Call} {reply : Reply} (hw : w.exchange c = (reply, after)) :
    after.log = w.log := by
  by_cases h : Recording w
  · have hj := exchange_journal h c
    simp only [hw] at hj
    simp [World.log, hj]
  · have hn : w.table = .native := Classical.not_not.mp h
    rw [exchange_native hn] at hw
    obtain rfl := (Prod.mk.inj hw).2
    rfl

theorem note_calls (w : World) (n : Notice) : (w.note n).calls = w.calls := by
  simp [World.calls, note_journal]

theorem note_log (w : World) (n : Notice) : (w.note n).log = w.log ++ [n] := by
  simp [World.log, note_journal]

theorem perform_table (w : World) (q : Request α) : (w.perform q).2.table = w.table :=
  exchange_table w q.call

theorem perform_journal (h : Recording w) (q : Request α) :
    (w.perform q).2.journal = w.journal ++ [.call w.table q.call (w.exchange q.call).1] :=
  exchange_journal h q.call

theorem note_grew (w : World) {n : Notice} (h : sort (.notice n)) : Grew sort w (w.note n) :=
  ⟨id, [.notice n], note_journal w n, by simpa using h⟩

theorem bind_ok {program : EStateM ε σ α} {a : α} {s mid : σ} (h : program s = .ok a mid)
    (next : α → EStateM ε σ β) : (program >>= next) s = next a mid := by
  change EStateM.bind program next s = _
  simp only [EStateM.bind, h]

theorem bind_error {program : EStateM ε σ α} {e : ε} {s mid : σ} (h : program s = .error e mid)
    (next : α → EStateM ε σ β) : (program >>= next) s = .error e mid := by
  change EStateM.bind program next s = _
  simp only [EStateM.bind, h]

theorem of_bind_ok {program : EStateM ε σ α} {next : α → EStateM ε σ β} {b : β} {s after : σ}
    (h : (program >>= next) s = .ok b after) :
    ∃ a mid, program s = .ok a mid ∧ next a mid = .ok b after := by
  cases hp : program s with
  | ok a mid =>
    rw [bind_ok hp] at h
    exact ⟨a, mid, rfl, h⟩
  | error e mid =>
    rw [bind_error hp] at h
    cases h

theorem perform_eq {q : Request α} {reply : Reply} (h : w.exchange q.call = (reply, after)) :
    Op.perform q w = .ok (q.read reply) after := by
  simp only [Op.perform, World.perform, h]

theorem accept_ok (subject : Bytes) (a : α) (w : World) :
    Op.accept subject (.ok a) w = .ok a w := rfl

theorem require_ok {what : String} {q : Request (Outcome α)} {reply : Reply} {a : α}
    (h : w.exchange q.call = (reply, after)) (hr : q.read reply = .ok a) :
    Op.require what q w = .ok a after := by
  unfold Op.require Op.requireAs
  rw [bind_ok (perform_eq h), hr]
  rfl

theorem require_error {what : String} {q : Request (Outcome α)} {reply : Reply} {code : ErrorCode}
    (h : w.exchange q.call = (reply, after)) (hr : q.read reply = .error code) :
    Op.require what q w = .error (.coded code (.ofString what)) after := by
  unfold Op.require Op.requireAs
  rw [bind_ok (perform_eq h), hr]
  rfl

theorem of_require_ok {what : String} {q : Request (Outcome α)} {a : α}
    (h : Op.require what q w = .ok a after) :
    q.read (w.exchange q.call).1 = .ok a ∧ after = (w.exchange q.call).2 := by
  cases hr : q.read (w.exchange q.call).1 with
  | ok value =>
    rw [require_ok rfl hr] at h
    cases h
    exact ⟨rfl, rfl⟩
  | error code =>
    rw [require_error rfl hr] at h
    cases h

/-- An operation only adds events of one sort, however it ends. -/
def Adds (sort : Event → Prop) (op : Op α) : Prop := ∀ w, Grew sort w (final (op w))

end Egl.Proofs
