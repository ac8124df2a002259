import Egl.Proofs.Journal

namespace Egl.Proofs

variable {e : EntryPoint} {w after : World}

/-- Calls to an entry point reach the in-memory implementation, and are not switched to fail. -/
structure Unhindered (e : EntryPoint) (w : World) : Prop where
  recording : Recording w
  unscripted : ∀ item ∈ w.script.pending e, item = none
  working : e ∉ w.backend.failures

theorem next_unscripted {s : Script} (h : ∀ item ∈ s.pending e, item = none) :
    (s.next e).1 = none ∧ ∀ item ∈ (s.next e).2.pending e, item = none := by
  unfold Script.next
  cases hp : s.pending e with
  | nil => exact ⟨rfl, by simp [hp]⟩
  | cons item rest =>
    rw [hp] at h
    refine ⟨h item (by simp), ?_⟩
    simpa using fun i hi => h i (by simp [hi])

/-- A call without an answer in the script is left to the implementation. -/
theorem exchange_unscripted (h : Recording w) {c : Call} (hn : (w.script.next c.entry).1 = none) :
    (w.exchange c).1 = (w.backend.answer c).1 ∧
      (w.exchange c).2.backend = (w.backend.answer c).2 ∧
      (w.exchange c).2.script = (w.script.next c.entry).2 := by
  have ht : ¬ w.table = .native := h
  have hw : w.answer c = ((w.backend.answer c).1,
      { w with script := (w.script.next c.entry).2, backend := (w.backend.answer c).2 }) := by
    unfold World.answer
    split
    case h_1 hs => rw [hs] at hn; cases hn
    case h_2 hs => rw [hs]
  simp only [World.exchange, ht, if_false, hw, World.record, true_and]

/-- A call with an answer in the script gets that one. -/
theorem exchange_scripted (h : Recording w) {c : Call} {reply : Reply}
    (hn : (w.script.next c.entry).1 = some reply) : (w.exchange c).1 = reply := by
  have ht : ¬ w.table = .native := h
  have hw : (w.answer c).1 = reply := by
    unfold World.answer
    split
    case h_1 hs =>
      rw [hs] at hn
      exact Option.some.inj hn
    case h_2 hs =>
      rw [hs] at hn
      cases hn
  simp only [World.exchange, ht, if_false, hw]

/-- The implementation after a call was counted. -/
def reach (b : Backend) (e : EntryPoint) : Backend := { b with reached := e :: b.reached }

theorem answer_working {b : Backend} {c : Call} (hc : c.entry.canFail = true)
    (hf : c.entry ∉ b.failures) : b.answer c = (reach b c.entry).respond c := by
  simp only [Backend.answer, hc, if_true, hf, if_false, reach]

theorem answer_switched {b : Backend} {c : Call} (hc : c.entry.canFail = true)
    (hf : c.entry ∈ b.failures) : b.answer c = (.null, reach b c.entry) := by
  simp only [Backend.answer, hc, if_true, hf, reach]

/-- A call that nothing hinders gets the implementation's own answer. -/
theorem exchange_unhindered {c : Call} (h : Unhindered c.entry w) (hc : c.entry.canFail = true) :
    (w.exchange c).1 = ((reach w.backend c.entry).respond c).1 ∧
      (w.exchange c).2.backend = ((reach w.backend c.entry).respond c).2 ∧
      ∀ item ∈ (w.exchange c).2.script.pending c.entry, item = none := by
  obtain ⟨hnone, hrest⟩ := next_unscripted h.unscripted
  obtain ⟨hreply, hbackend, hscript⟩ := exchange_unscripted h.recording hnone
  rw [answer_working hc h.working] at hreply hbackend
  rw [hscript]
  exact ⟨hreply, hbackend, hrest⟩

/-- After such a call, the next one is not hindered either, unless the answer changed a switch. -/
theorem unhindered_exchange {c : Call} (h : Unhindered c.entry w) (hc : c.entry.canFail = true)
    (hf : ((reach w.backend c.entry).respond c).2.failures = w.backend.failures) :
    Unhindered c.entry (w.exchange c).2 where
  recording := exchange_recording h.recording rfl
  unscripted := (exchange_unhindered h hc).2.2
  working := by
    rw [(exchange_unhindered h hc).2.1, hf]
    exact h.working

end Egl.Proofs
