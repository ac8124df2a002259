import Egl.Proofs.Journal

namespace Egl.Proofs

variable {α β : Type} {w mid after : World} {sort other : Event → Prop}

/-- Calls and lines of one sort lead from one world to another. Behind a table that records nothing,
a call is of its sort all the same. -/
inductive Went (sort : Event → Prop) (w : World) : World → Prop
  | refl : Went sort w w
  | call {mid : World} (h : Went sort w mid) (c : Call)
      (hs : sort (.call mid.table c (mid.exchange c).1)) : Went sort w (mid.exchange c).2
  | note {mid : World} (h : Went sort w mid) (n : Notice) (hs : sort (.notice n)) :
      Went sort w (mid.note n)

theorem Went.trans (h : Went sort w mid) (h' : Went sort mid after) : Went sort w after := by
  induction h' with
  | refl => exact h
  | call _ c hs ih => exact .call ih c hs
  | note _ n hs ih => exact .note ih n hs

/-- What every step of a kind keeps holds in the end if it holds at the start. -/
theorem Went.keeps {P : World → Prop} (h : Went sort w after)
    (hcall : ∀ mid c, sort (.call mid.table c (mid.exchange c).1) → P mid → P (mid.exchange c).2)
    (hnote : ∀ mid n, P mid → P (mid.note n)) (hw : P w) : P after := by
  induction h with
  | refl => exact hw
  | call _ c hc ih => exact hcall _ c hc ih
  | note _ n _ ih => exact hnote _ n ih

theorem Went.mono (h : Went sort w after) (hs : ∀ e, sort e → other e) : Went other w after := by
  induction h with
  | refl => exact .refl
  | call _ c hc ih => exact .call ih c (hs _ hc)
  | note _ n hn ih => exact .note ih n (hs _ hn)

theorem exchange_grew (w : World) {c : Call} (h : sort (.call w.table c (w.exchange c).1)) :
    Grew sort w (w.exchange c).2 := by
  refine ⟨fun hr => hr.of_table (exchange_table w c), ?_⟩
  by_cases hr : Recording w
  · exact ⟨_, exchange_journal hr c, by simpa using h⟩
  · have hn : w.table = .native := Classical.not_not.mp hr
    exact ⟨[], by simp [exchange_native hn], by simp⟩

theorem Went.grew (h : Went sort w after) : Grew sort w after := by
  induction h with
  | refl => exact .refl sort w
  | @call mid _ c hs ih => exact ih.trans (exchange_grew mid hs)
  | @note mid _ n hs ih => exact ih.trans (note_grew mid hs)

theorem perform_went (w : World) {q : Request α} (h : ∀ t reply, sort (.call t q.call reply)) :
    Went sort w (w.perform q).2 := .call .refl q.call (h _ _)

theorem note_went (w : World) {n : Notice} (h : sort (.notice n)) : Went sort w (w.note n) :=
  .note .refl n h

/-- An operation does nothing to the world but by calls and lines of one sort, however it ends. -/
def Goes (sort : Event → Prop) (op : Op α) : Prop := ∀ w, Went sort w (final (op w))

theorem Goes.adds {op : Op α} (h : Goes sort op) : Adds sort op := fun w => (h w).grew

theorem Goes.pure (a : α) : Goes sort (pure a) := fun _ => .refl

theorem Goes.throw (f : Failure) : Goes sort (throw f : Op α) := fun _ => .refl

theorem Goes.bind {op : Op α} {next : α → Op β} (h : Goes sort op) (hn : ∀ a, Goes sort (next a)) :
    Goes sort (op >>= next) := by
  intro w
  have hw := h w
  cases ho : op w with
  | ok a mid =>
    rw [ho] at hw
    rw [bind_ok ho]
    exact hw.trans (hn a mid)
  | error f mid =>
    rw [ho] at hw
    rw [bind_error ho]
    exact hw

theorem Goes.mapM {f : α → Op β} (h : ∀ a, Goes sort (f a)) (l : List α) :
    Goes sort (l.mapM f) := by
  induction l with
  | nil => exact .pure []
  | cons a rest ih =>
    rw [List.mapM_cons]
    exact (h a).bind fun b => ih.bind fun bs => .pure (b :: bs)

theorem Goes.perform {q : Request α} (h : ∀ t reply, sort (.call t q.call reply)) :
    Goes sort (Op.perform q) := fun w => perform_went w h

theorem Goes.accept (subject : Bytes) (outcome : Outcome α) :
    Goes sort (Op.accept subject outcome) := by
  intro w
  cases outcome <;> exact .refl

theorem Goes.note {n : Notice} (h : sort (.notice n)) : Goes sort (Op.note n) :=
  fun w => note_went w h

theorem Goes.requireAs {subject : Bytes} {q : Request (Outcome α)}
    (h : ∀ t reply, sort (.call t q.call reply)) : Goes sort (Op.requireAs subject q) :=
  (Goes.perform h).bind fun outcome => .accept subject outcome

theorem Goes.require {what : String} {q : Request (Outcome α)}
    (h : ∀ t reply, sort (.call t q.call reply)) : Goes sort (Op.require what q) := .requireAs h

end Egl.Proofs
