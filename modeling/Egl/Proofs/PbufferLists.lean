import Egl.Proofs.Courses

namespace Egl.Proofs

variable {α : Type} {w : World}

/-- Some pairs, one behind the other and without a terminator. -/
def laid (pairs : List (α × α)) : List α := pairs.flatMap fun (a, v) => [a, v]

theorem laid_getLast? (pairs : List (α × α)) :
    (laid pairs).getLast? = pairs.getLast?.map Prod.snd := by
  rcases List.eq_nil_or_concat pairs with rfl | ⟨front, p, rfl⟩
  · rfl
  · simp [laid]

variable [DecidableEq α] {stop : α}

/-- The reader takes up some pairs and goes on behind them. -/
theorem read?_laid_append {pairs : List (α × α)} (h : ∀ p ∈ pairs, p.1 ≠ stop) (rest : List α) :
    AttributeList.read? stop (laid pairs ++ rest) =
      (AttributeList.read? stop rest).map fun (more, after) => (pairs ++ more, after) := by
  induction pairs with
  | nil => simp [laid]
  | cons p pairs ih =>
    obtain ⟨a, v⟩ := p
    have ha : a ≠ stop := h (a, v) (by simp)
    have ht := ih fun q hq => h q (by simp [hq])
    have hl : laid ((a, v) :: pairs) ++ rest = a :: v :: (laid pairs ++ rest) := rfl
    rw [hl, AttributeList.read?, if_neg ha, ht, Option.map_map]
    rfl

/-- Pairs alone have no end that the reader could find. -/
theorem read?_laid {pairs : List (α × α)} (h : ∀ p ∈ pairs, p.1 ≠ stop) :
    AttributeList.read? stop (laid pairs) = none := by
  have hr := read?_laid_append h []
  rwa [List.append_nil] at hr

/-- The last value of some pairs is the code of the terminator, so that they look terminated. -/
def Feigns (stop : α) (pairs : List (α × α)) : Prop := pairs.getLast?.map Prod.snd = some stop

instance (stop : α) (pairs : List (α × α)) : Decidable (Feigns stop pairs) :=
  inferInstanceAs (Decidable (_ = _))

theorem closed_laid {pairs : List (α × α)} (h : ¬ Feigns stop pairs) :
    AttributeList.closed stop (laid pairs) = AttributeList.write stop pairs := by
  rw [AttributeList.closed, if_neg]
  · rfl
  · rwa [laid_getLast?]

theorem closed_feigned {pairs : List (α × α)} (h : Feigns stop pairs) :
    AttributeList.closed stop (laid pairs) = laid pairs := by
  rw [AttributeList.closed, if_pos]
  rwa [laid_getLast?]

theorem closed_write (stop : α) (pairs : List (α × α)) :
    AttributeList.closed stop (AttributeList.write stop pairs) =
      AttributeList.write stop pairs := by
  rw [AttributeList.closed, if_pos]
  simp [AttributeList.write]

/-- A creation makes one call, whatever comes of it. -/
theorem create_calls (h : Recording w) (kind : ResourceKind) (display : Handle) (what : String)
    (c : Call) :
    (final (Resource.create kind display what (.handle c) w)).calls = w.calls ++ [c] := by
  have hc : (w.exchange c).2.calls = w.calls ++ [c] := exchange_calls h rfl
  rw [create_eq]
  split
  · exact hc
  · exact (note_calls _ _).trans hc

/-- The list that goes with the one call for a surface off screen. If pairs are given with their
terminator, or with a last value other than its code, the list reads as these pairs. Otherwise the
list is passed on as it is, and has no end for a reader. -/
theorem pbuffer_list_passed {d : Display} {config : ConfigRef} {pairs : List (Int32 × Int32)}
    {given : List Int32} (h : ∀ p ∈ pairs, p.1 ≠ Code.none)
    (hg : given = laid pairs ∨ given = AttributeList.write Code.none pairs) (hr : Recording w) :
    ∃ passed, (final (d.createPbufferSurface config given w)).calls =
        w.calls ++ [.createPbufferSurface d.handle config.handle (some passed)] ∧
      (¬ (given = laid pairs ∧ Feigns Code.none pairs) →
        AttributeList.read? Code.none passed = some (pairs, [])) ∧
      (given = laid pairs ∧ Feigns Code.none pairs →
        passed = given ∧ AttributeList.read? Code.none passed = none) := by
  refine ⟨AttributeList.closed Code.none given, create_calls hr _ _ _ _, fun hf => ?_, ?_⟩
  · have hw : AttributeList.closed Code.none given = AttributeList.write Code.none pairs := by
      rcases hg with rfl | rfl
      · exact closed_laid fun hl => hf ⟨rfl, hl⟩
      · exact closed_write _ _
    rw [hw]
    exact AttributeList.read?_write h
  · rintro ⟨rfl, hf⟩
    rw [closed_feigned hf]
    exact ⟨rfl, read?_laid h⟩

theorem pbuffer_list_passed_size :
    ∃ passed, (final ((Display.mk 208).createPbufferSurface ⟨208, 1⟩
        [Code.width, 640, Code.height, Code.none, Code.none] {})).calls =
        [.createPbufferSurface 208 1 (some passed)] ∧
      AttributeList.read? Code.none passed =
        some ([(Code.width, 640), (Code.height, Code.none)], []) := by
  have h : ∀ p ∈ [(Code.width, 640), (Code.height, Code.none)], p.1 ≠ Code.none := by
    simp [Code.width, Code.height, Code.none]
  obtain ⟨passed, hcalls, hread, -⟩ :=
    @pbuffer_list_passed {} ⟨208⟩ ⟨208, 1⟩ _ _ h (.inr rfl) (by decide)
  exact ⟨passed, hcalls, hread (by decide)⟩

/-- A width that is the code of the terminator is taken for one. -/
theorem width_taken_for_end :
    (final ((Display.mk 208).createPbufferSurface ⟨208, 1⟩ [Code.width, Code.none] {})).calls =
        [.createPbufferSurface 208 1 (some [Code.width, Code.none])] ∧
      laid [(Code.width, Code.none)] = [Code.width, Code.none] ∧
      AttributeList.read? Code.none [Code.width, Code.none] = none := by
  decide

end Egl.Proofs
