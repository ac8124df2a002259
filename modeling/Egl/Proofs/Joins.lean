import Mathlib.Data.List.Basic

namespace Egl.Proofs

variable {α : Type} {x : α} {tail : List α}

theorem append_cons_injective {l m rest other : List α} (hl : x ∉ l) (hm : x ∉ m)
    (h : l ++ x :: rest = m ++ x :: other) : l = m ∧ rest = other := by
  rcases List.append_eq_append_iff.mp h with ⟨gap, rfl, hgap⟩ | ⟨gap, rfl, hgap⟩
  · cases gap with
    | nil => exact ⟨(List.append_nil l).symm, (List.cons.inj hgap).2⟩
    | cons first gap =>
      obtain ⟨rfl, -⟩ := List.cons.inj hgap
      exact absurd (List.mem_append_right l List.mem_cons_self) hm
  · cases gap with
    | nil => exact ⟨List.append_nil m, (List.cons.inj hgap).2.symm⟩
    | cons first gap =>
      obtain ⟨rfl, -⟩ := List.cons.inj hgap
      exact absurd (List.mem_append_right m List.mem_cons_self) hl

theorem intercalate_two (l m : List α) (rest : List (List α)) :
    (x :: tail).intercalate (l :: m :: rest) =
      l ++ x :: (tail ++ (x :: tail).intercalate (m :: rest)) := by
  simp only [List.intercalate_cons_cons, List.append_assoc, List.cons_append]

/-- The first part ends where the separator starts, and the others follow it. -/
theorem intercalate_injective {ls ms : List (List α)} (hl : ls ≠ []) (hm : ms ≠ [])
    (hls : ∀ l ∈ ls, x ∉ l) (hms : ∀ m ∈ ms, x ∉ m)
    (h : (x :: tail).intercalate ls = (x :: tail).intercalate ms) : ls = ms := by
  induction ls generalizing ms with
  | nil => exact absurd rfl hl
  | cons l ls ih =>
    obtain ⟨m, ms, rfl⟩ := List.exists_cons_of_ne_nil hm
    have hlx : x ∉ l := hls l List.mem_cons_self
    have hmx : x ∉ m := hms m List.mem_cons_self
    cases ls with
    | nil =>
      cases ms with
      | nil => simpa using h
      | cons other ms =>
        rw [intercalate_two, List.intercalate_singleton] at h
        exact absurd (by rw [h]; simp) hlx
    | cons next ls =>
      cases ms with
      | nil =>
        rw [intercalate_two, List.intercalate_singleton] at h
        exact absurd (by rw [← h]; simp) hmx
      | cons other ms =>
        rw [intercalate_two, intercalate_two] at h
        obtain ⟨rfl, hrest⟩ := append_cons_injective hlx hmx h
        have hnext := @ih (other :: ms) nofun nofun
          (fun a ha => hls a (List.mem_cons_of_mem _ ha))
          (fun a ha => hms a (List.mem_cons_of_mem _ ha)) (List.append_cancel_left hrest)
        rw [hnext]

theorem mem_intercalate {sep : List α} {ls : List (List α)} {a : α}
    (h : a ∈ sep.intercalate ls) : a ∈ sep ∨ ∃ l ∈ ls, a ∈ l := by
  induction ls with
  | nil => cases h
  | cons l ls ih =>
    cases ls with
    | nil =>
      rw [List.intercalate_singleton] at h
      exact .inr ⟨l, List.mem_cons_self, h⟩
    | cons next ls =>
      rw [List.intercalate_cons_cons, List.append_assoc, List.mem_append, List.mem_append] at h
      rcases h with h | h | h
      · exact .inr ⟨l, List.mem_cons_self, h⟩
      · exact .inl h
      · rcases ih h with hs | ⟨m, hm, ha⟩
        · exact .inl hs
        · exact .inr ⟨m, List.mem_cons_of_mem _ hm, ha⟩

/-- Joined texts are equal only if their parts are. -/
theorem join_injective {sep : String} {first : Char} {others : List Char} {ls ms : List String}
    (hs : sep.toList = first :: others) (hl : ls ≠ []) (hm : ms ≠ [])
    (hls : ∀ l ∈ ls, first ∉ l.toList) (hms : ∀ m ∈ ms, first ∉ m.toList)
    (h : String.intercalate sep ls = String.intercalate sep ms) : ls = ms := by
  have hchars := congrArg String.toList h
  rw [String.toList_intercalate, String.toList_intercalate, hs] at hchars
  have hparts : ls.map String.toList = ms.map String.toList := by
    apply intercalate_injective _ _ _ _ hchars
    · rwa [ne_eq, List.map_eq_nil_iff]
    · rwa [ne_eq, List.map_eq_nil_iff]
    · simpa using hls
    · simpa using hms
  exact List.map_inj_right (fun _ _ => String.toList_inj.mp) |>.mp hparts

theorem mem_join {sep : String} {ls : List String} {ch : Char}
    (h : ch ∈ (String.intercalate sep ls).toList) : ch ∈ sep.toList ∨ ∃ l ∈ ls, ch ∈ l.toList := by
  rw [String.toList_intercalate] at h
  rcases mem_intercalate h with hs | ⟨_, hpart, hch⟩
  · exact .inl hs
  · obtain ⟨l, hl, rfl⟩ := List.mem_map.mp hpart
    exact .inr ⟨l, hl, hch⟩

end Egl.Proofs
