import Egl.Backend.Answer

namespace Egl.Proofs

open Backend (Attributes configHandle)

variable {b : Backend} {wanted : Attributes → Bool}

/-- The places of the configs that are wanted. -/
def located (b : Backend) (wanted : Attributes → Bool) : List Nat :=
  (b.configs.zipIdx.filter fun (config, _) => wanted config).map Prod.snd

theorem mem_located {i : Nat} :
    i ∈ located b wanted ↔ ∃ config, b.configs[i]? = some config ∧ wanted config = true := by
  simp only [located, List.mem_map, List.mem_filter, Prod.exists]
  constructor
  · rintro ⟨config, j, ⟨hm, hw⟩, rfl⟩
    exact ⟨config, List.mk_mem_zipIdx_iff_getElem?.mp hm, hw⟩
  · rintro ⟨config, hi, hw⟩
    exact ⟨config, i, ⟨List.mk_mem_zipIdx_iff_getElem?.mpr hi, hw⟩, rfl⟩

theorem located_ascending (b : Backend) (wanted : Attributes → Bool) :
    (located b wanted).Pairwise (· < ·) := by
  have hs : List.Sublist (located b wanted) (b.configs.zipIdx.map Prod.snd) :=
    List.Sublist.map Prod.snd List.filter_sublist
  refine List.Pairwise.sublist hs ?_
  rw [List.zipIdx_map_snd]
  exact List.pairwise_lt_range'

theorem located_length_le (b : Backend) (wanted : Attributes → Bool) :
    (located b wanted).length ≤ b.configs.length := by
  unfold located
  rw [List.length_map]
  exact Nat.le_trans (List.length_filter_le _ _) (Nat.le_of_eq List.length_zipIdx)

/-- If every config is wanted, then so is every place. -/
theorem located_all (b : Backend) : located b (fun _ => true) = List.range b.configs.length := by
  have hf : (b.configs.zipIdx.filter fun (_, _) => true) = b.configs.zipIdx :=
    List.filter_eq_self.mpr fun _ _ => rfl
  rw [located, hf, List.zipIdx_map_snd, List.range_eq_range']

theorem matching_located (b : Backend) (request : List (Int32 × Int32)) :
    b.matching request = (located b (·.satisfies request)).map configHandle := by
  simp [Backend.matching, located, List.map_map, Function.comp_def]

end Egl.Proofs
