import Egl.Bitmask
import Egl.Proofs.Joins
import Mathlib.Data.List.Nodup

namespace Egl.Proofs

open Bitmask (contains)

variable {m : Bitmask} {v w : Int32}

/-- All the bits of a list. -/
def union (bits : List Int32) : Int32 := bits.foldr (· ||| ·) 0

theorem and_or_distrib (v a b : Int32) : v &&& (a ||| b) = (v &&& a) ||| (v &&& b) := by
  apply Int32.toBitVec_inj.mp
  simp only [Int32.toBitVec_and, Int32.toBitVec_or]
  ext i
  simp [Bool.and_or_distrib_left]

def Single (bit : Int32) : Prop := ∃ i : Fin 32, bit.toBitVec = .twoPow 32 i

instance (bit : Int32) : Decidable (Single bit) :=
  inferInstanceAs (Decidable (∃ i : Fin 32, bit.toBitVec = .twoPow 32 i))

/-- A value has all of a single bit or nothing of it. -/
theorem and_single {bit : Int32} (h : Single bit) (v : Int32) :
    v &&& bit = if contains v bit then bit else 0 := by
  obtain ⟨i, hi⟩ := h
  by_cases hc : contains v bit = true
  · rw [if_pos hc]
    simpa [contains] using hc
  · rw [if_neg hc]
    apply Int32.toBitVec_inj.mp
    rw [Int32.toBitVec_and, hi, BitVec.and_twoPow]
    split
    · next hbit =>
      refine absurd ?_ hc
      simp only [contains, decide_eq_true_eq]
      apply Int32.toBitVec_inj.mp
      rw [Int32.toBitVec_and, hi, BitVec.and_twoPow, if_pos hbit]
    · rfl

theorem and_union {bits : List Int32} (h : ∀ bit ∈ bits, Single bit) (v : Int32) :
    v &&& union bits = union (bits.filter (contains v)) := by
  induction bits with
  | nil => simp [union]
  | cons bit bits ih =>
    have hrest := ih fun b hb => h b (List.mem_cons_of_mem _ hb)
    have hsplit : v &&& union (bit :: bits) = (v &&& bit) ||| (v &&& union bits) :=
      and_or_distrib v bit (union bits)
    rw [hsplit, and_single (h bit List.mem_cons_self), hrest, List.filter_cons]
    split
    · rfl
    · exact Int32.zero_or

/-- The characters of names. They separate nothing. -/
def nominal (ch : Char) : Bool := ch.isAlphanum || ch = '_'

/-- A mask whose known bits are those that have names, each its own. -/
structure Named (m : Bitmask) : Prop where
  known : m.known = union (m.names.map Prod.fst)
  single : ∀ entry ∈ m.names, Single entry.1
  distinct : (m.names.map Prod.snd).Nodup
  lettered : ∀ name ∈ m.names.map Prod.snd, name.toList.all nominal = true
  /-- No name is the text of no bits. -/
  nonzero : "0" ∉ m.names.map Prod.snd

theorem renderable_named : Named .renderable :=
  ⟨by decide, by decide, by decide, by decide, by decide⟩

theorem surface_named : Named .surface :=
  ⟨by decide, by decide, by decide, by decide, by decide⟩

/-- Truncating a value leaves the bits that have names. -/
theorem Named.truncate_eq (h : Named m) (v : Int32) :
    m.truncate v = union ((m.names.map Prod.fst).filter (contains v)) := by
  rw [Bitmask.truncate, h.known, and_union]
  intro bit hbit
  obtain ⟨entry, he, rfl⟩ := List.mem_map.mp hbit
  exact h.single entry he

theorem Named.mem_namesOf (h : Named m) {entry : Int32 × String} (he : entry ∈ m.names) :
    entry.2 ∈ m.namesOf v ↔ contains v entry.1 = true := by
  simp only [Bitmask.namesOf, List.mem_map, List.mem_filter]
  constructor
  · rintro ⟨other, ⟨ho, hc⟩, hname⟩
    rwa [List.inj_on_of_nodup_map h.distinct ho he hname] at hc
  · intro hc
    exact ⟨entry, ⟨he, hc⟩, rfl⟩

/-- The names tell the bits. -/
theorem Named.truncate_of_namesOf (h : Named m) (he : m.namesOf v = m.namesOf w) :
    m.truncate v = m.truncate w := by
  have hsame : ∀ bit ∈ m.names.map Prod.fst, contains v bit = contains w bit := by
    intro bit hbit
    obtain ⟨entry, hentry, rfl⟩ := List.mem_map.mp hbit
    rw [Bool.eq_iff_iff, ← h.mem_namesOf hentry, ← h.mem_namesOf hentry, he]
  rw [h.truncate_eq, h.truncate_eq, List.filter_congr hsame]

/-- The parts that a text is joined from. -/
def parts (m : Bitmask) (v : Int32) : List String :=
  match m.namesOf v with
  | [] => ["0"]
  | names => names

theorem text_eq_join (m : Bitmask) (v : Int32) :
    m.text v = String.intercalate "|" (parts m v) := by
  unfold Bitmask.text parts
  cases m.namesOf v with
  | nil => rfl
  | cons name names => rfl

theorem parts_ne_nil (m : Bitmask) (v : Int32) : parts m v ≠ [] := by
  unfold parts
  cases m.namesOf v with
  | nil => exact nofun
  | cons name names => exact nofun

theorem namesOf_subset {name : String} (h : name ∈ m.namesOf v) : name ∈ m.names.map Prod.snd := by
  obtain ⟨entry, he, rfl⟩ := List.mem_map.mp h
  exact List.mem_map_of_mem (List.mem_filter.mp he).1

/-- The names are the parts that are not the text of no bits. -/
theorem Named.namesOf_eq (h : Named m) (v : Int32) :
    m.namesOf v = (parts m v).filter (· ≠ "0") := by
  have hall : ∀ name ∈ m.namesOf v, name ≠ "0" := by
    rintro _ hn rfl
    exact h.nonzero (namesOf_subset hn)
  unfold parts
  cases hv : m.namesOf v with
  | nil => decide
  | cons name names =>
    rw [hv] at hall
    exact (List.filter_eq_self.mpr (by simpa using hall)).symm

theorem Named.parts_lettered (h : Named m) {part : String} (hp : part ∈ parts m v) :
    part.toList.all nominal = true := by
  unfold parts at hp
  split at hp
  · obtain rfl := List.mem_singleton.mp hp
    decide
  · exact h.lettered part (namesOf_subset hp)

/-- A part has no character that is not of names. -/
theorem Named.parts_lack (h : Named m) {part : String} (hp : part ∈ parts m v) {ch : Char}
    (hch : nominal ch = false) : ch ∉ part.toList := by
  intro hmem
  have hl := List.all_eq_true.mp (h.parts_lettered hp) ch hmem
  rw [hch] at hl
  cases hl

/-- The text of a mask tells the bits of the value that the mask knows. -/
theorem Named.truncate_of_text (h : Named m) (he : m.text v = m.text w) :
    m.truncate v = m.truncate w := by
  rw [text_eq_join, text_eq_join] at he
  have hparts : parts m v = parts m w := by
    apply join_injective _ (parts_ne_nil m v) (parts_ne_nil m w) _ _ he
    · exact '|'
    · exact []
    · decide
    · exact fun _ hp => h.parts_lack hp rfl
    · exact fun _ hp => h.parts_lack hp rfl
  exact h.truncate_of_namesOf (by rw [h.namesOf_eq, h.namesOf_eq, hparts])

end Egl.Proofs
