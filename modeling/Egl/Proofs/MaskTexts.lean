import Egl.Proofs.Masks

namespace Egl.Proofs

open Bitmask (contains)

variable {m : Bitmask} {bit? : String → Option Int32} {v w : Int32}

/-- The parts of a text between its bars. -/
def cut (text : String) : List String := (text.split '|').toList.map (·.copy)

/-- The bits that a text names, where each name stands for a bit. The text `0` names none. -/
def bits? (bit? : String → Option Int32) (text : String) : Option Int32 :=
  if text = "0" then some 0 else ((cut text).mapM bit?).map union

/-- The bit of a client interface. -/
def renderableBit? : String → Option Int32
  | "OPENGL_ES" => some 0x1
  | "OPENVG" => some 0x2
  | "OPENGL_ES2" => some 0x4
  | "OPENGL" => some 0x8
  | "OPENGL_ES3" => some 0x40
  | _ => none

/-- The bit of a kind of surface, or of something that surfaces can do. -/
def surfaceBit? : String → Option Int32
  | "PBUFFER" => some 0x1
  | "PIXMAP" => some 0x2
  | "WINDOW" => some 0x4
  | "VG_COLORSPACE_LINEAR" => some 0x20
  | "VG_ALPHA_FORMAT_PRE" => some 0x40
  | "MULTISAMPLE_RESOLVE_BOX" => some 0x200
  | "SWAP_BEHAVIOR_PRESERVED" => some 0x400
  | _ => none

/-- Cutting undoes the joining of parts that have no bar in them. -/
theorem cut_join {ls : List String} (hl : ls ≠ []) (hbar : ∀ part ∈ ls, '|' ∉ part.toList) :
    cut (String.intercalate "|" ls) = ls := by
  have hsplit := String.toList_split_intercalate hbar
  rwa [if_neg hl] at hsplit

theorem Named.cut_text (h : Named m) (v : Int32) : cut (m.text v) = parts m v := by
  rw [text_eq_join]
  exact cut_join (parts_ne_nil m v) fun _ hp => h.parts_lack hp rfl

theorem Named.text_eq_zero (h : Named m) : m.text v = "0" ↔ m.namesOf v = [] := by
  constructor
  · intro hz
    have hcut : cut (m.text v) = ["0"] := by
      rw [hz, ← String.intercalate_singleton (s := "|") (t := "0")]
      exact cut_join nofun (by decide)
    rw [h.namesOf_eq, ← h.cut_text, hcut]
    decide
  · intro hn
    rw [Bitmask.text, hn]

/-- Unless there are none, the parts of a text are the names of the bits that a value has. -/
theorem Named.cut_names (h : Named m) (hz : m.text v ≠ "0") : cut (m.text v) = m.namesOf v := by
  rw [h.cut_text, parts]
  split
  case h_1 hn => exact absurd (h.text_eq_zero.mpr hn) hz
  case h_2 => rfl

/-- The names that a value has are looked up one by one. -/
theorem mapM_names {entries : List (Int32 × String)}
    (hb : ∀ entry ∈ entries, bit? entry.2 = some entry.1) :
    (entries.map Prod.snd).mapM bit? = some (entries.map Prod.fst) := by
  induction entries with
  | nil => rfl
  | cons entry rest ih =>
    have hrest := ih fun other ho => hb other (List.mem_cons_of_mem _ ho)
    simp only [List.map_cons, List.mapM_cons, hb entry List.mem_cons_self, hrest]
    rfl

theorem Named.bits?_text (h : Named m) (hb : ∀ entry ∈ m.names, bit? entry.2 = some entry.1)
    (v : Int32) : bits? bit? (m.text v) = some (m.truncate v) := by
  have hlooked : (m.namesOf v).mapM bit? =
      some ((m.names.map Prod.fst).filter (contains v)) := by
    rw [Bitmask.namesOf, mapM_names fun entry he => hb entry (List.mem_filter.mp he).1,
      List.filter_map]
    rfl
  unfold bits?
  split
  case isTrue hz =>
    rw [h.text_eq_zero.mp hz] at hlooked
    rw [h.truncate_eq, ← Option.some.inj hlooked]
    rfl
  case isFalse hz => rw [h.cut_names hz, hlooked, Option.map_some, h.truncate_eq]

/-- A union has all of each bit in it. -/
theorem union_and {bits : List Int32} {bit : Int32} (h : bit ∈ bits) :
    union bits &&& bit = bit := by
  have habsorb : ∀ a b : Int32, a &&& b ||| b = b := by
    intro a b
    apply Int32.toBitVec_inj.mp
    ext i
    simp
  induction bits with
  | nil => cases h
  | cons first rest ih =>
    have hsplit : union (first :: rest) &&& bit = (first &&& bit) ||| (union rest &&& bit) := by
      rw [Int32.and_comm, union, List.foldr_cons, and_or_distrib, Int32.and_comm,
        Int32.and_comm bit]
      rfl
    rw [hsplit]
    rcases List.mem_cons.mp h with rfl | hrest
    · rw [Int32.and_self, Int32.or_comm, habsorb]
    · rw [ih hrest, habsorb]

/-- What a mask knows of a value decides about its names. -/
theorem Named.text_of_truncate (h : Named m) (he : m.truncate v = m.truncate w) :
    m.text v = m.text w := by
  have hand : ∀ entry ∈ m.names, ∀ u, u &&& entry.1 = m.truncate u &&& entry.1 := by
    intro entry hentry u
    have hknown : m.known &&& entry.1 = entry.1 := by
      rw [h.known]
      exact union_and (List.mem_map_of_mem hentry)
    rw [Bitmask.truncate, Int32.and_assoc, hknown]
  have hnames : m.namesOf v = m.namesOf w := by
    refine congrArg (List.map Prod.snd) (List.filter_congr fun entry hentry => ?_)
    change decide (v &&& entry.1 = entry.1) = decide (w &&& entry.1 = entry.1)
    rw [hand entry hentry v, hand entry hentry w, he]
  rw [text_eq_join, text_eq_join, parts, parts, hnames]

/-- No value is without bits and has one. -/
theorem Single.contains_zero {bit : Int32} (h : Single bit) : contains 0 bit = false := by
  obtain ⟨i, hi⟩ := h
  simp only [contains, Int32.zero_and, decide_eq_false_iff_not]
  rintro rfl
  have hbit : (Int32.toBitVec 0).getLsbD i = true := by
    rw [hi, BitVec.getLsbD_twoPow]
    simp
  simp at hbit

theorem Named.text_zero (h : Named m) : m.text 0 = "0" := by
  rw [h.text_eq_zero, Bitmask.namesOf, List.map_eq_nil_iff, List.filter_eq_nil_iff]
  rintro ⟨bit, name⟩ he
  exact Bool.eq_false_iff.mp (h.single _ he).contains_zero

/-- What the text of a mask tells about every value. -/
structure Legible (m : Bitmask) (bit? : String → Option Int32) : Prop where
  /-- What the mask knows are the bits that have names. -/
  known : m.known = union (m.names.map Prod.fst)
  /-- The names in the text stand for the bits of the value that the mask knows. -/
  read : ∀ v, bits? bit? (m.text v) = some (m.truncate v) ∧ m.truncate v = v &&& m.known
  /-- The names follow the order of the table, and none comes twice. -/
  ordered : ∀ v, m.text v ≠ "0" →
    (cut (m.text v)).Sublist (m.names.map Prod.snd) ∧ (cut (m.text v)).Nodup
  zero : ∀ v, m.text v = "0" ↔ v &&& m.known = 0
  same : ∀ v w, m.text v = m.text w ↔ v &&& m.known = w &&& m.known

theorem Named.legible (h : Named m) (hb : ∀ entry ∈ m.names, bit? entry.2 = some entry.1) :
    Legible m bit? where
  known := h.known
  read v := ⟨h.bits?_text hb v, rfl⟩
  ordered v hz := by
    have hsub : (m.namesOf v).Sublist (m.names.map Prod.snd) :=
      List.Sublist.map Prod.snd List.filter_sublist
    rw [h.cut_names hz]
    exact ⟨hsub, hsub.nodup h.distinct⟩
  zero v := by
    have hsame : m.text v = m.text 0 ↔ m.truncate v = m.truncate 0 :=
      ⟨h.truncate_of_text, h.text_of_truncate⟩
    rw [h.text_zero, Bitmask.truncate, Bitmask.truncate, Int32.zero_and] at hsame
    exact hsame
  same v w := ⟨h.truncate_of_text, h.text_of_truncate⟩

/-- The texts of both masks can be read back, and tell two values apart exactly if these differ in
a bit that the mask knows. -/
theorem mask_texts_legible :
    Legible .renderable renderableBit? ∧ Legible .surface surfaceBit? :=
  ⟨renderable_named.legible (by decide), surface_named.legible (by decide)⟩

/-- The sign and the unknown bits of a value leave no trace in its text. -/
example : Bitmask.surface.text (-1024) = "SWAP_BEHAVIOR_PRESERVED" := by decide

end Egl.Proofs
