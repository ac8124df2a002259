import Egl.Utf8
import Mathlib.Data.List.Basic

namespace Egl.Proofs

open Utf8

variable {a b c d : UInt8} {ch : Char} {n : Nat} {rest : List UInt8}

theorem ofNat_eq_iff {x : Nat} (h : x < 256) : UInt8.ofNat x = a ↔ a.toNat = x := by
  rw [← UInt8.toNat_inj, UInt8.toNat_ofNat']
  omega

theorem char_small (ch : Char) : ch.toNat < 0x110000 := by
  rcases ch.valid with h | ⟨_, h⟩ <;> simp only [Char.toNat] <;> omega

/-- The numbers of the second and later bytes of a character. -/
theorem payload?_eq_some {y : Nat} : payload? b = some y ↔ b.toNat = 0x80 + y ∧ y < 0x40 := by
  simp only [payload?, UInt8.le_iff_toNat_le, UInt8.lt_iff_toNat_lt, UInt8.toNat_ofNat,
    Option.ite_none_right_eq_some, Option.some.injEq]
  omega

theorem scalar?_eq_some {least : Nat} :
    scalar? least n = some ch ↔ ch.toNat = n ∧ least ≤ n := by
  unfold scalar?
  by_cases hn : least ≤ n ∧ n.isValidChar
  · rw [dif_pos hn]
    constructor
    · rintro ⟨⟩
      exact ⟨rfl, hn.1⟩
    · rintro ⟨rfl, -⟩
      rfl
  · rw [dif_neg hn]
    constructor
    · intro h
      cases h
    · rintro ⟨rfl, hl⟩
      exact absurd ⟨hl, ch.valid⟩ hn

/-- The bytes that carry a number in the form with so many bytes behind the first, whether or not it
should take that form. -/
def form : Nat → Nat → List UInt8
  | 0, n => [.ofNat n]
  | 1, n => [.ofNat (0xC0 + n / 64), .ofNat (0x80 + n % 64)]
  | 2, n => [.ofNat (0xE0 + n / 4096), .ofNat (0x80 + n / 64 % 64), .ofNat (0x80 + n % 64)]
  | _, n =>
    [.ofNat (0xF0 + n / 262144), .ofNat (0x80 + n / 4096 % 64), .ofNat (0x80 + n / 64 % 64),
      .ofNat (0x80 + n % 64)]

theorem form_eq_single (h : n < 0x80) : form 0 n = [a] ↔ a.toNat = n := by
  simp (disch := omega) only [form, List.cons.injEq, ofNat_eq_iff, and_true]

theorem form_eq_pair (h : n < 0x800) :
    form 1 n = [a, b] ↔ a.toNat = 0xC0 + n / 64 ∧ b.toNat = 0x80 + n % 64 := by
  simp (disch := omega) only [form, List.cons.injEq, ofNat_eq_iff, and_true]

theorem form_eq_triple (h : n < 0x10000) :
    form 2 n = [a, b, c] ↔
      a.toNat = 0xE0 + n / 4096 ∧ b.toNat = 0x80 + n / 64 % 64 ∧ c.toNat = 0x80 + n % 64 := by
  simp (disch := omega) only [form, List.cons.injEq, ofNat_eq_iff, and_true]

theorem form_eq_quad (h : n < 0x200000) :
    form 3 n = [a, b, c, d] ↔
      a.toNat = 0xF0 + n / 262144 ∧ b.toNat = 0x80 + n / 4096 % 64 ∧
        c.toNat = 0x80 + n / 64 % 64 ∧ d.toNat = 0x80 + n % 64 := by
  simp (disch := omega) only [form, List.cons.injEq, ofNat_eq_iff, and_true]

/-- Which form a character takes. -/
theorem encodeChar_cases (ch : Char) :
    (ch.toNat < 0x80 ∧ encodeChar ch = form 0 ch.toNat) ∨
    ((0x80 ≤ ch.toNat ∧ ch.toNat < 0x800) ∧ encodeChar ch = form 1 ch.toNat) ∨
    ((0x800 ≤ ch.toNat ∧ ch.toNat < 0x10000) ∧ encodeChar ch = form 2 ch.toNat) ∨
    (0x10000 ≤ ch.toNat ∧ encodeChar ch = form 3 ch.toNat) := by
  unfold encodeChar
  dsimp only
  split
  · case isTrue h => exact .inl ⟨h, rfl⟩
  split
  · case isTrue h => exact .inr (.inl ⟨by omega, rfl⟩)
  split
  · case isTrue h => exact .inr (.inr (.inl ⟨by omega, rfl⟩))
  · exact .inr (.inr (.inr ⟨by omega, rfl⟩))

theorem encodeChar_eq_single :
    encodeChar ch = [a] ↔ ch.toNat < 0x80 ∧ a.toNat = ch.toNat := by
  rcases encodeChar_cases ch with ⟨h, he⟩ | ⟨h, he⟩ | ⟨h, he⟩ | ⟨h, he⟩
  · rw [he, form_eq_single h]
    omega
  all_goals simp [he, form]; omega

theorem encodeChar_eq_pair :
    encodeChar ch = [a, b] ↔ (0x80 ≤ ch.toNat ∧ ch.toNat < 0x800) ∧
      a.toNat = 0xC0 + ch.toNat / 64 ∧ b.toNat = 0x80 + ch.toNat % 64 := by
  rcases encodeChar_cases ch with ⟨h, he⟩ | ⟨h, he⟩ | ⟨h, he⟩ | ⟨h, he⟩
  case inr.inl =>
    rw [he, form_eq_pair h.2]
    omega
  all_goals simp [he, form]; omega

theorem encodeChar_eq_triple :
    encodeChar ch = [a, b, c] ↔ (0x800 ≤ ch.toNat ∧ ch.toNat < 0x10000) ∧
      a.toNat = 0xE0 + ch.toNat / 4096 ∧ b.toNat = 0x80 + ch.toNat / 64 % 64 ∧
      c.toNat = 0x80 + ch.toNat % 64 := by
  rcases encodeChar_cases ch with ⟨h, he⟩ | ⟨h, he⟩ | ⟨h, he⟩ | ⟨h, he⟩
  case inr.inr.inl =>
    rw [he, form_eq_triple h.2]
    omega
  all_goals simp [he, form]; omega

theorem encodeChar_eq_quad :
    encodeChar ch = [a, b, c, d] ↔ 0x10000 ≤ ch.toNat ∧
      a.toNat = 0xF0 + ch.toNat / 262144 ∧ b.toNat = 0x80 + ch.toNat / 4096 % 64 ∧
      c.toNat = 0x80 + ch.toNat / 64 % 64 ∧ d.toNat = 0x80 + ch.toNat % 64 := by
  have hs := char_small ch
  rcases encodeChar_cases ch with ⟨h, he⟩ | ⟨h, he⟩ | ⟨h, he⟩ | ⟨h, he⟩
  case inr.inr.inr =>
    rw [he, form_eq_quad (by omega)]
    omega
  all_goals simp [he, form]; omega

theorem pair?_eq_some (ha : 0xC0 ≤ a.toNat) (ha' : a.toNat < 0xE0) :
    pair? a b = some ch ↔ encodeChar ch = [a, b] := by
  simp only [pair?, bind, Option.bind_eq_some_iff, payload?_eq_some, scalar?_eq_some,
    encodeChar_eq_pair]
  constructor
  · rintro ⟨y, ⟨hy, hy'⟩, hn, hl⟩
    omega
  · rintro ⟨⟨_, _⟩, _, _⟩
    exact ⟨ch.toNat % 64, by omega, by omega⟩

theorem triple?_eq_some (ha : 0xE0 ≤ a.toNat) (ha' : a.toNat < 0xF0) :
    triple? a b c = some ch ↔ encodeChar ch = [a, b, c] := by
  simp only [triple?, bind, Option.bind_eq_some_iff, payload?_eq_some, scalar?_eq_some,
    encodeChar_eq_triple]
  constructor
  · rintro ⟨y, ⟨hy, hy'⟩, z, ⟨hz, hz'⟩, hn, hl⟩
    omega
  · rintro ⟨⟨_, _⟩, _, _, _⟩
    exact ⟨ch.toNat / 64 % 64, by omega, ch.toNat % 64, by omega, by omega⟩

theorem quad?_eq_some (ha : 0xF0 ≤ a.toNat) :
    quad? a b c d = some ch ↔ encodeChar ch = [a, b, c, d] := by
  have hs := char_small ch
  simp only [quad?, bind, Option.bind_eq_some_iff, payload?_eq_some, scalar?_eq_some,
    encodeChar_eq_quad]
  constructor
  · rintro ⟨y, ⟨hy, hy'⟩, z, ⟨hz, hz'⟩, u, ⟨hu, hu'⟩, hn, hl⟩
    omega
  · rintro ⟨_, _, _, _, _⟩
    exact ⟨ch.toNat / 4096 % 64, by omega, ch.toNat / 64 % 64, by omega, ch.toNat % 64, by omega,
      by omega⟩

theorem ascii_eq_iff (ha : a.toNat < 0x80) :
    Char.ofNat a.toNat = ch ↔ encodeChar ch = [a] := by
  rw [encodeChar_eq_single]
  constructor
  · rintro rfl
    have hv : a.toNat.isValidChar := Or.inl (by omega)
    have hn : (Char.ofNat a.toNat).toNat = a.toNat := by
      rw [Char.ofNat, dif_pos hv]
      rfl
    omega
  · rintro ⟨_, he⟩
    rw [he, Char.ofNat_toNat]

/-- A character takes one of the four forms, and its first byte tells which. -/
theorem encodeChar_forms (ch : Char) :
    (∃ a, a.toNat < 0x80 ∧ encodeChar ch = [a]) ∨
    (∃ a b, (0xC0 ≤ a.toNat ∧ a.toNat < 0xE0) ∧ encodeChar ch = [a, b]) ∨
    (∃ a b c, (0xE0 ≤ a.toNat ∧ a.toNat < 0xF0) ∧ encodeChar ch = [a, b, c]) ∨
    ∃ a b c d, 0xF0 ≤ a.toNat ∧ encodeChar ch = [a, b, c, d] := by
  have hs := char_small ch
  rcases encodeChar_cases ch with ⟨h, he⟩ | ⟨h, he⟩ | ⟨h, he⟩ | ⟨h, he⟩
  · exact .inl ⟨_, by rw [UInt8.toNat_ofNat']; omega, he⟩
  · exact .inr (.inl ⟨_, _, by rw [UInt8.toNat_ofNat']; omega, he⟩)
  · exact .inr (.inr (.inl ⟨_, _, _, by rw [UInt8.toNat_ofNat']; omega, he⟩))
  · exact .inr (.inr (.inr ⟨_, _, _, _, by rw [UInt8.toNat_ofNat']; omega, he⟩))

theorem decode_ascii (ha : a.toNat < 0x80) :
    decode (a :: rest) = (decode rest).map (Char.ofNat a.toNat :: ·) := by
  rw [decode.eq_def]
  exact if_pos (UInt8.lt_iff_toNat_lt.mpr ha)

/-- How the reader goes on after a byte that is no character of its own. -/
theorem decode_further (ha : 0x80 ≤ a.toNat) :
    decode (a :: rest) =
      if a.toNat < 0xC0 then none
      else if a.toNat < 0xE0 then
        match rest with
        | b :: rest => (pair? a b).bind fun ch => (decode rest).map (ch :: ·)
        | [] => none
      else if a.toNat < 0xF0 then
        match rest with
        | b :: c :: rest => (triple? a b c).bind fun ch => (decode rest).map (ch :: ·)
        | _ => none
      else
        match rest with
        | b :: c :: d :: rest => (quad? a b c d).bind fun ch => (decode rest).map (ch :: ·)
        | _ => none := by
  rw [decode.eq_def]
  simp only [UInt8.lt_iff_toNat_lt, UInt8.toNat_ofNat]
  exact if_neg (Nat.not_lt.mpr ha)

/-- The reader takes up one character and goes on behind it. -/
theorem decode_encodeChar (ch : Char) (tail : List UInt8) :
    decode (encodeChar ch ++ tail) = (decode tail).map (ch :: ·) := by
  rcases encodeChar_forms ch with
    ⟨a, ha, he⟩ | ⟨a, b, ⟨ha, ha'⟩, he⟩ | ⟨a, b, c, ⟨ha, ha'⟩, he⟩ | ⟨a, b, c, d, ha, he⟩
  · rw [he, List.singleton_append, decode_ascii ha, (ascii_eq_iff ha).mpr he]
  all_goals rw [he, List.cons_append, decode_further (by omega), if_neg (by omega)]
  · simp [ha', (pair?_eq_some ha ha').mpr he]
  · rw [if_neg (by omega)]
    simp [ha', (triple?_eq_some ha ha').mpr he]
  · rw [if_neg (by omega), if_neg (by omega)]
    simp [(quad?_eq_some ha).mpr he]

theorem encode_cons (ch : Char) (cs : List Char) :
    encode (ch :: cs) = encodeChar ch ++ encode cs := rfl

theorem decode_encode (cs : List Char) (tail : List UInt8) :
    decode (encode cs ++ tail) = (decode tail).map (cs ++ ·) := by
  induction cs with
  | nil => simp [encode]
  | cons ch cs ih =>
    rw [encode_cons, List.append_assoc, decode_encodeChar, ih, Option.map_map]
    rfl

/-- The part of the reading of a character that all forms share. -/
theorem encode_cons_of_bind {form tail : List UInt8} {read : Option Char} {cs : List Char}
    (hform : ∀ ch, read = some ch → encodeChar ch = form)
    (htail : ∀ {ds}, decode tail = some ds → encode ds = tail)
    (h : (read.bind fun ch => (decode tail).map (ch :: ·)) = some cs) :
    encode cs = form ++ tail := by
  obtain ⟨ch, hch, hm⟩ := Option.bind_eq_some_iff.mp h
  obtain ⟨ds, hd, rfl⟩ := Option.map_eq_some_iff.mp hm
  rw [encode_cons, hform ch hch, htail hd]

/-- What the reader makes characters of is the shortest form of these characters. -/
theorem encode_of_decode {bytes : List UInt8} {cs : List Char} (h : decode bytes = some cs) :
    encode cs = bytes := by
  fun_induction decode bytes generalizing cs with
  | case1 => cases h; rfl
  | case2 a rest ha ih =>
    have hform := (ascii_eq_iff (UInt8.lt_iff_toNat_lt.mp ha)).mp rfl
    obtain ⟨ds, hd, rfl⟩ := Option.map_eq_some_iff.mp h
    rw [encode_cons, hform, ih hd, List.singleton_append]
  | case4 a _ ha ha' b rest ih =>
    simp only [UInt8.lt_iff_toNat_lt, Nat.not_lt] at ha ha'
    exact encode_cons_of_bind (fun _ => (pair?_eq_some ha ha').mp) ih h
  | case6 a _ _ ha ha' b c rest ih =>
    simp only [UInt8.lt_iff_toNat_lt, Nat.not_lt] at ha ha'
    exact encode_cons_of_bind (fun _ => (triple?_eq_some ha ha').mp) ih h
  | case8 a _ _ _ ha b c d rest ih =>
    simp only [UInt8.lt_iff_toNat_lt, Nat.not_lt] at ha
    exact encode_cons_of_bind (fun _ => (quad?_eq_some ha).mp) ih h
  | case3 => cases h
  | case5 => cases h
  | case7 => cases h
  | case9 => cases h

/-- Valid texts are those that spell some characters. -/
theorem valid_iff {bytes : List UInt8} : valid bytes = true ↔ ∃ cs, bytes = encode cs := by
  constructor
  · intro h
    obtain ⟨cs, hcs⟩ := Option.isSome_iff_exists.mp h
    exact ⟨cs, (encode_of_decode hcs).symm⟩
  · rintro ⟨cs, rfl⟩
    have h := decode_encode cs []
    rw [List.append_nil] at h
    rw [valid, h]
    rfl

/-- The standard library writes characters the same way. -/
theorem encodeChar_eq_standard (ch : Char) : encodeChar ch = String.utf8EncodeChar ch := by
  have hs := char_small ch
  have ht : ch.val.toNat = ch.toNat := rfl
  unfold String.utf8EncodeChar
  dsimp only
  split
  · exact encodeChar_eq_single.mpr (by rw [UInt8.toNat_ofNat']; omega)
  split
  · exact encodeChar_eq_pair.mpr (by simp only [UInt8.toNat_ofNat']; omega)
  split
  · exact encodeChar_eq_triple.mpr (by simp only [UInt8.toNat_ofNat']; omega)
  · exact encodeChar_eq_quad.mpr (by simp only [UInt8.toNat_ofNat']; omega)

theorem encode_eq_standard (cs : List Char) : (encode cs).toByteArray = cs.utf8Encode := by
  simp only [List.utf8Encode, encode, funext encodeChar_eq_standard]

theorem valid_iff_standard {bytes : List UInt8} :
    valid bytes = true ↔ bytes.toByteArray.IsValidUTF8 := by
  rw [valid_iff]
  constructor
  · rintro ⟨cs, rfl⟩
    exact ⟨cs, encode_eq_standard cs⟩
  · rintro ⟨cs, h⟩
    rw [← encode_eq_standard] at h
    exact ⟨cs, List.toByteArray_inj.mp h⟩

end Egl.Proofs
