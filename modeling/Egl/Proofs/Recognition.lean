import Egl.Proofs.ShortestForms

namespace Egl.Proofs

open Utf8

variable {a b c d : UInt8} {ch : Char} {n : Nat} {rest front tail buffer : List UInt8}
  {place : Nat} {lead : Lead}

/-- The kind of byte that only continues a character. -/
def Continues (b : UInt8) : Prop := 0x80 ≤ b ∧ b ≤ 0xBF

instance (b : UInt8) : Decidable (Continues b) := inferInstanceAs (Decidable (_ ∧ _))

theorem continues_iff : Continues b ↔ 0x80 ≤ b.toNat ∧ b.toNat ≤ 0xBF := by
  simp only [Continues, UInt8.le_iff_toNat_le]
  rfl

theorem exists_char (h : n.isValidChar) : ∃ ch : Char, ch.toNat = n := ⟨Char.ofNatAux n h, rfl⟩

theorem pair?_isSome (ha : 0xC0 ≤ a.toNat) (ha' : a.toNat < 0xE0) :
    (pair? a b).isSome = true ↔ 0xC2 ≤ a.toNat ∧ Continues b := by
  simp only [Option.isSome_iff_exists, pair?_eq_some ha ha', encodeChar_eq_pair, continues_iff]
  constructor
  · rintro ⟨ch, h⟩
    omega
  · rintro ⟨h, hb⟩
    obtain ⟨ch, hch⟩ := @exists_char ((a.toNat - 0xC0) * 64 + (b.toNat - 0x80)) (.inl (by omega))
    exact ⟨ch, by omega⟩

theorem triple?_isSome (ha : 0xE0 ≤ a.toNat) (ha' : a.toNat < 0xF0) :
    (triple? a b c).isSome = true ↔
      ((a.toNat = 0xE0 → 0xA0 ≤ b.toNat) ∧ (a.toNat = 0xED → b.toNat ≤ 0x9F)) ∧
        Continues b ∧ Continues c := by
  simp only [Option.isSome_iff_exists, triple?_eq_some ha ha', encodeChar_eq_triple, continues_iff]
  constructor
  · rintro ⟨ch, h⟩
    have hv : ch.toNat.isValidChar := ch.valid
    simp only [Nat.isValidChar] at hv
    omega
  · rintro ⟨⟨h, h'⟩, hb, hc⟩
    obtain ⟨ch, hch⟩ := @exists_char
      ((a.toNat - 0xE0) * 4096 + (b.toNat - 0x80) * 64 + (c.toNat - 0x80))
      (by simp only [Nat.isValidChar]; omega)
    exact ⟨ch, by omega⟩

theorem quad?_isSome (ha : 0xF0 ≤ a.toNat) :
    (quad? a b c d).isSome = true ↔
      (a.toNat ≤ 0xF4 ∧ (a.toNat = 0xF0 → 0x90 ≤ b.toNat) ∧ (a.toNat = 0xF4 → b.toNat ≤ 0x8F)) ∧
        Continues b ∧ Continues c ∧ Continues d := by
  simp only [Option.isSome_iff_exists, quad?_eq_some ha, encodeChar_eq_quad, continues_iff]
  constructor
  · rintro ⟨ch, h⟩
    have hs := char_small ch
    omega
  · rintro ⟨⟨h, h', h''⟩, hb, hc, hd⟩
    obtain ⟨ch, hch⟩ := @exists_char ((a.toNat - 0xF0) * 262144 + (b.toNat - 0x80) * 4096 +
      (c.toNat - 0x80) * 64 + (d.toNat - 0x80)) (by simp only [Nat.isValidChar]; omega)
    exact ⟨ch, by omega⟩

theorem valid_ascii (ha : a.toNat < 0x80) : valid (a :: rest) = valid rest := by
  rw [valid, decode_ascii ha, Option.isSome_map]
  rfl

theorem valid_stray (ha : Continues a) : valid (a :: rest) = false := by
  rw [continues_iff] at ha
  rw [valid, decode_further ha.1, if_pos (by omega)]
  rfl

theorem isSome_bind_decode {read : Option Char} :
    (read.bind fun ch => (decode rest).map (ch :: ·)).isSome = (read.isSome && valid rest) := by
  cases read <;> simp [valid]

theorem valid_pair (ha : 0xC0 ≤ a.toNat) (ha' : a.toNat < 0xE0) :
    valid (a :: b :: rest) = ((pair? a b).isSome && valid rest) := by
  rw [valid, decode_further (by omega), if_neg (by omega), if_pos ha']
  exact isSome_bind_decode

theorem valid_triple (ha : 0xE0 ≤ a.toNat) (ha' : a.toNat < 0xF0) :
    valid (a :: b :: c :: rest) = ((triple? a b c).isSome && valid rest) := by
  rw [valid, decode_further (by omega), if_neg (by omega), if_neg (by omega), if_pos ha']
  exact isSome_bind_decode

theorem valid_quad (ha : 0xF0 ≤ a.toNat) :
    valid (a :: b :: c :: d :: rest) = ((quad? a b c d).isSome && valid rest) := by
  rw [valid, decode_further (by omega), if_neg (by omega), if_neg (by omega), if_neg (by omega)]
  exact isSome_bind_decode

theorem lead?_cases {lead : Lead} (h : lead? a = some lead) :
    ((0xC2 ≤ a.toNat ∧ a.toNat ≤ 0xDF) ∧ lead = ⟨1, 0x80, 0xBF⟩) ∨
    ((0xE0 ≤ a.toNat ∧ a.toNat ≤ 0xEF) ∧
      lead = ⟨2, if a = 0xE0 then 0xA0 else 0x80, if a = 0xED then 0x9F else 0xBF⟩) ∨
    ((0xF0 ≤ a.toNat ∧ a.toNat ≤ 0xF4) ∧
      lead = ⟨3, if a = 0xF0 then 0x90 else 0x80, if a = 0xF4 then 0x8F else 0xBF⟩) := by
  simp only [lead?, UInt8.le_iff_toNat_le] at h
  split at h
  · case isTrue ha => exact .inl ⟨ha, (Option.some.inj h).symm⟩
  split at h
  · case isTrue ha => exact .inr (.inl ⟨ha, (Option.some.inj h).symm⟩)
  split at h
  · case isTrue ha => exact .inr (.inr ⟨ha, (Option.some.inj h).symm⟩)
  · cases h

theorem lead?_eq_none (h : lead? a = none) : a.toNat < 0xC2 ∨ 0xF4 < a.toNat := by
  simp only [lead?, UInt8.le_iff_toNat_le, UInt8.toNat_ofNat] at h
  split at h
  · cases h
  split at h
  · cases h
  split at h
  · cases h
  · omega

theorem lead?_trail_pos {lead : Lead} (h : lead? a = some lead) : 0 < lead.trail := by
  rcases lead?_cases h with ⟨_, rfl⟩ | ⟨_, rfl⟩ | ⟨_, rfl⟩ <;> simp

/-- A first byte alone, or with too few bytes behind it, is no text. -/
theorem valid_cut (ha : 0xC0 ≤ a.toNat)
    (h : rest.length < 1 ∨ (0xE0 ≤ a.toNat ∧ rest.length < 2) ∨
      (0xF0 ≤ a.toNat ∧ rest.length < 3)) :
    valid (a :: rest) = false := by
  change (decode (a :: rest)).isSome = false
  rw [decode_further (by omega), if_neg (by omega)]
  match rest with
  | [] => simp
  | [_] =>
    rw [if_neg (by simp at h; omega)]
    simp
  | [_, _] =>
    rw [if_neg (by simp at h; omega), if_neg (by simp at h; omega)]
    rfl
  | _ :: _ :: _ :: _ =>
    simp only [List.length_cons] at h
    omega

/-- No text starts with a byte past ASCII that is no lead. -/
theorem valid_of_no_lead (ha : 0x80 ≤ a.toNat) (h : lead? a = none) :
    valid (a :: rest) = false := by
  have hn := lead?_eq_none h
  by_cases hc : Continues a
  · exact valid_stray hc
  rw [continues_iff] at hc
  by_cases hs : a.toNat < 0xE0
  · match rest with
    | [] => exact valid_cut (by omega) (by grind)
    | b :: rest =>
      rw [valid_pair (by omega) hs, Bool.and_eq_false_iff, Bool.eq_false_iff, ne_eq,
        pair?_isSome (by omega) hs]
      omega
  · match rest with
    | [] | [_] | [_, _] => exact valid_cut (by omega) (by grind)
    | b :: c :: d :: rest =>
      rw [valid_quad (by omega), Bool.and_eq_false_iff, Bool.eq_false_iff, ne_eq,
        quad?_isSome (by omega)]
      omega

/-- Whether some bytes are those that a lead byte asks for. -/
def Suits (lead : Lead) : List UInt8 → Prop
  | [] => False
  | b :: rest => (lead.lower ≤ b ∧ b ≤ lead.upper) ∧ ∀ c ∈ rest, Continues c

instance (lead : Lead) : (bytes : List UInt8) → Decidable (Suits lead bytes)
  | [] => .isFalse id
  | _ :: _ => inferInstanceAs (Decidable (_ ∧ _))

/-- The bounds of a second byte, which two lead bytes may narrow. -/
theorem bounds_iff {p q lower upper : UInt8} (hl : 0x80 ≤ lower.toNat) (hu : upper.toNat ≤ 0xBF) :
    ((if a = p then lower else 0x80) ≤ b ∧ b ≤ if a = q then upper else 0xBF) ↔
      ((a.toNat = p.toNat → lower.toNat ≤ b.toNat) ∧
        (a.toNat = q.toNat → b.toNat ≤ upper.toNat)) ∧ Continues b := by
  simp only [continues_iff, UInt8.le_iff_toNat_le, UInt8.toNat_inj, apply_ite UInt8.toNat,
    UInt8.toNat_ofNat]
  split <;> split <;> simp_all <;> omega

/-- A text that starts with a lead byte goes on with the bytes that it asks for. -/
theorem valid_lead (h : lead? a = some lead) :
    valid (a :: rest) =
      (decide (lead.trail ≤ rest.length ∧ Suits lead (rest.take lead.trail)) &&
        valid (rest.drop lead.trail)) := by
  rw [Bool.eq_iff_iff, Bool.and_eq_true, decide_eq_true_iff]
  rcases lead?_cases h with ⟨ha, rfl⟩ | ⟨ha, rfl⟩ | ⟨ha, rfl⟩
  · match rest with
    | [] =>
      rw [valid_cut (by omega) (by grind)]
      simp
    | b :: rest =>
      rw [valid_pair (by omega) (by omega), Bool.and_eq_true, pair?_isSome (by omega) (by omega)]
      simp [Suits, Continues, ha.1]
  · match rest with
    | [] | [_] =>
      rw [valid_cut (by omega) (by grind)]
      simp
    | b :: c :: rest =>
      have hb := @bounds_iff a b 0xE0 0xED 0xA0 0x9F (by decide) (by decide)
      simp only [UInt8.toNat_ofNat] at hb
      rw [valid_triple (by omega) (by omega), Bool.and_eq_true,
        triple?_isSome (by omega) (by omega)]
      simp [Suits, hb, and_assoc]
  · match rest with
    | [] | [_] | [_, _] =>
      rw [valid_cut (by omega) (by grind)]
      simp
    | b :: c :: d :: rest =>
      have hb := @bounds_iff a b 0xF0 0xF4 0x90 0x8F (by decide) (by decide)
      simp only [UInt8.toNat_ofNat] at hb
      rw [valid_quad (by omega), Bool.and_eq_true, quad?_isSome (by omega)]
      simp [Suits, hb, ha.2, and_assoc]

theorem continues?_eq {buffer : List UInt8} {place n : Nat} (h : place + n ≤ buffer.length) :
    continues? buffer place n =
      some (((buffer.drop place).take n).all fun b => decide (Continues b)) := by
  induction n generalizing place with
  | zero => simp [continues?]
  | succ n ih =>
    have hp : place < buffer.length := by omega
    rw [continues?, List.getElem?_eq_getElem hp, List.drop_eq_getElem_cons hp, List.take_succ_cons]
    simp only [List.all_cons]
    split
    case isTrue hb =>
      have : ¬ Continues buffer[place] := by
        simp only [Continues, not_and_or, UInt8.not_le]
        exact hb
      simp [this]
    case isFalse hb =>
      have : Continues buffer[place] := by
        simp only [not_or, UInt8.not_lt] at hb
        exact hb
      rw [ih (by omega)]
      simp [this]

theorem follows?_eq {lead : Lead} (ht : 0 < lead.trail)
    (h : place + lead.trail ≤ buffer.length) :
    follows? lead buffer place =
      some (decide (Suits lead ((buffer.drop place).take lead.trail))) := by
  have hp : place < buffer.length := by omega
  obtain ⟨n, hn⟩ : ∃ n, lead.trail = n + 1 := ⟨lead.trail - 1, by omega⟩
  rw [follows?, List.getElem?_eq_getElem hp, List.drop_eq_getElem_cons hp, hn, List.take_succ_cons]
  simp only [Suits]
  split
  case isTrue hb =>
    have : ¬ (lead.lower ≤ buffer[place] ∧ buffer[place] ≤ lead.upper) := by
      simp only [not_and_or, UInt8.not_le]
      exact hb
    simp [this]
  case isFalse hb =>
    have : lead.lower ≤ buffer[place] ∧ buffer[place] ≤ lead.upper := by
      simp only [not_or, UInt8.not_lt] at hb
      exact hb
    rw [Nat.add_sub_cancel, continues?_eq (by omega), Option.some_inj, Bool.eq_iff_iff]
    simp [this]

theorem drop_of_getElem? (hb : buffer[place]? = some a) :
    buffer.drop place = a :: buffer.drop (place + 1) := by
  obtain ⟨hp, rfl⟩ := List.getElem?_eq_some_iff.mp hb
  exact List.drop_eq_getElem_cons hp

/-- From any place of a buffer, the scan finds out whether what remains is valid. -/
theorem scanFrom?_eq (h : place ≤ buffer.length) :
    scanFrom? buffer place = some (valid (buffer.drop place)) := by
  fun_induction scanFrom? buffer place with
  | case1 => simp [valid, decode]
  | case2 place hn hb =>
    rw [List.getElem?_eq_none_iff] at hb
    omega
  | case3 place hn a hb hp ha ih =>
    rw [ih hp, drop_of_getElem? hb, valid_ascii (UInt8.lt_iff_toNat_lt.mp ha)]
  | case4 place hn a hb hp ha hlead =>
    rw [UInt8.not_lt, UInt8.le_iff_toNat_le] at ha
    rw [drop_of_getElem? hb, valid_of_no_lead ha hlead]
  | case5 place hn a hb hp ha lead hlead hshort =>
    rw [drop_of_getElem? hb, valid_lead hlead, List.length_drop,
      decide_eq_false (by omega), Bool.false_and]
  | case6 place hn a hb hp ha lead hlead hlong hfits ih =>
    rw [follows?_eq (lead?_trail_pos hlead) (by omega)] at hfits
    have hfits := of_decide_eq_true (Option.some.inj hfits)
    have hlong : lead.trail ≤ (buffer.drop (place + 1)).length := by
      rw [List.length_drop]
      omega
    rw [ih (by omega), drop_of_getElem? hb, valid_lead hlead, decide_eq_true ⟨hlong, hfits⟩,
      Bool.true_and, List.drop_drop]
  | case7 place hn a hb hp ha lead hlead hlong hunfit =>
    rw [follows?_eq (lead?_trail_pos hlead) (by omega)] at hunfit ⊢
    have hunfit : ¬ Suits lead ((buffer.drop (place + 1)).take lead.trail) := fun hfits =>
      hunfit (by rw [decide_eq_true hfits])
    rw [drop_of_getElem? hb, valid_lead hlead, decide_eq_false hunfit,
      decide_eq_false fun hfits => hunfit hfits.2, Bool.false_and]

theorem scan?_eq (buffer : List UInt8) : scan? buffer = some (valid buffer) := by
  rw [scan?, scanFrom?_eq (Nat.zero_le _), List.drop_zero]

/-- The least number that needs the form with so many bytes behind the first. -/
def least : Nat → Nat
  | 0 => 0
  | 1 => 0x80
  | 2 => 0x800
  | _ => 0x10000

/-- How many numbers there is room for in that form. -/
def room : Nat → Nat
  | 0 => 0x80
  | 1 => 0x800
  | 2 => 0x10000
  | _ => 0x200000

theorem least_le_room (trail : Nat) : least trail ≤ room trail := by
  unfold least room
  split <;> decide

/-- The first character of a text is one that its reader takes. -/
theorem exists_of_valid {read : Option Char} {bytes : List UInt8}
    (hb : valid bytes = (read.isSome && valid rest)) (h : valid bytes = true) :
    ∃ ch, read = some ch := by
  rw [hb, Bool.and_eq_true] at h
  exact Option.isSome_iff_exists.mp h.1

/-- The first form in a text carries a scalar value that no shorter form could carry. -/
theorem scalar_of_valid {trail : Nat} (ht : trail ≤ 3) (hn : n < room trail)
    (h : valid (form trail n ++ tail) = true) : least trail ≤ n ∧ n.isValidChar := by
  match trail, ht with
  | 0, _ => exact ⟨Nat.zero_le n, .inl (Nat.lt_trans hn (by decide))⟩
  | 1, _ =>
    obtain ⟨a, b, he⟩ : ∃ a b, form 1 n = [a, b] := ⟨_, _, rfl⟩
    have hab := (form_eq_pair hn).mp he
    simp only [room] at hn
    rw [he] at h
    obtain ⟨ch, hch⟩ := exists_of_valid (valid_pair (by omega) (by omega)) h
    have hs := encodeChar_eq_pair.mp ((pair?_eq_some (by omega) (by omega)).mp hch)
    obtain rfl : ch.toNat = n := by omega
    exact ⟨hs.1.1, ch.valid⟩
  | 2, _ =>
    obtain ⟨a, b, c, he⟩ : ∃ a b c, form 2 n = [a, b, c] := ⟨_, _, _, rfl⟩
    have habc := (form_eq_triple hn).mp he
    simp only [room] at hn
    rw [he] at h
    obtain ⟨ch, hch⟩ := exists_of_valid (valid_triple (by omega) (by omega)) h
    have hs := encodeChar_eq_triple.mp ((triple?_eq_some (by omega) (by omega)).mp hch)
    obtain rfl : ch.toNat = n := by omega
    exact ⟨hs.1.1, ch.valid⟩
  | 3, _ =>
    obtain ⟨a, b, c, d, he⟩ : ∃ a b c d, form 3 n = [a, b, c, d] := ⟨_, _, _, _, rfl⟩
    have habcd := (form_eq_quad hn).mp he
    simp only [room] at hn
    rw [he] at h
    obtain ⟨ch, hch⟩ := exists_of_valid (valid_quad (by omega)) h
    have hs := encodeChar_eq_quad.mp ((quad?_eq_some (by omega)).mp hch)
    obtain rfl : ch.toNat = n := by omega
    exact ⟨hs.1, ch.valid⟩

/-- Sequences that look like a character and are none: numbers in a form that is too long for them,
surrogates, and numbers past the last scalar value, in the longest form or in one that is longer
still and starts with a byte past `0xF7`. -/
inductive Impostor : List UInt8 → Prop
  | overlong (trail n : Nat) : trail ≤ 3 → n < least trail → Impostor (form trail n)
  | surrogate (n : Nat) : 0xD800 ≤ n → n ≤ 0xDFFF → Impostor (form 2 n)
  | beyond (n : Nat) : 0x110000 ≤ n → n < 0x200000 → Impostor (form 3 n)
  | longer (a : UInt8) : 0xF7 < a → Impostor [a]

theorem valid_impostor {bad : List UInt8} (h : Impostor bad) : valid (bad ++ tail) = false := by
  rw [Bool.eq_false_iff]
  intro hv
  cases h with
  | overlong trail n ht hn =>
    have hr := Nat.lt_of_lt_of_le hn (least_le_room trail)
    exact Nat.not_le.mpr hn (scalar_of_valid ht hr hv).1
  | surrogate n hn hn' =>
    have hs := (scalar_of_valid (by decide) (Nat.lt_of_le_of_lt hn' (by decide)) hv).2
    simp only [Nat.isValidChar] at hs
    omega
  | beyond n hn hn' =>
    have hs := (scalar_of_valid (by decide) hn' hv).2
    simp only [Nat.isValidChar] at hs
    omega
  | longer a ha =>
    have ha : 0xF7 < a.toNat := UInt8.lt_iff_toNat_lt.mp ha
    have hn : lead? a = none := by
      cases hl : lead? a with
      | none => rfl
      | some lead => rcases lead?_cases hl with ⟨h, _⟩ | ⟨h, _⟩ | ⟨h, _⟩ <;> omega
    rw [List.singleton_append, valid_of_no_lead (by omega) hn] at hv
    cases hv

/-- In a character, every byte but the first continues it. -/
theorem continues_tail {bytes : List UInt8} (h : encodeChar ch = a :: bytes) :
    ¬ Continues a ∧ ∀ b ∈ bytes, Continues b := by
  simp only [continues_iff]
  rcases encodeChar_forms ch with
    ⟨a, ha, he⟩ | ⟨a, b, ha, he⟩ | ⟨a, b, c, ha, he⟩ | ⟨a, b, c, d, ha, he⟩ <;>
    obtain ⟨rfl, rfl⟩ := List.cons.inj (he.symm.trans h)
  · simp; omega
  · have hs := encodeChar_eq_pair.mp he
    simp; omega
  · have hs := encodeChar_eq_triple.mp he
    simp; omega
  · have hs := encodeChar_eq_quad.mp he
    simp; omega

theorem valid_encodeChar (ch : Char) (tail : List UInt8) :
    valid (encodeChar ch ++ tail) = valid tail := by
  rw [valid, decode_encodeChar, Option.isSome_map]
  rfl

theorem valid_append (h : valid front = true) : valid (front ++ tail) = valid tail := by
  obtain ⟨cs, rfl⟩ := valid_iff.mp h
  rw [valid, decode_encode, Option.isSome_map]
  rfl

/-- Characters start at every byte that does not continue one: a text that is cut there falls into
two texts. -/
theorem valid_split (ha : ¬ Continues a) (h : valid (front ++ a :: tail) = true) :
    valid front = true ∧ valid (a :: tail) = true := by
  obtain ⟨cs, hcs⟩ := valid_iff.mp h
  clear h
  induction cs generalizing front with
  | nil =>
    change front ++ a :: tail = [] at hcs
    simp at hcs
  | cons ch cs ih =>
    rw [encode_cons] at hcs
    rcases List.append_eq_append_iff.mp hcs with ⟨middle, hch, hrest⟩ | ⟨middle, hfront, hcs⟩
    · match front, middle with
      | [], _ => exact ⟨rfl, valid_iff.mpr ⟨ch :: cs, hcs⟩⟩
      | _ :: _, b :: middle =>
        obtain ⟨rfl, -⟩ := List.cons.inj hrest
        exact absurd ((continues_tail hch).2 a (by simp)) ha
      | x :: front, [] =>
        rw [List.append_nil] at hch
        refine ⟨?_, valid_iff.mpr ⟨cs, hrest⟩⟩
        rw [← hch, ← List.append_nil (encodeChar ch), valid_encodeChar]
        rfl
    · obtain ⟨hm, ht⟩ := ih hcs.symm
      rw [hfront, valid_encodeChar]
      exact ⟨hm, ht⟩

/-- What is left of a character whose last bytes were cut off is no text. -/
theorem valid_beginning {shown missing : List UInt8} (he : encodeChar ch = shown ++ missing)
    (hs : shown ≠ []) (hm : missing ≠ []) : valid shown = false := by
  rw [Bool.eq_false_iff]
  intro hv
  obtain ⟨cs, rfl⟩ := valid_iff.mp hv
  have hd : decode (encodeChar ch) = some [ch] := by
    have h := decode_encodeChar ch []
    rwa [List.append_nil] at h
  rw [he, decode_encode] at hd
  obtain ⟨ds, hds, hcs⟩ := Option.map_eq_some_iff.mp hd
  match cs with
  | [] => exact hs rfl
  | _ :: _ =>
    obtain rfl : ds = [] := by
      obtain ⟨-, h⟩ := List.cons.inj hcs
      exact (List.append_eq_nil_iff.mp h).2
    exact hm (encode_of_decode hds).symm

/-- Bytes with a place that spoils them as a text: a sequence that only looks like a character, a
byte that continues no character, or a character that the end cuts off. -/
inductive Spoiled : List UInt8 → Prop
  | impostor (front bad tail : List UInt8) : Impostor bad → Spoiled (front ++ bad ++ tail)
  | stray (front tail : List UInt8) (a : UInt8) :
    valid front = true → Continues a → Spoiled (front ++ a :: tail)
  | cut (front shown missing : List UInt8) (ch : Char) :
    encodeChar ch = shown ++ missing → shown ≠ [] → missing ≠ [] → Spoiled (front ++ shown)

theorem form_starts {trail : Nat} (hpos : 0 < trail) (hn : n < room trail) :
    ∃ a bytes, form trail n = a :: bytes ∧ 0xC0 ≤ a.toNat := by
  unfold room at hn
  split at hn
  · cases hpos
  · exact ⟨_, _, rfl, by rw [UInt8.toNat_ofNat']; omega⟩
  · exact ⟨_, _, rfl, by rw [UInt8.toNat_ofNat']; omega⟩
  · case h_4 h1 h2 =>
    match trail with
    | trail + 3 => exact ⟨_, _, rfl, by rw [UInt8.toNat_ofNat']; omega⟩

theorem Impostor.starts {bad : List UInt8} (h : Impostor bad) :
    ∃ a bytes, bad = a :: bytes ∧ 0xC0 ≤ a.toNat := by
  cases h with
  | overlong trail n ht hn =>
    have hpos : 0 < trail := by
      rcases trail with _ | trail
      · exact absurd hn (Nat.not_lt_zero n)
      · exact Nat.succ_pos trail
    exact form_starts hpos (Nat.lt_of_lt_of_le hn (least_le_room trail))
  | surrogate n hn hn' => exact form_starts (by decide) (Nat.lt_of_le_of_lt hn' (by decide))
  | beyond n hn hn' => exact form_starts (by decide) hn'
  | longer a ha =>
    have ha : 0xF7 < a.toNat := UInt8.lt_iff_toNat_lt.mp ha
    exact ⟨a, [], rfl, by omega⟩

theorem Spoiled.rejected {bytes : List UInt8} (h : Spoiled bytes) : valid bytes = false := by
  rw [Bool.eq_false_iff]
  intro hv
  cases h with
  | impostor front bad tail hb =>
    obtain ⟨a, bytes, rfl, ha⟩ := hb.starts
    have hc : ¬ Continues a := fun hc => by
      rw [continues_iff] at hc
      omega
    rw [List.append_assoc] at hv
    have hs : valid (a :: bytes ++ tail) = true := (valid_split hc hv).2
    rw [valid_impostor hb] at hs
    cases hs
  | stray front tail a hf ha =>
    rw [valid_append hf, valid_stray ha] at hv
    cases hv
  | cut front shown missing ch he hs hm =>
    match shown with
    | a :: shown =>
      have hh := (valid_split (continues_tail he).1 hv).2
      rw [valid_beginning he hs hm] at hh
      cases hh

/-- A buffer is scanned without a look outside of it, and is accepted if and only if it is the
shortest form of some characters, as the standard library has it too. Whatever spoils it is
found. -/
theorem texts_recognized (bytes : List UInt8) :
    scan? bytes = some (valid bytes) ∧
      (valid bytes = true ↔ ∃ cs : List Char, bytes = encode cs) ∧
      (valid bytes = true ↔ bytes.toByteArray.IsValidUTF8) ∧
      (Spoiled bytes → valid bytes = false) :=
  ⟨scan?_eq bytes, valid_iff, valid_iff_standard, Spoiled.rejected⟩

theorem texts_recognized_surrogate :
    Spoiled [0xC3, 0xA9, 0xED, 0xA0, 0x80] ∧ scan? [0xC3, 0xA9, 0xED, 0xA0, 0x80] = some false := by
  have hs : Spoiled [0xC3, 0xA9, 0xED, 0xA0, 0x80] :=
    .impostor [0xC3, 0xA9] (form 2 0xD800) [] (.surrogate 0xD800 (by decide) (by decide))
  obtain ⟨hscan, -, -, hspoiled⟩ := texts_recognized [0xC3, 0xA9, 0xED, 0xA0, 0x80]
  exact ⟨hs, by rw [hscan, hspoiled hs]⟩

end Egl.Proofs
