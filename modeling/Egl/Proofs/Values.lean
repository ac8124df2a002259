import Egl.Property
import Egl.Proofs.Masks

namespace Egl.Proofs

variable {kind : PropertyKind} {p : Property} {raw other : Int32}

/-- The values that have a text of their own. An enumeration has names for a few. -/
def Familiar : PropertyKind → PropertyValue → Prop
  | .colorBuffer, .number v => v = Code.rgbBuffer ∨ v = Code.luminanceBuffer
  | .caveat, .number v =>
    v = Code.none ∨ v = Code.slowConfig ∨ v = Code.nonConformantConfig
  | .transparency, .number v => v = Code.none ∨ v = Code.transparentRgb
  | _, _ => True

theorem natural_injective {n k : Nat} (h : Numeral.natural n = Numeral.natural k) : n = k := by
  have hdigits : Nat.toDigits 10 n = Nat.toDigits 10 k := String.ofList_injective h
  have hread := congrArg (Nat.ofDigitChars 10 · 0) hdigits
  simpa only [Nat.ofDigitChars_ten_toDigits] using hread

theorem mem_natural {n : Nat} {ch : Char} (h : ch ∈ (Numeral.natural n).toList) :
    ch.isDigit = true := by
  rw [Numeral.natural, String.toList_ofList] at h
  exact Nat.isDigit_of_mem_toDigits (by decide) (by decide) h

/-- A numeral does not start with a sign. -/
theorem natural_ne_signed (n : Nat) (text : String) : Numeral.natural n ≠ "-" ++ text := by
  intro h
  have hsign : '-' ∈ (Numeral.natural n).toList := by
    rw [h, String.toList_append]
    exact List.mem_append_left _ (by decide)
  exact absurd (mem_natural hsign) (by decide)

theorem decimal_injective {i j : Int} (h : Numeral.decimal i = Numeral.decimal j) : i = j := by
  cases i with
  | ofNat n =>
    cases j with
    | ofNat k => exact congrArg Int.ofNat (natural_injective h)
    | negSucc k => exact absurd h (natural_ne_signed n _)
  | negSucc n =>
    cases j with
    | ofNat k => exact absurd h.symm (natural_ne_signed k _)
    | negSucc k =>
      have hnext := natural_injective ((String.append_right_inj _).mp h)
      exact congrArg Int.negSucc (Nat.succ.inj hnext)

/-- A decimal is made of digits and a sign. -/
theorem not_mem_decimal {ch : Char} (hd : ch.isDigit = false) (hs : ch ≠ '-') (i : Int) :
    ch ∉ (Numeral.decimal i).toList := by
  intro h
  have hdigits : ∀ n, ch ∉ (Numeral.natural n).toList := fun n hn =>
    Bool.eq_false_iff.mp hd (mem_natural hn)
  cases i with
  | ofNat n => exact hdigits n h
  | negSucc n =>
    rw [Numeral.decimal, String.toList_append, List.mem_append] at h
    rcases h with h | h
    · exact hs (List.mem_singleton.mp h)
    · exact hdigits _ h

theorem decimal_commaless (i : Int) : ',' ∉ (Numeral.decimal i).toList :=
  not_mem_decimal rfl (by decide) i

theorem flagName_injective {a b : Bool} (h : flagName a = flagName b) : a = b := by
  revert h
  cases a <;> cases b <;> decide

theorem truncate_truncate (m : Bitmask) (v : Int32) : m.truncate (m.truncate v) = m.truncate v := by
  simp only [Bitmask.truncate, Int32.and_assoc, Int32.and_self]

/-- The kinds of properties. Their masks have names for what they know. -/
def Proper : PropertyKind → Prop
  | .mask m => Named m
  | _ => True

theorem kind_proper (p : Property) : Proper p.kind := by
  cases p
  all_goals first | exact trivial | exact renderable_named | exact surface_named

theorem text_of_value (h : kind.value raw = kind.value other) :
    kind.text raw = kind.text other := by
  cases kind with
  | number | colorBuffer | caveat | transparency =>
    obtain rfl := PropertyValue.number.inj h
    rfl
  | flag => exact congrArg flagName (PropertyValue.flag.inj h)
  | mask m => exact congrArg m.text (PropertyValue.number.inj h)

theorem value_of_text (hk : Proper kind) (hr : Familiar kind (kind.value raw))
    (ho : Familiar kind (kind.value other)) (h : kind.text raw = kind.text other) :
    kind.value raw = kind.value other := by
  cases kind with
  | number => exact congrArg _ (Int32.toInt_inj.mp (decimal_injective h))
  | flag => exact congrArg PropertyValue.flag (flagName_injective h)
  | mask m =>
    have hsame := hk.truncate_of_text h
    rw [truncate_truncate, truncate_truncate] at hsame
    exact congrArg PropertyValue.number hsame
  | colorBuffer =>
    rcases hr with rfl | rfl <;> rcases ho with rfl | rfl <;> revert h <;> decide
  | caveat =>
    rcases hr with rfl | rfl | rfl <;> rcases ho with rfl | rfl | rfl <;> revert h <;> decide
  | transparency =>
    rcases hr with rfl | rfl <;> rcases ho with rfl | rfl <;> revert h <;> decide

theorem mask_commaless {m : Bitmask} (h : Named m) (v : Int32) : ',' ∉ (m.text v).toList := by
  intro hcomma
  rw [text_eq_join] at hcomma
  rcases mem_join hcomma with hbar | ⟨part, hpart, hcomma⟩
  · exact absurd hbar (by decide)
  · exact h.parts_lack hpart rfl hcomma

theorem text_commaless (hk : Proper kind) (raw : Int32) : ',' ∉ (kind.text raw).toList := by
  cases kind with
  | number => exact decimal_commaless raw.toInt
  | flag =>
    simp only [PropertyKind.text, flagName]
    split <;> decide
  | mask m => exact mask_commaless hk _
  | colorBuffer | caveat | transparency =>
    simp only [PropertyKind.text, colorBufferName, caveatName, transparencyName]
    repeat' split
    all_goals decide

theorem name_commaless (p : Property) : ',' ∉ p.name.toList := by cases p <;> decide

end Egl.Proofs
