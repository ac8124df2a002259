import Egl.Proofs.ShortestForms
import Egl.Proofs.TwoPass
import Egl.Proofs.Values

namespace Egl.Proofs

variable {e f : EntryPoint} {v w : Int32} {s t : String} {ch : Char}

section Buffer

/-- What printing a text to a buffer comes to. -/
structure Print where
  buffer : Bytes
  /-- How many bytes of the text are in the buffer. -/
  written : Nat
  /-- The length of the whole text, whether or not all of it was written. -/
  reported : Nat

/-- Prints a text to a buffer of zero bytes. The last of them stays, and what does not fit before it
is lost. -/
def print (size : Nat) (text : Bytes) : Print where
  buffer := overwrite (List.replicate size 0) (text.take (size - 1))
  written := (text.take (size - 1)).length
  reported := text.length

/-- The text that is taken from the buffer, by the reported length. There is nothing behind the end
of the buffer. -/
def Print.text? (p : Print) : Option Bytes :=
  if p.reported ≤ p.buffer.length then some (p.buffer.take p.reported) else none

/-- A text that is shorter than the buffer is taken from it as it was printed. -/
theorem print_fits {size : Nat} {text : Bytes} (h : text.length < size) :
    (print size text).written = (print size text).reported ∧
      (print size text).text? = some text := by
  have htake : text.take (size - 1) = text := List.take_of_length_le (by omega)
  have hlong : text.length ≤ (overwrite (List.replicate size 0) text).length := by
    rw [overwrite_length, List.length_replicate]
    omega
  have hfront : (overwrite (List.replicate size 0) text).take text.length = text := by
    rw [overwrite, List.length_replicate, List.take_of_length_le (Nat.le_of_lt h), List.take_left]
  simp only [Print.text?, print, htake, if_pos hlong, hfront, and_self]

end Buffer

section Length

theorem digitChar_small : (d : Nat) → d.digitChar.toNat < 0x80
  | 0 | 1 | 2 | 3 | 4 | 5 | 6 | 7 | 8 | 9 | 10 | 11 | 12 | 13 | 14 | 15 => by decide
  | d + 16 => by
    rw [Nat.digitChar_eq_star.mpr (Nat.le_add_left 16 d)]
    decide

theorem mem_toDigits {b n : Nat} (hb : 1 < b) (h : ch ∈ Nat.toDigits b n) :
    ∃ d : Nat, ch = d.digitChar := by
  induction n using Nat.strongRecOn with
  | ind n ih =>
    rw [Nat.toDigits_eq_if hb] at h
    split at h
    case isTrue => exact ⟨n, List.mem_singleton.mp h⟩
    case isFalse hn =>
      rcases List.mem_append.mp h with hfront | hlast
      · exact ih (n / b) (Nat.div_lt_self (by omega) hb) hfront
      · exact ⟨n % b, List.mem_singleton.mp hlast⟩

/-- Text of characters that are bytes of their own. -/
def Narrow (s : String) : Prop := ∀ ch ∈ s.toList, ch.toNat < 0x80

instance (s : String) : Decidable (Narrow s) :=
  List.decidableBAll (fun ch : Char => ch.toNat < 0x80) s.toList

theorem Narrow.append (hs : Narrow s) (ht : Narrow t) : Narrow (s ++ t) := by
  intro ch hch
  rw [String.toList_append, List.mem_append] at hch
  exact hch.elim (hs ch) (ht ch)

theorem Narrow.alignRight (hs : Narrow s) (width : Nat) : Narrow (Numeral.alignRight width s) := by
  intro ch hch
  rw [Numeral.alignRight, String.toList_ofList, List.leftpad, List.mem_append] at hch
  rcases hch with hpad | hch
  · rw [List.eq_of_mem_replicate hpad]
    decide
  · exact hs ch hch

theorem digits_narrow {b : Nat} (hb : 1 < b) (n : Nat) :
    Narrow (String.ofList (Nat.toDigits b n)) := by
  intro ch hch
  rw [String.toList_ofList] at hch
  obtain ⟨d, rfl⟩ := mem_toDigits hb hch
  exact digitChar_small d

theorem decimal_narrow (i : Int) : Narrow (Numeral.decimal i) := by
  have hten : 1 < 10 := by decide
  cases i with
  | ofNat n => exact digits_narrow hten n
  | negSucc n =>
    have hsign : Narrow "-" := by decide
    exact hsign.append (digits_narrow hten (n + 1))

theorem hexDigits_narrow (n : Nat) : Narrow (Numeral.hexDigits n) := digits_narrow (by decide) n

/-- Such a text has as many bytes as characters. -/
theorem Narrow.length (h : Narrow s) : (Bytes.ofString s).length = s.length := by
  have hchars : ∀ cs : List Char, (∀ ch ∈ cs, ch.toNat < 0x80) →
      (Utf8.encode cs).length = cs.length := by
    intro cs hcs
    induction cs with
    | nil => rfl
    | cons ch cs ih =>
      obtain ⟨hfirst, hrest⟩ := List.forall_mem_cons.mp hcs
      have hone : (Utf8.encodeChar ch).length = 1 := by
        rcases encodeChar_cases ch with ⟨-, he⟩ | ⟨hn, -⟩ | ⟨hn, -⟩ | ⟨hn, -⟩
        · rw [he]
          rfl
        all_goals omega
      rw [encode_cons, List.length_append, hone, ih hrest, List.length_cons, Nat.add_comm]
  rw [Bytes.ofString, hchars s.toList h, String.length_toList]

theorem alignRight_length (width : Nat) (s : String) :
    (Numeral.alignRight width s).length = max width s.length := by
  rw [Numeral.alignRight, String.length_ofList, List.length_leftpad, String.length_toList]

/-- A numeral of a machine integer has at most ten digits and a sign. -/
theorem decimal_length_le (v : Int32) : (Numeral.decimal v.toInt).length ≤ 11 := by
  have hlow := v.le_toInt
  have hhigh := v.toInt_lt
  have hdigits : ∀ n : Nat, n ≤ 2 ^ 31 → (Numeral.natural n).length ≤ 10 := by
    intro n hn
    rw [Numeral.natural, String.length_ofList, Nat.length_toDigits_le_iff (by decide) (by decide)]
    omega
  rcases hv : v.toInt with n | n
  · rw [hv, Int.ofNat_eq_natCast] at hhigh
    have hn := hdigits n (by omega)
    rw [Numeral.decimal]
    omega
  · rw [hv, Int.negSucc_eq] at hlow
    have hn := hdigits (n + 1) (by omega)
    rw [Numeral.decimal, String.length_append]
    change 1 + _ ≤ 11
    omega

theorem hexDigits_length_le (v : Int32) : (Numeral.hexDigits v.toUInt32.toNat).length ≤ 8 := by
  have hhigh := v.toUInt32.toNat_lt
  rw [Numeral.hexDigits, String.length_ofList,
    Nat.length_toDigits_le_iff (by decide) (by decide)]
  omega

end Length

section Words

/-- Values that are not the tag of any entry point that can fail. -/
def Untagged (v : Int32) : Prop := ∀ e : EntryPoint, e.canFail = true → e.tag ≠ v

/-- The words for a value name the entry point with that tag, or show the value as a number. -/
theorem callMessage_cases (v : Int32) :
    (∃ e : EntryPoint, e.canFail = true ∧ e.tag = v ∧
      ErrorCode.callMessage v = e.name ++ " failed") ∨
    (Untagged v ∧ ErrorCode.callMessage v =
      "unknown call " ++ (Numeral.alignRight 5 (Numeral.decimal v.toInt) ++ ("(" ++
        (Numeral.alignRight 4 (Numeral.hexDigits v.toUInt32.toNat) ++ ")")))) := by
  unfold ErrorCode.callMessage
  cases hv : EntryPoint.ofTag? v with
  | some e =>
    have he := List.find?_some hv
    rw [Bool.and_eq_true, decide_eq_true_eq] at he
    exact .inl ⟨e, he.1, he.2, rfl⟩
  | none =>
    refine .inr ⟨?_, by simp only [String.append_assoc]⟩
    rintro e he rfl
    cases (EntryPoint.ofTag?_tag he).symm.trans hv

theorem Untagged.callMessage (h : Untagged v) : ErrorCode.callMessage v =
    "unknown call " ++ (Numeral.alignRight 5 (Numeral.decimal v.toInt) ++ ("(" ++
      (Numeral.alignRight 4 (Numeral.hexDigits v.toUInt32.toNat) ++ ")"))) := by
  rcases callMessage_cases v with ⟨e, hc, ht, -⟩ | ⟨-, hm⟩
  · exact absurd ht (h e hc)
  · exact hm

/-- The length of the words for a number: those around it, and at least the widths of its two
fields. -/
theorem Untagged.length (h : Untagged v) :
    24 ≤ (Bytes.ofString (ErrorCode.callMessage v)).length ∧
      (Bytes.ofString (ErrorCode.callMessage v)).length ≤ 34 := by
  have hlead : Narrow "unknown call " := by decide
  have hopen : Narrow "(" := by decide
  have hclose : Narrow ")" := by decide
  have hnarrow := hlead.append <| ((decimal_narrow v.toInt).alignRight 5).append <| hopen.append <|
    ((hexDigits_narrow v.toUInt32.toNat).alignRight 4).append hclose
  have hdecimal := decimal_length_le v
  have hhex := hexDigits_length_le v
  have hlength : (Bytes.ofString (ErrorCode.callMessage v)).length =
      13 + (max 5 (Numeral.decimal v.toInt).length +
        (1 + (max 4 (Numeral.hexDigits v.toUInt32.toNat).length + 1))) := by
    rw [h.callMessage, Narrow.length hnarrow]
    simp only [String.length_append, alignRight_length]
    rfl
  omega

theorem name_injective (h : e.name = f.name) : e = f := by
  have hn : (EntryPoint.all.map EntryPoint.name).Nodup := by decide
  exact List.inj_on_of_nodup_map hn (EntryPoint.mem_all e) (EntryPoint.mem_all f) h

theorem name_head (e : EntryPoint) : e.name.toList.head? = some 'e' := by cases e <;> rfl

/-- What stands in a field is told by it, unless it starts with a blank itself. -/
theorem alignRight_injective {width : Nat} (hs : ' ' ∉ s.toList) (ht : ' ' ∉ t.toList)
    (h : Numeral.alignRight width s = Numeral.alignRight width t) : s = t := by
  have hstrip : ∀ l : List Char, ' ' ∉ l → (l.leftpad width ' ').dropWhile (· = ' ') = l := by
    intro l hl
    rw [List.leftpad, List.dropWhile_append_of_pos fun ch hch => by
      rw [List.eq_of_mem_replicate hch]
      decide]
    cases l with
    | nil => rfl
    | cons first rest =>
      have hfirst : ¬ first = ' ' := fun he => hl (he ▸ List.mem_cons_self)
      rw [List.dropWhile_cons_of_neg (by simpa using hfirst)]
  have hpads := String.ofList_injective h
  have hlists := congrArg (List.dropWhile (· = ' ')) hpads
  rw [hstrip _ hs, hstrip _ ht] at hlists
  exact String.toList_inj.mp hlists

/-- The words that show a number tell it: the first field is its decimal. -/
theorem Untagged.injective (hv : Untagged v) (hw : Untagged w)
    (h : ErrorCode.callMessage v = ErrorCode.callMessage w) : v = w := by
  have hblank : ∀ i, ' ' ∉ (Numeral.decimal i).toList := not_mem_decimal rfl (by decide)
  have hopen : ∀ i, '(' ∉ (Numeral.decimal i).toList := not_mem_decimal rfl (by decide)
  have hlacks : ∀ u : Int32, '(' ∉ (Numeral.alignRight 5 (Numeral.decimal u.toInt)).toList := by
    intro u hu
    rw [Numeral.alignRight, String.toList_ofList, List.leftpad, List.mem_append] at hu
    rcases hu with hpad | hdecimal
    · exact absurd (List.eq_of_mem_replicate hpad) (by decide)
    · exact hopen _ hdecimal
  have hsplit : ∀ l s : String, (l ++ ("(" ++ s)).toList = l.toList ++ '(' :: s.toList := by
    intro l s
    simp
  rw [hv.callMessage, hw.callMessage] at h
  have hchars := congrArg String.toList ((String.append_right_inj _).mp h)
  rw [hsplit, hsplit] at hchars
  have hfield := (append_cons_injective (hlacks v) (hlacks w) hchars).1
  have hdecimal := alignRight_injective (hblank _) (hblank _) (String.toList_inj.mp hfield)
  exact Int32.toInt_inj.mp (decimal_injective hdecimal)

/-- No entry point has a name that starts like the words for a number. -/
theorem name_ne_unknown (e : EntryPoint) (s t : String) :
    e.name ++ s ≠ "unknown call " ++ t := by
  intro h
  have hhead := congrArg (fun text => text.toList.head?) h
  simp [name_head] at hhead

theorem callMessage_injective (h : ErrorCode.callMessage v = ErrorCode.callMessage w) : v = w := by
  rcases callMessage_cases v with ⟨e, -, hv, hm⟩ | ⟨hv, hm⟩
  · rcases callMessage_cases w with ⟨f, -, hw, hm'⟩ | ⟨hw, hm'⟩
    · rw [hm, hm'] at h
      rw [← hv, ← hw, name_injective ((String.append_left_inj _).mp h)]
    · rw [hm, hm'] at h
      exact absurd h (name_ne_unknown e _ _)
  · rcases callMessage_cases w with ⟨f, -, hw, hm'⟩ | ⟨hw, -⟩
    · rw [hm, hm'] at h
      exact absurd h.symm (name_ne_unknown f _ _)
    · exact hv.injective hw h

theorem textMessage_injective (h : ErrorCode.textMessage v = ErrorCode.textMessage w) : v = w := by
  have hne : ∀ t, "non UTF-8 string received" ≠ "unknown error " ++ t := by
    intro t ht
    have hhead := congrArg (fun text => text.toList.head?) ht
    simp at hhead
  unfold ErrorCode.textMessage at h
  split at h
  case isTrue hv =>
    split at h
    case isTrue hw => rw [hv, hw]
    case isFalse => exact absurd h (hne _)
  case isFalse =>
    split at h
    case isTrue => exact absurd h.symm (hne _)
    case isFalse => exact Int32.toInt_inj.mp (decimal_injective ((String.append_right_inj _).mp h))

end Words

/-- The words for a value as they are printed to their buffer. -/
def printed (v : Int32) : Print := print 40 (.ofString (ErrorCode.callMessage v))

/-- The words for a value that is no tag are shorter than their buffer. So no more is reported than
was written, and what is taken from the buffer are these words. Entry points have names of their
own, and two codes of a category are the same if and only if their words are. -/
theorem messages_identify :
    (∀ v, Untagged v → (printed v).reported < 40 ∧ (printed v).reported ≤ (printed v).written ∧
      (printed v).text? = some (.ofString (ErrorCode.callMessage v))) ∧
    (∀ e f : EntryPoint, e.name = f.name → e = f) ∧
    ∀ c d : ErrorCode, c.category = d.category → (c = d ↔ c.message = d.message) := by
  refine ⟨fun v hv => ?_, fun e f => name_injective,
    fun c d hc => ⟨fun h => by rw [h], fun h => ?_⟩⟩
  · have hlength : (Bytes.ofString (ErrorCode.callMessage v)).length < 40 := by
      have hmost := hv.length.2
      omega
    obtain ⟨hwritten, htext⟩ := print_fits hlength
    exact ⟨hlength, Nat.le_of_eq hwritten.symm, htext⟩
  · obtain ⟨category, v⟩ := c
    obtain ⟨_, w⟩ := d
    obtain rfl : category = _ := hc
    cases category with
    | call => exact congrArg _ (callMessage_injective h)
    | text => exact congrArg _ (textMessage_injective h)

/-- The least value has the longest words. -/
example : (printed (-2147483648)).reported = 34 := by decide +kernel

end Egl.Proofs
