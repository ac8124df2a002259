import Egl.Proofs.Journal

namespace Egl.Proofs

variable {α β : Type} {w mid after : World}

/-- A buffer after values were written to its front. What does not fit is lost. -/
def overwrite (buffer values : List α) : List α :=
  values.take buffer.length ++ buffer.drop values.length

theorem overwrite_length (buffer values : List α) :
    (overwrite buffer values).length = buffer.length := by
  simp only [overwrite, List.length_append, List.length_take, List.length_drop]
  omega

/-- The cells that an enumeration reads are those of a buffer of null handles that was overwritten
by the implementation, as far as the reported count reaches. -/
theorem cells_eq_take {size total : Nat} (h : size ≤ total) (values : List Handle) :
    Enumeration.cells size 0 (values.take total) =
      (overwrite (List.replicate total 0) values).take size := by
  apply List.ext_getElem?
  intro i
  simp only [Enumeration.cells, overwrite, List.getElem?_take, List.getElem?_append,
    List.length_take, List.length_replicate, List.getElem?_replicate, List.getElem?_drop]
  grind

/-- The buffer for the configs that were counted, as a call is told of it. Nothing needs none. -/
def roomFor (total : Int32) : Option Int32 := if total = 0 then none else some total

/-- The outcome of an enumeration in two calls, for every pair of answers. The call `ask buffer` is
told the size of a buffer; without one it only counts. A reply reports success through its returned
word and a count through its output. -/
structure TwoPass (op : Op (List ConfigRef)) (display : Handle) (e : EntryPoint)
    (ask : Option Int32 → Call) : Prop where
  entry : ∀ buffer, (ask buffer).entry = e
  /-- A failed count is the only call. -/
  count_failed : ∀ {w counted first}, w.exchange (ask none) = (first, counted) →
    first.accepted = false → op w = .error (.coded (.ofEntry e) (entryName e)) counted
  /-- No list of negative length is made, so nothing is asked for. -/
  count_negative : ∀ {w counted first}, w.exchange (ask none) = (first, counted) →
    first.accepted = true → first.output 0 < 0 → op w = .error .negativeLength counted
  /-- Otherwise one more call is made, with room for exactly as many configs as were counted. -/
  fill_failed : ∀ {w counted filled first second}, w.exchange (ask none) = (first, counted) →
    first.accepted = true → 0 ≤ first.output 0 →
    counted.exchange (ask (roomFor (first.output 0))) = (second, filled) →
    second.accepted = false → op w = .error (.coded (.ofEntry e) (entryName e)) filled
  fill_negative : ∀ {w counted filled first second}, w.exchange (ask none) = (first, counted) →
    first.accepted = true → 0 ≤ first.output 0 →
    counted.exchange (ask (roomFor (first.output 0))) = (second, filled) →
    second.accepted = true → second.output 0 < 0 →
    op w = .error .negativeLength (filled.note (.shortfall e (second.output 0) (first.output 0)))
  /-- The list has the lesser of the two counts as its length, and its entries are the cells of a
  buffer of null handles that the implementation has overwritten. -/
  listed : ∀ {w counted filled first second}, w.exchange (ask none) = (first, counted) →
    first.accepted = true → 0 ≤ first.output 0 →
    counted.exchange (ask (roomFor (first.output 0))) = (second, filled) →
    second.accepted = true → 0 ≤ second.output 0 →
    ∃ configs,
      op w = .ok configs
        (if second.output 0 < first.output 0 then
          filled.note (.shortfall e (second.output 0) (first.output 0))
        else filled) ∧
      configs.length = min (second.output 0).toInt.toNat (first.output 0).toInt.toNat ∧
      ∀ i < configs.length, configs[i]? =
        (overwrite (List.replicate (first.output 0).toInt.toNat 0) second.fill)[i]?.map
          (ConfigRef.mk display)
  /-- No call but those two is made, and the second only after a count that is not negative. -/
  calls : ∀ {w counted first}, Recording w → w.exchange (ask none) = (first, counted) →
    (final (op w)).calls = w.calls ++
      if first.accepted = true ∧ 0 ≤ first.output 0 then
        [ask none, ask (roomFor (first.output 0))]
      else [ask none]
  /-- A line is logged exactly if both calls succeed and the second count is less. -/
  log : ∀ {w counted filled first second}, w.exchange (ask none) = (first, counted) →
    counted.exchange (ask (roomFor (first.output 0))) = (second, filled) →
    (final (op w)).log = w.log ++
      if first.accepted = true ∧ 0 ≤ first.output 0 ∧ second.accepted = true ∧
          second.output 0 < first.output 0 then
        [.shortfall e (second.output 0) (first.output 0)]
      else []
  /-- Every pair of answers occurs. -/
  answers : ∀ first second, ∃ w counted filled, Recording w ∧
    w.exchange (ask none) = (first, counted) ∧
    counted.exchange (ask (roomFor (first.output 0))) = (second, filled)

/-- A count below half the range of a machine integer is reported as it is. -/
theorem int32_ofNat_toNat {n : Nat} (h : n < 2147483648) : (Int32.ofNat n).toInt.toNat = n := by
  rw [Int32.toInt_ofNat_of_lt h]
  rfl

/-- And so is the size of a buffer. -/
theorem room_eq_cells {span : Span} (h : span.cells < 2147483648) : span.room = span.cells := by
  cases span with
  | none => rfl
  | some n => exact int32_ofNat_toNat h

theorem cells_ofLength (n : Nat) : (Span.ofLength n).cells = n := by
  unfold Span.ofLength
  split
  case isTrue hn => exact hn.symm
  case isFalse => rfl

theorem int32_toNat_lt (n : Int32) : n.toInt.toNat < 2147483648 := by
  have hlt := n.toInt_lt
  omega

theorem int32_ofNat_of_nonneg {n : Int32} (h : 0 ≤ n) : Int32.ofNat n.toInt.toNat = n := by
  have hpos : 0 ≤ n.toInt := Int32.le_iff_toInt_le.mp h
  refine Int32.toInt_inj.mp ?_
  rw [Int32.toInt_ofNat_of_lt (int32_toNat_lt n), Int.toNat_of_nonneg hpos]

theorem room_ofLength (total : Int32) :
    (Span.ofLength total.toInt.toNat).room = total.toInt.toNat := by
  have hcells := cells_ofLength total.toInt.toNat
  rw [room_eq_cells, hcells]
  rw [hcells]
  exact int32_toNat_lt total

theorem told_of_ne {n : Nat} (h : n ≠ 0) : (Span.ofLength n).told = some (.ofNat n) := by
  rw [Span.ofLength, if_neg h]
  rfl

/-- A list with as many cells as were counted is a buffer of exactly that size. -/
theorem told_ofLength {total : Int32} (h : 0 ≤ total) :
    (Span.ofLength total.toInt.toNat).told = roomFor total := by
  have hpos : 0 ≤ total.toInt := Int32.le_iff_toInt_le.mp h
  have hzero : total.toInt.toNat = 0 ↔ total = 0 := by
    rw [← Int32.toInt_inj, Int32.toInt_zero]
    omega
  unfold roomFor
  split
  case isTrue hz => rw [hzero.mpr hz]; rfl
  case isFalse hz => rw [told_of_ne (mt hzero.mp hz), int32_ofNat_of_nonneg h]

theorem int32_ofNat_nonneg {n : Nat} (h : n < 2147483648) : 0 ≤ Int32.ofNat n := by
  rw [Int32.le_iff_toInt_le, Int32.toInt_ofNat_of_lt h]
  exact Int.natCast_nonneg n

/-- A list of configs that agrees with a buffer cell by cell is the list of the handles that were
written to the buffer. -/
theorem eq_map_of_cells {configs : List ConfigRef} {display : Handle} {total : Nat}
    {handles : List Handle} (hl : configs.length = handles.length) (ht : handles.length ≤ total)
    (hc : ∀ i < configs.length, configs[i]? =
      (overwrite (List.replicate total 0) handles)[i]?.map (ConfigRef.mk display)) :
    configs = handles.map (ConfigRef.mk display) := by
  apply List.ext_getElem?
  intro i
  rw [List.getElem?_map]
  by_cases hi : i < configs.length
  · have htake : handles.take total = handles := List.take_of_length_le ht
    rw [hc i hi, overwrite, List.length_replicate, htake, List.getElem?_append_left (by omega)]
  · rw [List.getElem?_eq_none (by omega), List.getElem?_eq_none (by omega)]
    rfl

/-- An implementation that reports what it writes, and writes no more than it counted, is taken at
its word. After the second call, at most a line is added to the log. -/
theorem TwoPass.exact {op : Op (List ConfigRef)} {display : Handle} {e : EntryPoint}
    {ask : Option Int32 → Call} {counted filled : World} {first second : Reply} {total : Nat}
    (h : TwoPass op display e ask)
    (hw : w.exchange (ask none) = (first, counted)) (hf : first.accepted = true)
    (hc : first.output 0 = .ofNat total) (ht : total < 2147483648)
    (hw' : counted.exchange (ask (Span.ofLength total).told) = (second, filled))
    (hs : second.accepted = true) (hm : second.output 0 = .ofNat second.fill.length)
    (hle : second.fill.length ≤ total) :
    ∃ after, op w = .ok (second.fill.map (ConfigRef.mk display)) after ∧
      (after = filled ∨ ∃ n, after = filled.note n) := by
  have hcap : (first.output 0).toInt.toNat = total := by rw [hc, int32_ofNat_toNat ht]
  have hroom : (Span.ofLength total).told = roomFor (first.output 0) := by
    rw [← hcap, told_ofLength]
    rw [hc]
    exact int32_ofNat_nonneg ht
  rw [hroom] at hw'
  have hwritten : (second.output 0).toInt.toNat = second.fill.length := by
    rw [hm, int32_ofNat_toNat (by omega)]
  have hpos : 0 ≤ second.output 0 := by
    rw [hm]
    exact int32_ofNat_nonneg (by omega)
  obtain ⟨configs, hrun, hlength, hcells⟩ := h.listed hw hf
    (by rw [hc]; exact int32_ofNat_nonneg ht) hw' hs hpos
  rw [hwritten, hcap] at hlength
  rw [hcap] at hcells
  have hmap := eq_map_of_cells (by omega) hle hcells
  refine ⟨_, hmap ▸ hrun, ?_⟩
  split
  · exact .inr ⟨_, rfl⟩
  · exact .inl rfl

/-- An enumeration that yields as many configs as were counted leaves no line in the log. -/
theorem TwoPass.silent {op : Op (List ConfigRef)} {display : Handle} {e : EntryPoint}
    {ask : Option Int32 → Call} {counted : World} {first : Reply} {configs : List ConfigRef}
    (h : TwoPass op display e ask) (hw : w.exchange (ask none) = (first, counted))
    (hrun : op w = .ok configs after) (hc : first.output 0 = .ofNat configs.length)
    (hn : configs.length < 2147483648) : after.log = w.log := by
  rcases hw' : counted.exchange (ask (roomFor (first.output 0))) with ⟨second, filled⟩
  have hlog := h.log hw hw'
  rw [hrun] at hlog
  refine hlog.trans ?_
  rw [if_neg, List.append_nil]
  rintro ⟨hf, hpos, hs, hlt⟩
  by_cases hneg : second.output 0 < 0
  · cases hrun.symm.trans (h.fill_negative hw hf hpos hw' hs hneg)
  · have hwritten : 0 ≤ second.output 0 := Int32.not_lt.mp hneg
    obtain ⟨listed, hlisted, hlength, -⟩ := h.listed hw hf hpos hw' hs hwritten
    cases hrun.symm.trans hlisted
    rw [hc, int32_ofNat_toNat hn] at hlength
    rw [hc, Int32.lt_iff_toInt_lt, Int32.toInt_ofNat_of_lt hn] at hlt
    rw [Int32.le_iff_toInt_le, Int32.toInt_zero] at hwritten
    omega

section

variable {display : Handle} {e : EntryPoint} {ask : Option Int32 → Call}
  {counted filled : World} {first second : Reply}

/-- The enumeration with a given counting and filling call. -/
def enumerate (display : Handle) (e : EntryPoint) (ask : Option Int32 → Call) :
    Op (List ConfigRef) :=
  Enumeration.run display e.name e (.value (ask none)) fun span => .fill (ask span.told) span

theorem require_value_ok (what : String) {c : Call} (h : w.exchange c = (first, after))
    (hf : first.accepted = true) : Op.require what (.value c) w = .ok (first.output 0) after :=
  require_ok (q := .value c) h (by simp [Request.value, hf])

theorem require_value_error (what : String) {c : Call} (h : w.exchange c = (first, after))
    (hf : first.accepted = false) :
    Op.require what (.value c) w = .error (.coded (.ofEntry c.entry) (.ofString what)) after :=
  require_error (q := .value c) h (by simp [Request.value, hf])

theorem enumerate_count_failed (he : ∀ buffer, (ask buffer).entry = e)
    (hw : w.exchange (ask none) = (first, counted)) (hf : first.accepted = false) :
    enumerate display e ask w = .error (.coded (.ofEntry e) (entryName e)) counted := by
  have hr := require_value_error e.name hw hf
  rw [he] at hr
  exact bind_error hr _

theorem enumerate_count_negative (hw : w.exchange (ask none) = (first, counted))
    (hf : first.accepted = true) (hn : first.output 0 < 0) :
    enumerate display e ask w = .error .negativeLength counted := by
  unfold enumerate Enumeration.run
  rw [bind_ok (require_value_ok e.name hw hf)]
  simp only [hn, if_true]
  rfl

/-- What an enumeration makes of the answer to its second call. -/
def settle (display : Handle) (e : EntryPoint) (total : Int32) (second : Reply) :
    Op (List ConfigRef) := do
  let written ← Op.accept (entryName e)
    (if second.accepted then .ok (second.output 0) else .error (.ofEntry e))
  if written < total then
    Op.note (.shortfall e written total)
  if written < 0 then
    throw .negativeLength
  let size := min written.toInt.toNat total.toInt.toNat
  return (Enumeration.cells size 0 (second.fill.take total.toInt.toNat)).map
    (ConfigRef.mk display)

/-- With a count that is not negative, both calls are made before anything else happens. -/
theorem enumerate_filled (he : ∀ buffer, (ask buffer).entry = e)
    (hw : w.exchange (ask none) = (first, counted)) (hf : first.accepted = true)
    (hn : ¬ first.output 0 < 0)
    (hw' : counted.exchange (ask (roomFor (first.output 0))) = (second, filled)) :
    enumerate display e ask w = settle display e (first.output 0) second filled := by
  unfold enumerate Enumeration.run
  rw [bind_ok (require_value_ok e.name hw hf)]
  simp only [hn, if_false]
  rw [← told_ofLength (Int32.not_lt.mp hn)] at hw'
  rw [bind_ok (perform_eq (q := .fill _ (.ofLength (first.output 0).toInt.toNat)) hw')]
  simp only [Request.fill, Request.value, he, room_ofLength]
  rfl

theorem settle_failed {total : Int32} (h : second.accepted = false) :
    settle display e total second w = .error (.coded (.ofEntry e) (entryName e)) w := by
  unfold settle
  simp only [h, Bool.false_eq_true, if_false]
  rfl

/-- The world after an enumeration whose second call was answered. -/
def noted (e : EntryPoint) (total : Int32) (second : Reply) (w : World) : World :=
  if second.output 0 < total then w.note (.shortfall e (second.output 0) total) else w

/-- A shortfall is logged before a negative count ends the enumeration. -/
theorem settle_accepted {total : Int32} (h : second.accepted = true) :
    settle display e total second w =
      if second.output 0 < 0 then .error .negativeLength (noted e total second w)
      else .ok ((Enumeration.cells (min (second.output 0).toInt.toNat total.toInt.toNat) 0
        (second.fill.take total.toInt.toNat)).map (ConfigRef.mk display))
          (noted e total second w) := by
  unfold settle noted
  simp only [h, if_true]
  rw [bind_ok (accept_ok (entryName e) (second.output 0) w)]
  by_cases hs : second.output 0 < total <;> by_cases hn : second.output 0 < 0 <;>
    simp only [hs, hn, if_true, if_false] <;> rfl

theorem noted_of_negative {total : Int32} (h : second.output 0 < 0) (ht : ¬ total < 0) :
    noted e total second w = w.note (.shortfall e (second.output 0) total) := by
  have hs : second.output 0 < total := Int32.lt_of_lt_of_le h (Int32.not_lt.mp ht)
  simp only [noted, hs, if_true]

theorem final_settle {total : Int32} :
    final (settle display e total second w) =
      if second.accepted = true then noted e total second w else w := by
  cases h : second.accepted with
  | false => rw [settle_failed h]; rfl
  | true =>
    rw [settle_accepted h]
    split <;> rfl

theorem enumerate_calls (he : ∀ buffer, (ask buffer).entry = e) (h : Recording w)
    (hw : w.exchange (ask none) = (first, counted)) :
    (final (enumerate display e ask w)).calls = w.calls ++
      if first.accepted = true ∧ 0 ≤ first.output 0 then [ask none, ask (roomFor (first.output 0))]
      else [ask none] := by
  have hc := exchange_calls h hw
  cases hf : first.accepted with
  | false =>
    rw [enumerate_count_failed he hw hf]
    simpa [final] using hc
  | true =>
    by_cases hn : first.output 0 < 0
    · rw [enumerate_count_negative hw hf hn]
      simpa [final, Int32.not_le.mpr hn] using hc
    · rw [enumerate_filled he hw hf hn rfl, final_settle]
      have hc' := exchange_calls (c := ask (roomFor (first.output 0)))
        (exchange_recording h hw) rfl
      rw [hc, List.append_assoc] at hc'
      have hn' : 0 ≤ first.output 0 := Int32.not_lt.mp hn
      simp only [noted, hn', and_self, if_true]
      split
      · split
        · rw [note_calls, hc']
          rfl
        · rw [hc']
          rfl
      · rw [hc']
        rfl

theorem noted_log (e : EntryPoint) (total : Int32) (second : Reply) (w : World) :
    (noted e total second w).log = w.log ++
      if second.output 0 < total then [.shortfall e (second.output 0) total] else [] := by
  unfold noted
  split
  · rw [note_log]
  · rw [List.append_nil]

theorem enumerate_log (he : ∀ buffer, (ask buffer).entry = e)
    (hw : w.exchange (ask none) = (first, counted))
    (hw' : counted.exchange (ask (roomFor (first.output 0))) = (second, filled)) :
    (final (enumerate display e ask w)).log = w.log ++
      if first.accepted = true ∧ 0 ≤ first.output 0 ∧ second.accepted = true ∧
          second.output 0 < first.output 0 then
        [.shortfall e (second.output 0) (first.output 0)]
      else [] := by
  have hl := exchange_log hw
  have hl' := exchange_log hw'
  cases hf : first.accepted with
  | false =>
    rw [enumerate_count_failed he hw hf]
    simpa [final] using hl
  | true =>
    by_cases hn : first.output 0 < 0
    · rw [enumerate_count_negative hw hf hn]
      simpa [final, Int32.not_le.mpr hn] using hl
    · rw [enumerate_filled he hw hf hn hw', final_settle]
      have hn' : 0 ≤ first.output 0 := Int32.not_lt.mp hn
      simp only [hn', true_and]
      cases hs : second.accepted with
      | false => simp [hl', hl]
      | true => simp only [if_true, noted_log, hl', hl, true_and]

/-- The cells of a list of configs, one by one. -/
theorem getElem?_configs {total written : Int32} (i : Nat)
    (hi : i < min written.toInt.toNat total.toInt.toNat) :
    ((Enumeration.cells (min written.toInt.toNat total.toInt.toNat) 0
      (second.fill.take total.toInt.toNat)).map (ConfigRef.mk display))[i]? =
      (overwrite (List.replicate total.toInt.toNat 0) second.fill)[i]?.map
        (ConfigRef.mk display) := by
  rw [cells_eq_take (Nat.min_le_right _ _), List.getElem?_map, List.getElem?_take_of_lt hi]

/-- Scripted answers stand for any implementation, so every pair of answers occurs. -/
theorem any_answers (he : ∀ buffer, (ask buffer).entry = e) (first second : Reply) :
    ∃ w counted filled, Recording w ∧ w.exchange (ask none) = (first, counted) ∧
      counted.exchange (ask (roomFor (first.output 0))) = (second, filled) := by
  let w : World := { script := ⟨fun _ => [some first, some second]⟩ }
  let counted := (w.exchange (ask none)).2
  let last := ask (roomFor (first.output 0))
  refine ⟨w, counted, (counted.exchange last).2, ?_, ?_, ?_⟩
  · simp [Recording, World.table, w]
  · simp [World.exchange, World.answer, World.table, Script.next, w, counted]
  · simp [World.exchange, World.answer, World.table, Script.next, World.record, he, w, counted,
      last]

theorem enumerate_two_pass (e : EntryPoint) (ask : Option Int32 → Call)
    (he : ∀ buffer, (ask buffer).entry = e) : TwoPass (enumerate display e ask) display e ask where
  entry := he
  count_failed := enumerate_count_failed he
  count_negative := enumerate_count_negative
  fill_failed hw hf hn hw' hs := by
    rw [enumerate_filled he hw hf (Int32.not_lt.mpr hn) hw', settle_failed hs]
  fill_negative hw hf hn hw' hs hm := by
    rw [enumerate_filled he hw hf (Int32.not_lt.mpr hn) hw', settle_accepted hs, if_pos hm,
      noted_of_negative hm (Int32.not_lt.mpr hn)]
  listed hw hf hn hw' hs hm := by
    rw [enumerate_filled he hw hf (Int32.not_lt.mpr hn) hw', settle_accepted hs,
      if_neg (Int32.not_lt.mpr hm)]
    refine ⟨_, rfl, ?_, ?_⟩
    · simp only [List.length_map, cells_eq_take (Nat.min_le_right _ _), List.length_take,
        overwrite_length, List.length_replicate]
      omega
    · intro i hi
      refine getElem?_configs i ?_
      simp only [List.length_map, cells_eq_take (Nat.min_le_right _ _), List.length_take,
        overwrite_length, List.length_replicate] at hi
      omega
  calls h hw := enumerate_calls he h hw
  log hw hw' := enumerate_log he hw hw'
  answers := any_answers he

theorem configs_two_pass (d : Display) :
    TwoPass d.configs d.handle .getConfigs (.getConfigs d.handle) :=
  enumerate_two_pass .getConfigs (.getConfigs d.handle) fun _ => rfl

theorem chooseConfigs_two_pass (f : Filter) :
    TwoPass f.chooseConfigs f.display .chooseConfig
      (.chooseConfig f.display (some f.attributes)) :=
  enumerate_two_pass .chooseConfig (.chooseConfig f.display (some f.attributes)) fun _ => rfl

/-- Asking a display for all its configs and asking for those that a filter chooses go through the
same two passes. They differ in the entry point and in the attribute list, which is that of the
filter both times. -/
theorem enumerations_two_pass :
    (∀ d : Display, TwoPass d.configs d.handle .getConfigs (.getConfigs d.handle)) ∧
    ∀ f : Filter, TwoPass f.chooseConfigs f.display .chooseConfig
      (.chooseConfig f.display (some f.attributes)) :=
  ⟨configs_two_pass, chooseConfigs_two_pass⟩

end

end Egl.Proofs
