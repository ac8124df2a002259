import Egl.Proofs.Places
import Egl.Proofs.TypedCalls

namespace Egl.Proofs

open Backend (Attributes displayHandle configHandle)

variable {w : World} {b : Backend} {e : EntryPoint} {found : List Nat} {n : Nat} {span : Span}

/-- How many of the matching configs go into a buffer for `n`. -/
def quota (b : Backend) (matching n : Nat) : Nat :=
  match b.fillLimit with
  | none => min matching n
  | some limit => min (min matching n) limit.toInt.toNat

theorem quota_le_matching (b : Backend) (matching n : Nat) : quota b matching n ≤ matching := by
  unfold quota
  split <;> omega

theorem quota_le (b : Backend) (matching n : Nat) : quota b matching n ≤ n := by
  unfold quota
  split <;> omega

theorem quota_eq_min (b : Backend) (matching : Nat) (hn : n < 2147483648) :
    quota b matching n = min matching (b.room (.ofNat n)) := by
  unfold quota Backend.room
  rw [int32_ofNat_toNat hn]
  split <;> simp_all [Nat.min_assoc]

/-- What a call with a buffer comes to, if it is about the configs at some places of the table. -/
structure Reported (b : Backend) (found : List Nat) (span : Span)
    (result : Outcome Int32 × List Handle) : Prop where
  /-- The first configs are written, in the order of the table. -/
  written : result.2 = (found.take (quota b found.length span.cells)).map configHandle
  /-- They are as many as there are, as fit and as the limit allows. -/
  length : result.2.length = quota b found.length span.cells ∧ result.2.length ≤ span.cells
  /-- The other cells of the buffer keep what they held. -/
  kept : ∀ former : List Handle, former.length = span.cells →
    overwrite former result.2 = result.2 ++ former.drop result.2.length
  /-- The count is that of the written configs. Without a buffer it is that of all of them. -/
  count : ∃ count : Int32, result.1 = .ok count ∧
    count.toInt = if span = none then (found.length : Int) else result.2.length

theorem reported_of_reply {c : Call} {reply : Reply} (ha : reply.accepted = true)
    (hf : reply.fill = (found.take (quota b found.length span.cells)).map configHandle)
    (hc : reply.output 0 =
      .ofNat (if span = none then found.length else quota b found.length span.cells))
    (hs : found.length < 2147483648) (hn : span.cells < 2147483648) :
    Reported b found span ((Request.fill c span).read reply) := by
  have hm := quota_le_matching b found.length span.cells
  have hq := quota_le b found.length span.cells
  have hlength : reply.fill.length = quota b found.length span.cells := by
    rw [hf, List.length_map, List.length_take]
    omega
  have hcells : reply.fill.take span.room = reply.fill := by
    rw [room_eq_cells hn]
    exact List.take_of_length_le (by omega)
  have hread : (Request.fill c span).read reply = (.ok (reply.output 0), reply.fill) := by
    simp [Request.fill, Request.value, ha, hcells]
  rw [hread]
  refine ⟨hf, ⟨hlength, hlength ▸ hq⟩, fun former hl => ?_, _, rfl, ?_⟩
  · have hfits : reply.fill.length ≤ former.length := by omega
    rw [overwrite, List.take_of_length_le hfits]
  · rw [hc]
    split
    · exact Int32.toInt_ofNat_of_lt hs
    · rw [hlength]
      exact Int32.toInt_ofNat_of_lt (by omega)

/-- A request for the configs that satisfy some pairs comes to the places of these configs. -/
theorem chosen_reported (b : Backend) (c : Call) (request : List (Int32 × Int32))
    (hs : b.configs.length < 2147483648) (hn : span.cells < 2147483648) :
    Reported b (located b (·.satisfies request)) span
      ((Request.fill c span).read (b.chosen request span.told)) := by
  have hle := located_length_le b (·.satisfies request)
  cases span with
  | none =>
    refine reported_of_reply (chosen_accepted b request none) ?_ ?_ (by omega) hn
    · rw [Nat.le_zero.mp (quota_le b _ (Span.cells none))]
      rfl
    · rw [if_pos rfl, ← List.length_map configHandle, ← matching_located]
      rfl
  | some n =>
    have hquota := quota_eq_min b (located b (·.satisfies request)).length (n := n) hn
    have hwritten : (b.chosen request (some (.ofNat n))).fill =
        ((located b (·.satisfies request)).take (b.room (.ofNat n))).map configHandle := by
      rw [List.map_take, ← matching_located]
      rfl
    refine reported_of_reply (chosen_accepted b request (some (.ofNat n))) ?_ ?_ (by omega) hn
    · rw [Span.told, Option.map_some, hwritten]
      congr 1
      rw [List.take_eq_take_iff]
      change _ = min (quota b _ n) _
      omega
    · change Int32.ofNat (b.chosen request (some (.ofNat n))).fill.length = _
      rw [hwritten, List.length_map, List.length_take, Nat.min_comm, ← hquota, if_neg nofun]
      rfl

/-- Of two sizes, the lesser is the same whether they are compared as numbers or in 32 bits. -/
theorem int32_min {m n : Nat} (hm : m < 2147483648) (hn : n < 2147483648) :
    min (Int32.ofNat m) (Int32.ofNat n) = Int32.ofNat (min m n) := by
  have hle : Int32.ofNat m ≤ Int32.ofNat n ↔ m ≤ n := by
    rw [Int32.le_iff_toInt_le, Int32.toInt_ofNat_of_lt hm, Int32.toInt_ofNat_of_lt hn,
      Int.ofNat_le]
  change (if Int32.ofNat m ≤ Int32.ofNat n then Int32.ofNat m else Int32.ofNat n) = _
  simp only [hle]
  split
  case isTrue h => rw [Nat.min_eq_left h]
  case isFalse h => rw [Nat.min_eq_right (by omega)]

theorem listed_eq (hs : b.configs.length < 2147483648) (hn : n < 2147483648)
    (hl : ∀ limit, b.fillLimit = some limit → 0 ≤ limit) :
    b.listed (some (.ofNat n)) =
      { ret := 1
        out := [.ofNat (quota b b.configs.length n)]
        fill := (List.range (quota b b.configs.length n)).map configHandle } := by
  have hm := quota_le_matching b b.configs.length n
  have hback := int32_ofNat_toNat (Nat.lt_of_le_of_lt hm hs)
  have hfits := int32_min hs hn
  unfold Backend.listed
  unfold quota at hback ⊢
  cases hb : b.fillLimit with
  | none =>
    simp only [hb] at hback
    simp only [hfits, hback]
  | some limit =>
    simp only [hb] at hback
    have hleast : min (Int32.ofNat (min b.configs.length n)) limit =
        Int32.ofNat (min (min b.configs.length n) limit.toInt.toNat) := by
      have hpos := int32_ofNat_of_nonneg (hl limit hb)
      rw [← int32_min (by omega) (int32_toNat_lt limit), hpos]
    simp only [hfits, hleast, hback]

/-- A request for the whole table comes to all places, under a limit that is not negative. -/
theorem listed_reported (b : Backend) (c : Call) (hs : b.configs.length < 2147483648)
    (hl : ∀ limit, b.fillLimit = some limit → 0 ≤ limit) (hn : span.cells < 2147483648) :
    Reported b (located b fun _ => true) span
      ((Request.fill c span).read (b.listed span.told)) := by
  have hle : (List.range b.configs.length).length < 2147483648 := by rwa [List.length_range]
  rw [located_all]
  cases span with
  | none =>
    refine reported_of_reply (listed_accepted b none) ?_ ?_ hle hn
    · rw [Nat.le_zero.mp (quota_le b _ (Span.cells none))]
      rfl
    · rw [if_pos rfl, List.length_range]
      rfl
  | some n =>
    have hlisted := listed_eq hs (n := n) hn hl
    refine reported_of_reply (listed_accepted b (some (.ofNat n))) ?_ ?_ hle hn
    · rw [List.length_range, Span.told, Option.map_some, hlisted, List.take_range,
        Nat.min_eq_left (quota_le_matching b _ _)]
      rfl
    · rw [List.length_range, Span.told, Option.map_some, hlisted, if_neg nofun]
      rfl

/-- The two calls that fill a buffer, with the configs that they are about. An attribute list asks
for its pairs up to the terminator in the place of an attribute, and a missing one for nothing. -/
inductive FillCall :
    EntryPoint → (Span → Request (Outcome Int32 × List Handle)) → (Attributes → Bool) → Prop
  | all : FillCall .getConfigs (.configs displayHandle) fun _ => true
  | satisfying (list after : List Int32) (request : List (Int32 × Int32))
      (h : AttributeList.read? Code.none list = some (request, after)) :
    FillCall .chooseConfig (.filteredConfigs displayHandle (some list)) (·.satisfies request)
  | unasked : FillCall .chooseConfig (.filteredConfigs displayHandle none) fun _ => true

theorem reported_of_call {c : Call} {wanted : Attributes → Bool} (h : Unhindered c.entry w)
    (hc : c.entry.canFail = true) {reply : Reply}
    (hr : ((reach w.backend c.entry).respond c).1 = reply)
    (hw : Reported w.backend (located w.backend wanted) span
      ((Request.fill c span).read reply)) :
    Reported w.backend (located w.backend wanted) span (w.perform (.fill c span)).1 := by
  obtain ⟨hreply, -, -⟩ := exchange_unhindered h hc
  have hp : (w.perform (.fill c span)).1 = (Request.fill c span).read (w.exchange c).1 := rfl
  rwa [hp, hreply, hr]

/-- The configs that a call is about are at the places where they are located. -/
theorem FillCall.reported {ask : Span → Request (Outcome Int32 × List Handle)}
    {wanted : Attributes → Bool} (hf : FillCall e ask wanted) (h : Unhindered e w)
    (hs : w.backend.configs.length < 2147483648)
    (hl : ∀ limit, w.backend.fillLimit = some limit → 0 ≤ limit)
    (hn : span.cells < 2147483648) :
    Reported w.backend (located w.backend wanted) span (w.perform (ask span)).1 := by
  cases hf with
  | all => exact reported_of_call h rfl rfl (listed_reported w.backend _ hs hl hn)
  | satisfying list after request hread =>
    have hpairs : AttributeList.pairs Code.none (some list) = request := by
      simp [AttributeList.pairs, hread]
    refine reported_of_call h rfl ?_ (chosen_reported w.backend _ request hs hn)
    simp only [Backend.respond, if_true, hpairs]
    rfl
  | unasked => exact reported_of_call h rfl rfl (chosen_reported w.backend _ [] hs hn)

/-- The count of a call is that of the configs that it wrote, unless there is no buffer for those
that it is about. -/
theorem Reported.count_iff {result : Outcome Int32 × List Handle}
    (h : Reported b found span result) :
    (∃ count : Int32, result.1 = .ok count ∧ count.toInt = result.2.length) ↔
      span ≠ none ∨ found = [] := by
  obtain ⟨count, hok, hcount⟩ := h.count
  have hlength : span = none → result.2.length = 0 := by
    rintro rfl
    exact Nat.le_zero.mp h.length.2
  constructor
  · rintro ⟨other, hother, hwritten⟩
    obtain rfl : count = other := Except.ok.inj (hok.symm.trans hother)
    by_cases hn : span = none
    · rw [if_pos hn, hwritten, hlength hn] at hcount
      exact .inr (List.length_eq_zero_iff.mp (by omega))
    · exact .inl hn
  · intro hn
    refine ⟨count, hok, ?_⟩
    split at hcount
    · case isTrue hz =>
      rcases hn with hn | rfl
      · exact absurd hz hn
      · rw [hcount, hlength hz]
        rfl
    · exact hcount

/-- A call that fills a buffer writes the first of the configs that it is about, and reports how
many it wrote, except that without a buffer it reports how many there are. -/
theorem fill_calls_report {ask : Span → Request (Outcome Int32 × List Handle)}
    {wanted : Attributes → Bool} (hf : FillCall e ask wanted) (h : Unhindered e w)
    (hs : w.backend.configs.length < 2147483648)
    (hl : ∀ limit, w.backend.fillLimit = some limit → 0 ≤ limit)
    (hn : span.cells < 2147483648) :
    ∃ found : List Nat, found.Pairwise (· < ·) ∧
      (∀ i, i ∈ found ↔ ∃ config, w.backend.configs[i]? = some config ∧ wanted config = true) ∧
      Reported w.backend found span (w.perform (ask span)).1 ∧
      ((∃ count : Int32, (w.perform (ask span)).1.1 = .ok count ∧
          count.toInt = (w.perform (ask span)).1.2.length) ↔ span ≠ none ∨ found = []) :=
  have hr := hf.reported h hs hl hn
  ⟨located w.backend wanted, located_ascending _ _, fun _ => mem_located, hr, hr.count_iff⟩

/-- Three configs, the first and the last with red values of eight bits. -/
def trio : World where
  backend := { configs := [.make 1 8 8 8 8 24 8, .make 2 5 6 5 0 16 0, .make 3 8 8 8 0 24 0] }

theorem fill_calls_report_red :
    FillCall .chooseConfig (.filteredConfigs displayHandle (some [Code.redSize, 8, Code.none]))
        (·.satisfies [(Code.redSize, 8)]) ∧
      Unhindered .chooseConfig trio ∧ trio.backend.configs.length < 2147483648 ∧
      (∀ limit, trio.backend.fillLimit = some limit → 0 ≤ limit) ∧
      Span.cells (some 1) < 2147483648 ∧
      ∃ found : List Nat, found.Pairwise (· < ·) ∧
        (∀ i, i ∈ found ↔ ∃ config, trio.backend.configs[i]? = some config ∧
          config.satisfies [(Code.redSize, 8)] = true) ∧
        Reported trio.backend found (some 1) (trio.perform
          (.filteredConfigs displayHandle (some [Code.redSize, 8, Code.none]) (some 1))).1 ∧
        ((∃ count : Int32, (trio.perform (.filteredConfigs displayHandle
            (some [Code.redSize, 8, Code.none]) (some 1))).1.1 = .ok count ∧
          count.toInt = (trio.perform (.filteredConfigs displayHandle
            (some [Code.redSize, 8, Code.none]) (some 1))).1.2.length) ↔
          (some 1 : Span) ≠ none ∨ found = []) :=
  have hf := FillCall.satisfying [Code.redSize, 8, Code.none] [] [(Code.redSize, 8)] (by decide)
  have h : Unhindered .chooseConfig trio := ⟨by decide, by simp [trio], by decide⟩
  have hl : ∀ limit, trio.backend.fillLimit = some limit → 0 ≤ limit := by simp [trio]
  ⟨hf, h, by decide, hl, by decide, fill_calls_report hf h (by decide) hl (by decide)⟩

/-- With nothing to write to, both calls report configs that they did not write. -/
theorem count_without_buffer :
    (trio.perform (.configs displayHandle none)).1 = (.ok 3, []) ∧
      (trio.perform (.filteredConfigs displayHandle (some [Code.redSize, 8, Code.none]) none)).1 =
        (.ok 2, []) :=
  ⟨rfl, rfl⟩

end Egl.Proofs
