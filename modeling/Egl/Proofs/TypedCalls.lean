import Egl.Proofs.Refusals
import Egl.Proofs.TwoPass
import Egl.Proofs.Unhindered

namespace Egl.Proofs

variable {α : Type} {c : Call} {w : World} {q : Request (Outcome α)} {native : Reply → α}

/-- The error code that a typed call returns, if any. -/
def errorCode : Outcome α → Option ErrorCode
  | .ok _ => none
  | .error code => some code

/-- The output parameters after a typed call, which were `former` before it. -/
def outputs (former : α) : Outcome α → α
  | .ok a => a
  | .error _ => former

/-- The script has no answer for the next call of an entry point, so the in-memory implementation
computes it. -/
def Computes (w : World) (e : EntryPoint) : Prop := (w.script.next e).1 = none

/-- What a typed call comes to in every world: `c` is the call that it makes, and `native` reads the
outputs off the reply. -/
structure Relays (q : Request (Outcome α)) (c : Call) (native : Reply → α) : Prop where
  /-- The call is the only thing that happens. -/
  made : ∀ w : World, (w.perform q).2 = (w.exchange c).2
  /-- Where calls are recorded, it is one event, which holds the reply that was read. -/
  recorded : ∀ w : World, Recording w →
    (w.perform q).2.journal = w.journal ++ [.call w.table c (w.exchange c).1]
  /-- Behind the native table, the library gets the call, and nothing else happens. -/
  linked : ∀ w : World, w.table = .native →
    (w.perform q).2 = { w with library := { w.library with calls := w.library.calls ++ [c] } }
  /-- The entry point is the one that its tag names. -/
  tag : EntryPoint.ofTag? c.entry.tag = some c.entry
  code : ∀ w : World, errorCode (w.perform q).1 = failure c.entry (w.exchange c).1
  written : ∀ (w : World) (former : α), failure c.entry (w.exchange c).1 = none →
    outputs former (w.perform q).1 = native (w.exchange c).1
  kept : ∀ (w : World) (former : α), failure c.entry (w.exchange c).1 ≠ none →
    outputs former (w.perform q).1 = former
  /-- The in-memory implementation counts the call for its entry point and for no other one. -/
  counted : ∀ w : World, Recording w → Computes w c.entry → ∀ e,
    (w.perform q).2.backend.count e = w.backend.count e + if e = c.entry then 1 else 0
  /-- An entry point that is switched to fail fails with its own tag. -/
  switched : ∀ w : World, Recording w → Computes w c.entry → c.entry ∈ w.backend.failures →
    errorCode (w.perform q).1 = some (.ofEntry c.entry)

/-- What an implementation writes to a buffer. It was told the size in 32 bits, and writes no more
than that. -/
def received (span : Span) (r : Reply) : List Handle := r.fill.take span.room

/-- A call that fills a buffer returns a count by the common law. Its buffer does not follow that
law. -/
structure Fills (span : Span) (q : Request (Outcome Int32 × List Handle)) (c : Call) : Prop where
  count : Relays (countOf q) c fun r => r.output 0
  /-- The buffer receives what the implementation writes, whether the call fails or not. -/
  cells : ∀ (w : World) (former : List Handle), former.length = span.cells →
    overwrite former (w.perform q).1.2 = overwrite former (received span (w.exchange c).1)
  /-- It is cut off by nothing but its end, if its size fits in 32 bits. -/
  whole : span.cells < 2147483648 → ∀ (w : World) (former : List Handle),
    former.length = span.cells →
      overwrite former (w.perform q).1.2 = overwrite former (w.exchange c).1.fill
  /-- So it keeps its value exactly if the implementation writes nothing else to it. -/
  kept_iff : ∀ (w : World) (former : List Handle), former.length = span.cells →
    (overwrite former (w.perform q).1.2 = former ↔
      received span (w.exchange c).1 = former.take (received span (w.exchange c).1).length)
  /-- The in-memory implementation writes nothing when it fails. -/
  computed : ∀ (w : World) (former : List Handle), former.length = span.cells → Recording w →
    Computes w c.entry → failure c.entry (w.exchange c).1 ≠ none →
    overwrite former (w.perform q).1.2 = former

/-- What a call comes to that asks for the state of the thread. It has no way to fail. -/
structure Tells {β : Type} (q : Request β) (c : Call) (native : Reply → β) : Prop where
  made : ∀ w : World, (w.perform q).2 = (w.exchange c).2
  recorded : ∀ w : World, Recording w →
    (w.perform q).2.journal = w.journal ++ [.call w.table c (w.exchange c).1]
  /-- Behind the native table, the library gets the call, and nothing else happens. -/
  linked : ∀ w : World, w.table = .native →
    (w.perform q).2 = { w with library := { w.library with calls := w.library.calls ++ [c] } }
  result : ∀ w : World, (w.perform q).1 = native (w.exchange c).1
  uncounted : ∀ w : World, Recording w → Computes w c.entry → ∀ e,
    (w.perform q).2.backend.count e = w.backend.count e

/-- The law of a typed call that makes the call `c`. -/
def Lawful (t : TypedCall) (c : Call) : Prop :=
  match t with
  | .status q => Relays q c fun _ => ()
  | .number q => Relays q c fun r => r.output 0
  | .handle q => Relays q c Reply.ret
  | .text q => Relays q c textOf
  | .version q => Relays q c fun r => (r.output 0, r.output 1)
  | .buffer span q => Fills span q c
  | .errorState q => Tells q c fun r => (UInt32.ofNat r.ret).toInt32
  | .boundApi q => Tells q c fun r => UInt32.ofNat r.ret

/-- The typed calls, each with the call that it makes. -/
inductive Makes : TypedCall → Call → Prop
  | bindApi (api : UInt32) : Makes (.status (.bindApi api)) (.bindApi api)
  | bindTexImage (d s : Handle) (buffer : Int32) :
    Makes (.status (.bindTexImage d s buffer)) (.bindTexImage d s buffer)
  | countFilteredConfigs (d : Handle) (attrs : Option (List Int32)) :
    Makes (.number (.countFilteredConfigs d attrs)) (.chooseConfig d attrs none)
  /-- Of a buffer, the call is told whether it has an address, and its size in 32 bits. -/
  | filteredConfigs (d : Handle) (attrs : Option (List Int32)) (span : Span) :
    Makes (.buffer span (.filteredConfigs d attrs span))
      (.chooseConfig d attrs (span.map Int32.ofNat))
  | copyBuffers (d s target : Handle) :
    Makes (.status (.copyBuffers d s target)) (.copyBuffers d s target)
  | createContext (d config share : Handle) (attrs : Option (List Int32)) :
    Makes (.handle (.createContext d config share attrs)) (.createContext d config share attrs)
  | createPbufferFromClientBuffer (d : Handle) (type : UInt32) (buffer config : Handle)
      (attrs : Option (List Int32)) :
    Makes (.handle (.createPbufferFromClientBuffer d type buffer config attrs))
      (.createPbufferFromClientBuffer d type buffer config attrs)
  | createPbufferSurface (d config : Handle) (attrs : Option (List Int32)) :
    Makes (.handle (.createPbufferSurface d config attrs)) (.createPbufferSurface d config attrs)
  | createPixmapSurface (d config pixmap : Handle) (attrs : Option (List Int32)) :
    Makes (.handle (.createPixmapSurface d config pixmap attrs))
      (.createPixmapSurface d config pixmap attrs)
  | createPlatformWindowSurface (d config window : Handle) (attrs : Option (List Int64)) :
    Makes (.handle (.createPlatformWindowSurface d config window attrs))
      (.createPlatformWindowSurface d config window attrs)
  | createWindowSurface (d config window : Handle) (attrs : Option (List Int32)) :
    Makes (.handle (.createWindowSurface d config window attrs))
      (.createWindowSurface d config window attrs)
  | destroyContext (d context : Handle) :
    Makes (.status (.destroyContext d context)) (.destroyContext d context)
  | destroySurface (d s : Handle) : Makes (.status (.destroySurface d s)) (.destroySurface d s)
  | getConfigAttrib (d config : Handle) (attr : Int32) :
    Makes (.number (.getConfigAttrib d config attr)) (.getConfigAttrib d config attr)
  | countConfigs (d : Handle) : Makes (.number (.countConfigs d)) (.getConfigs d none)
  | configs (d : Handle) (span : Span) :
    Makes (.buffer span (.configs d span)) (.getConfigs d (span.map Int32.ofNat))
  | getCurrentContext : Makes (.handle .getCurrentContext) .getCurrentContext
  | getCurrentDisplay : Makes (.handle .getCurrentDisplay) .getCurrentDisplay
  | getCurrentSurface (which : Int32) :
    Makes (.handle (.getCurrentSurface which)) (.getCurrentSurface which)
  | getDisplay (id : Handle) : Makes (.handle (.getDisplay id)) (.getDisplay id)
  | getError : Makes (.errorState .getError) .getError
  /-- A name ends at its first zero byte. -/
  | getProcAddress (name : Bytes) :
    Makes (.handle (.getProcAddress name)) (.getProcAddress name.upToZero)
  | initializeOnly (d : Handle) : Makes (.status (.initializeOnly d)) (.initializeDisplay d false)
  | initializeVersion (d : Handle) :
    Makes (.version (.initializeVersion d)) (.initializeDisplay d true)
  | makeCurrent (d draw read context : Handle) :
    Makes (.status (.makeCurrent d draw read context)) (.makeCurrent d draw read context)
  | queryApi : Makes (.boundApi .queryApi) .queryApi
  | queryContext (d context : Handle) (attr : Int32) :
    Makes (.number (.queryContext d context attr)) (.queryContext d context attr)
  | queryString (d : Handle) (name : Int32) :
    Makes (.text (.queryString d name)) (.queryString d name)
  | querySurface (d s : Handle) (attr : Int32) :
    Makes (.number (.querySurface d s attr)) (.querySurface d s attr)
  | releaseTexImage (d s : Handle) (buffer : Int32) :
    Makes (.status (.releaseTexImage d s buffer)) (.releaseTexImage d s buffer)
  | releaseThread : Makes (.status .releaseThread) .releaseThread
  | surfaceAttrib (d s : Handle) (attr value : Int32) :
    Makes (.status (.surfaceAttrib d s attr value)) (.surfaceAttrib d s attr value)
  | swapBuffers (d s : Handle) : Makes (.status (.swapBuffers d s)) (.swapBuffers d s)
  | swapInterval (d : Handle) (interval : Int32) :
    Makes (.status (.swapInterval d interval)) (.swapInterval d interval)
  | terminate (d : Handle) : Makes (.status (.terminate d)) (.terminate d)
  | waitClient : Makes (.status .waitClient) .waitClient
  | waitGL : Makes (.status .waitGL) .waitGL
  | waitNative (engine : Int32) : Makes (.status (.waitNative engine)) (.waitNative engine)

theorem errorCode_of_reads (h : Reads q native) (w : World) :
    errorCode (w.perform q).1 = failure q.call.entry (w.exchange q.call).1 := by
  have hr := h (w.exchange q.call).1
  change errorCode (q.read (w.exchange q.call).1) = _
  rw [hr]
  cases failure q.call.entry (w.exchange q.call).1 <;> rfl

theorem outputs_of_reads (h : Reads q native) (w : World) (former : α) :
    outputs former (w.perform q).1 =
      match failure q.call.entry (w.exchange q.call).1 with
      | none => native (w.exchange q.call).1
      | some _ => former := by
  have hr := h (w.exchange q.call).1
  change outputs former (q.read (w.exchange q.call).1) = _
  rw [hr]
  cases failure q.call.entry (w.exchange q.call).1 <;> rfl

/-- Only the implementation itself counts calls; no answer resets a count. -/
theorem respond_reached (b : Backend) (c : Call) : (b.respond c).2.reached = b.reached := by
  cases c
  all_goals
    simp only [Backend.respond]
    repeat' split
    all_goals rfl

/-- A call that can fail is counted once, even if it is switched to fail. -/
theorem answer_count (b : Backend) (c : Call) (e : EntryPoint) :
    (b.answer c).2.count e =
      b.count e + if c.entry.canFail = true ∧ e = c.entry then 1 else 0 := by
  have hcons : (c.entry :: b.reached).count e = b.count e + if e = c.entry then 1 else 0 := by
    rw [List.count_cons, Backend.count]
    simp only [beq_iff_eq, eq_comm (a := e)]
  unfold Backend.answer
  cases hc : c.entry.canFail with
  | false => simp [Backend.count, respond_reached]
  | true =>
    simp only [if_true, true_and]
    split
    · exact hcons
    · rw [Backend.count, respond_reached]
      exact hcons

theorem exchange_count (h : Recording w) (hn : Computes w c.entry) (e : EntryPoint) :
    (w.exchange c).2.backend.count e =
      w.backend.count e + if c.entry.canFail = true ∧ e = c.entry then 1 else 0 := by
  obtain ⟨-, hbackend, -⟩ := exchange_unscripted h hn
  rw [hbackend]
  exact answer_count w.backend c e

/-- Nothing but zeros is the failing answer of every entry point that can fail. -/
theorem failure_null {e : EntryPoint} (h : e.canFail = true) :
    failure e .null = some (.ofEntry e) := by
  revert h
  cases e <;> decide

theorem exchange_switched (h : Recording w) (hn : Computes w c.entry)
    (hc : c.entry.canFail = true) (hf : c.entry ∈ w.backend.failures) :
    (w.exchange c).1 = .null := by
  obtain ⟨hreply, -, -⟩ := exchange_unscripted h hn
  rw [hreply]
  simp [Backend.answer, hc, hf]

/-- A request that reads its reply by the sign of its entry point relays its call. -/
theorem relays_of_reads (h : Reads q native) (hc : q.call.entry.canFail = true) :
    Relays q q.call native where
  made _ := rfl
  recorded _ hr := perform_journal hr q
  linked _ hn := congrArg Prod.snd (exchange_native hn q.call)
  tag := EntryPoint.ofTag?_tag hc
  code := errorCode_of_reads h
  written w former hf := by rw [outputs_of_reads h, hf]
  kept w former hf := by
    obtain ⟨code, hcode⟩ := Option.ne_none_iff_exists'.mp hf
    rw [outputs_of_reads h, hcode]
  counted w hr hn e := by
    have hcount := exchange_count hr hn e
    simp only [hc, true_and] at hcount
    exact hcount
  switched w hr hn hf := by
    rw [errorCode_of_reads h, exchange_switched hr hn hc hf, failure_null hc]

/-- Overwriting sees no more of the values than the buffer has room for. -/
theorem overwrite_take (buffer values : List α) :
    overwrite buffer (values.take buffer.length) = overwrite buffer values := by
  simp only [overwrite, List.take_take, Nat.min_self, List.length_take]
  congr 1
  rcases Nat.le_total buffer.length values.length with hl | hl
  · rw [Nat.min_eq_left hl, List.drop_length, List.drop_eq_nil_of_le hl]
  · rw [Nat.min_eq_right hl]

theorem overwrite_eq_iff (buffer values : List α) :
    overwrite buffer values = buffer ↔
      values.take buffer.length = buffer.take values.length := by
  have hsplit : buffer.take values.length ++ buffer.drop values.length = buffer :=
    List.take_append_drop _ _
  constructor
  · intro h
    rw [overwrite] at h
    exact List.append_cancel_right (h.trans hsplit.symm)
  · intro h
    rw [overwrite, h, hsplit]

/-- A call takes a buffer to be no larger than it is. -/
theorem room_le_cells (span : Span) : span.room ≤ span.cells := by
  cases span with
  | none => exact Nat.le_refl 0
  | some n =>
    have hmod := Int.bmod_def n Int32.size
    change (Int32.ofNat n).toInt.toNat ≤ n
    rw [Int32.toInt_ofNat']
    simp only [Int32.size] at hmod ⊢
    split at hmod <;> omega

theorem listed_accepted (b : Backend) (buffer : Option Int32) :
    (b.listed buffer).accepted = true := by
  cases buffer <;> rfl

theorem chosen_accepted (b : Backend) (request : List (Int32 × Int32)) (buffer : Option Int32) :
    (b.chosen request buffer).accepted = true := by
  cases buffer <;> rfl

theorem found_fill (value : Option Int32) : (Backend.found value).fill = [] := by
  cases value with
  | none => rfl
  | some v => rfl

/-- An answer of the in-memory implementation that tells of a failure fills no buffer. -/
theorem respond_fill (b : Backend) (c : Call) (h : (b.respond c).1.accepted = false) :
    (b.respond c).1.fill = [] := by
  cases c
  case getConfigs d buffer =>
    by_cases hd : d = Backend.displayHandle
    · simp [Backend.respond, hd, listed_accepted] at h
    · simp [Backend.respond, hd, Reply.null]
  case chooseConfig d attrs buffer =>
    by_cases hd : d = Backend.displayHandle
    · simp [Backend.respond, hd, chosen_accepted] at h
    · simp [Backend.respond, hd, Reply.null]
  -- no other call has a buffer
  all_goals
    simp only [Backend.respond]
    repeat' split
    all_goals first | rfl | exact found_fill _

/-- An answer is the one for a switched entry point or the response of some state. -/
theorem answer_or (b : Backend) (c : Call) :
    (b.answer c).1 = .null ∨ ∃ other : Backend, (b.answer c).1 = (other.respond c).1 := by
  unfold Backend.answer
  split
  · simp only
    split
    · exact .inl rfl
    · exact .inr ⟨_, rfl⟩
  · exact .inr ⟨b, rfl⟩

theorem computed_fill (h : Recording w) (hn : Computes w c.entry) (hs : sign c.entry = .answer)
    (hf : failure c.entry (w.exchange c).1 ≠ none) : (w.exchange c).1.fill = [] := by
  have hr : (w.exchange c).1.accepted = false := by
    simpa [failure, refused, hs] using hf
  obtain ⟨hreply, -, -⟩ := exchange_unscripted h hn
  rw [hreply] at hr ⊢
  rcases answer_or w.backend c with hnull | ⟨other, hother⟩
  · rw [hnull]
    rfl
  · rw [hother] at hr ⊢
    exact respond_fill other c hr

theorem fill_fills (span : Span) (hs : sign c.entry = .answer) (hc : c.entry.canFail = true) :
    Fills span (.fill c span) c := by
  refine ⟨relays_of_reads (reads_value hs) hc, fun _ _ _ => rfl, ?_, ?_, ?_⟩
  · intro hn w former hl
    change overwrite former ((w.exchange c).1.fill.take span.room) = _
    rw [room_eq_cells hn, ← hl, overwrite_take]
  · intro w former hl
    change overwrite former (received span (w.exchange c).1) = former ↔ _
    have hfits : (received span (w.exchange c).1).length ≤ former.length := by
      rw [received, List.length_take, hl]
      exact Nat.le_trans (Nat.min_le_left _ _) (room_le_cells span)
    rw [overwrite_eq_iff, List.take_of_length_le hfits]
  · intro w former hl hr hn hf
    change overwrite former ((w.exchange c).1.fill.take span.room) = former
    rw [computed_fill hr hn hs hf]
    simp [overwrite]

theorem tells_read {β : Type} {q : Request β} (hc : q.call.entry.canFail = false) :
    Tells q q.call q.read where
  made _ := rfl
  recorded _ hr := perform_journal hr q
  linked _ hn := congrArg Prod.snd (exchange_native hn q.call)
  result _ := rfl
  uncounted w hr hn e := by
    have hcount := exchange_count hr hn e
    simp only [hc, Bool.false_eq_true, false_and, if_false, Nat.add_zero] at hcount
    exact hcount

/-- Every typed call keeps to its law, and only the question for the last error asks for it. -/
theorem typed_calls_relay {t : TypedCall} (h : Makes t c) :
    Lawful t c ∧ (c.entry = .getError → t = .errorState .getError) := by
  refine ⟨?_, ?_⟩
  · cases h
    case initializeVersion d => exact relays_of_reads (reads_version d) rfl
    case queryString d name => exact relays_of_reads (reads_text rfl) rfl
    case configs d span => exact fill_fills span rfl rfl
    case filteredConfigs d attrs span => exact fill_fills span rfl rfl
    case getError => exact tells_read rfl
    case queryApi => exact tells_read rfl
    all_goals
      first
      | exact relays_of_reads (reads_status rfl) rfl
      | exact relays_of_reads (reads_value rfl) rfl
      | exact relays_of_reads (reads_handle rfl) rfl
  · intro he
    cases h
    case getError => rfl
    all_goals cases he

theorem typed_calls_relay_version :
    Makes (.version (.initializeVersion 208)) (.initializeDisplay 208 true) ∧
      Lawful (.version (.initializeVersion 208)) (.initializeDisplay 208 true) :=
  ⟨.initializeVersion 208, (typed_calls_relay (.initializeVersion 208)).1⟩

/-- An implementation that writes to the buffer and then reports a failure. -/
def scribbling : World where
  script := ({} : Script).replace .getConfigs [some { ret := 0, out := [1], fill := [5] }]

/-- A failing call may change the caller's buffer, though not the count. -/
theorem buffer_not_kept :
    errorCode (scribbling.perform (.configs 208 (some 2))).1.1 = some (.ofEntry .getConfigs) ∧
      outputs (-77) (scribbling.perform (.configs 208 (some 2))).1.1 = -77 ∧
      overwrite [99, 99] (scribbling.perform (.configs 208 (some 2))).1.2 = [5, 99] := by
  decide

end Egl.Proofs
