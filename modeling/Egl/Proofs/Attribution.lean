import Egl.Proofs.Atomicity
import Egl.Proofs.Endings
import Egl.Proofs.ShortestForms
import Mathlib.Data.List.TakeWhile

namespace Egl.Proofs

variable {α β ε σ : Type} {s : Session} {st : Step} {code : ErrorCode} {subject : Bytes}
  {about : EntryPoint → Bytes → Prop} {e : EntryPoint}

/-- The subject of an error is an entry point, by its name. -/
def ByName (e : EntryPoint) (subject : Bytes) : Prop := subject = entryName e

/-- A call failed with an error code and was the last thing to happen, and the subject is one that
its entry point may go under. -/
def Blamed (about : EntryPoint → Bytes → Prop) (code : ErrorCode) (subject : Bytes)
    (after : World) : Prop :=
  ∃ mid c reply, World.exchange mid c = (reply, after) ∧ failure c.entry reply = some code ∧
    about c.entry subject

section Blames

variable {world : σ → World} {fault : ε → Fault}

/-- A program whose error codes are blamed on calls. Its world is a part of its state, and its
errors stand for faults. -/
def Blames (about : EntryPoint → Bytes → Prop) (world : σ → World) (fault : ε → Fault)
    (program : EStateM ε σ α) : Prop :=
  ∀ s error after code subject, program s = .error error after →
    fault error = .failed (.coded code subject) → Blamed about code subject (world after)

abbrev BlamesOp (about : EntryPoint → Bytes → Prop) (op : Op α) : Prop :=
  Blames about id Fault.failed op

abbrev BlamesAct (about : EntryPoint → Bytes → Prop) (act : Act α) : Prop :=
  Blames about Session.world id act

/-- A program that never ends with an error code has nothing to blame. -/
theorem Blames.of_uncoded {program : EStateM ε σ α}
    (h : ∀ s error after, program s = .error error after →
      ∀ code subject, fault error ≠ .failed (.coded code subject)) :
    Blames about world fault program :=
  fun s error after code subject hrun hf => absurd hf (h s error after hrun code subject)

theorem Blames.pure (a : α) : Blames about world fault (pure a : EStateM ε σ α) :=
  .of_uncoded (by rintro s error after ⟨⟩)

theorem Blames.throw {error : ε} (h : ∀ code subject, fault error ≠ .failed (.coded code subject)) :
    Blames about world fault (throw error : EStateM ε σ α) := by
  apply Blames.of_uncoded
  rintro s _ after ⟨⟩
  exact h

theorem Blames.bind {program : EStateM ε σ α} {next : α → EStateM ε σ β}
    (h : Blames about world fault program) (hn : ∀ a, Blames about world fault (next a)) :
    Blames about world fault (program >>= next) := by
  intro s error after code subject hrun hf
  cases hp : program s with
  | ok a mid =>
    rw [bind_ok hp] at hrun
    exact hn a mid error after code subject hrun hf
  | error other mid =>
    rw [bind_error hp] at hrun
    cases hrun
    exact h s error after code subject hp hf

theorem Blames.map {program : EStateM ε σ α} (f : α → β) (h : Blames about world fault program) :
    Blames about world fault (f <$> program) := by
  rw [map_eq_pure_bind]
  exact h.bind fun _ => .pure _

theorem Blames.mapM {f : α → EStateM ε σ β} (h : ∀ a, Blames about world fault (f a))
    (l : List α) : Blames about world fault (l.mapM f) := by
  induction l with
  | nil => exact .pure []
  | cons a rest ih =>
    rw [List.mapM_cons]
    exact (h a).bind fun b => ih.bind fun bs => .pure (b :: bs)

end Blames

section Operations

theorem note_blames (n : Notice) : BlamesOp about (Op.note n) :=
  .of_uncoded (by rintro s error after ⟨⟩)

theorem perform_blames (q : Request α) : BlamesOp about (Op.perform q) :=
  .of_uncoded (by rintro s error after ⟨⟩)

/-- A call whose failure is about a subject. -/
theorem requireAs_blames {q : Request (Outcome α)} {native : Reply → α} (h : Reads q native)
    (hs : about q.call.entry subject) : BlamesOp about (Op.requireAs subject q) := by
  intro w f after code other hrun hf
  rcases hx : w.exchange q.call with ⟨reply, mid⟩
  rw [Op.requireAs, bind_ok (perform_eq hx), h reply] at hrun
  cases hfail : failure q.call.entry reply with
  | none =>
    rw [hfail] at hrun
    cases hrun
  | some given =>
    rw [hfail] at hrun
    cases hrun
    cases hf
    exact ⟨w, q.call, reply, hx, hfail, hs⟩

/-- An operation that names the entry point of its call blames it by its name. -/
theorem require_blames {what : String} {q : Request (Outcome α)} {native : Reply → α}
    (h : Reads q native) (hs : what = q.call.entry.name) :
    BlamesOp ByName (Op.require what q) := requireAs_blames h (congrArg Bytes.ofString hs)

/-- A call that fills a buffer is blamed when its count is accepted. -/
theorem filled_blames {q : Request (Outcome Int32 × List Handle)} {native : Reply → Int32}
    {next : Int32 → Outcome Int32 × List Handle → Op β} (h : Reads (countOf q) native)
    (hs : about q.call.entry subject) (hn : ∀ n answer, BlamesOp about (next n answer)) :
    BlamesOp about (do
      let answer ← Op.perform q
      let n ← Op.accept subject answer.1
      next n answer) := by
  intro w f after code other hrun hf
  rcases hx : w.exchange q.call with ⟨reply, mid⟩
  have hread : (q.read reply).1 = _ := h reply
  rw [bind_ok (perform_eq hx), hread] at hrun
  cases hfail : failure (countOf q).call.entry reply with
  | none =>
    rw [hfail] at hrun
    exact hn _ _ mid f after code other hrun hf
  | some given =>
    rw [hfail] at hrun
    cases hrun
    cases hf
    exact ⟨w, q.call, reply, hx, hfail, hs⟩

theorem create_blames (kind : ResourceKind) (display : Handle) {what : String}
    {q : Request (Outcome Handle)} (h : Reads q Reply.ret) (hs : what = q.call.entry.name) :
    BlamesOp ByName (Resource.create kind display what q) :=
  (require_blames h hs).bind fun _ => (note_blames _).bind fun _ => .pure _

theorem connect_blames (id : Handle) : BlamesOp ByName (Display.connect id) :=
  (require_blames (reads_handle rfl) rfl).bind fun _ => (note_blames _).bind fun _ => .pure _

theorem startVersion_blames (d : Display) : BlamesOp ByName d.startVersion :=
  (require_blames (reads_version d.handle) rfl).bind fun (_, _) =>
    (note_blames _).bind fun _ => .pure _

theorem makeCurrent_blames (d : Display) (draw read : Surface) (c : Context) :
    BlamesOp ByName (d.makeCurrent draw read c) :=
  (note_blames _).bind fun _ => require_blames (reads_status rfl) rfl

/-- Both calls of an enumeration go to the entry point that is blamed for either. -/
theorem enumeration_blames (display : Handle) {what : String} {count : Request (Outcome Int32)}
    {fill : Span → Request (Outcome Int32 × List Handle)} {first second : Reply → Int32}
    (hc : Reads count first) (hs : what = count.call.entry.name)
    (hf : ∀ span, Reads (countOf (fill span)) second)
    (he : ∀ span, what = (fill span).call.entry.name) :
    BlamesOp ByName (Enumeration.run display what e count fill) := by
  unfold Enumeration.run
  refine (require_blames hc hs).bind ?_
  intro total
  split
  · exact .throw nofun
  · dsimp only
    refine filled_blames (hf _) (congrArg Bytes.ofString (he _)) ?_
    rintro written ⟨reported, handles⟩
    have hlast : BlamesOp ByName (if written < 0 then throw .negativeLength
        else pure ((Enumeration.cells (min written.toInt.toNat total.toInt.toNat) 0 handles).map
          (ConfigRef.mk display))) := by
      split
      · exact .throw nofun
      · exact .pure _
    by_cases hs : written < total
    · simp only [hs, if_true]
      exact (note_blames _).bind fun _ => hlast
    · simp only [hs, if_false]
      exact hlast

theorem configs_blames (d : Display) : BlamesOp ByName d.configs :=
  enumeration_blames d.handle (reads_value rfl) rfl (fun _ => reads_value rfl) fun _ => rfl

theorem chooseConfigs_blames (f : Filter) : BlamesOp ByName f.chooseConfigs :=
  enumeration_blames f.display (reads_value rfl) rfl (fun _ => reads_value rfl) fun _ => rfl

theorem query_blames (c : ConfigRef) (p : Property) : BlamesOp ByName (c.query p) :=
  (require_blames (reads_value rfl) rfl).bind fun _ => .pure _

theorem queryAll_blames (c : ConfigRef) : BlamesOp ByName c.queryAll :=
  .mapM (fun p => (query_blames c p).bind fun _ => .pure _) Property.all

/-- A description turns error codes into words. -/
theorem describe_blames (c : ConfigRef) : BlamesOp about c.describe := by
  apply Blames.of_uncoded
  intro w f after hrun code subject hf
  unfold ConfigRef.describe at hrun
  split at hrun
  · cases hrun
  · cases hrun
  · next failure mid hne _ =>
    cases hrun
    cases hf
    exact hne code subject rfl

end Operations

section Steps

variable {slots : Session → Slots α}

theorem run_blames {op : Op α} (h : BlamesOp about op) : BlamesAct about (Act.run op) := by
  intro s fault after code subject hrun hf
  unfold Act.run at hrun
  cases ho : op s.world with
  | ok a w =>
    rw [ho] at hrun
    cases hrun
  | error f w =>
    rw [ho] at hrun
    cases hrun
    exact h s.world f w code subject ho hf

theorem resolve_blames (slots : Session → Slots α) (name : String) :
    BlamesAct about (Act.resolve slots name) := by
  apply Blames.of_uncoded
  intro s fault after hrun
  rcases resolve_eq slots name s with ⟨a, -, hres⟩ | ⟨-, hres⟩
  · rw [hres] at hrun
    cases hrun
  · rw [hres] at hrun
    cases hrun
    exact nofun

theorem config_blames (c : ConfigOperand) : BlamesAct about (Act.config c) := by
  cases c with
  | direct config => exact .pure config
  | listed list index =>
    refine (resolve_blames Session.lists list).bind ?_
    intro configs
    cases configs[index]? with
    | some config => exact .pure config
    | none => exact .throw nofun

theorem modify_blames (f : Session → Session) : BlamesAct about (modify f) :=
  .of_uncoded (by rintro s error after ⟨⟩)

theorem receive_blames [Owner α] (shelf : Shelf α) {op : Op α} (h : BlamesOp about op)
    (name : String) : BlamesAct about (shelf.receive op name) :=
  (run_blames h).bind fun _ => (modify_blames _).bind fun _ => .pure _

theorem owner_blames [Owner α] (shelf : Shelf α) (step : OwnerStep) :
    BlamesAct about (shelf.act step) := by
  cases step with
  | handle name => exact (resolve_blames _ _).bind fun _ => .pure _
  | forget name | move name target | drop name =>
    exact (resolve_blames _ _).bind fun _ => (modify_blames _).bind fun _ => .pure _

/-- An operation on what is in a slot, whose value is the answer. -/
theorem read_blames {op : α → Op β} (name : String) (f : β → Answer)
    (h : ∀ a, BlamesOp about (op a)) : BlamesAct about (do
      let a ← Act.resolve slots name
      f <$> Act.run (op a)) := (resolve_blames slots name).bind fun a => (run_blames (h a)).map f

/-- An operation on what is in a slot, which answers nothing. -/
theorem do_blames {op : α → Op Unit} (name : String) (h : ∀ a, BlamesOp about (op a)) :
    BlamesAct about (do
      let a ← Act.resolve slots name
      Act.run (op a)
      return Answer.done) :=
  (resolve_blames slots name).bind fun a => (run_blames (h a)).bind fun _ => .pure _

/-- A new owner on the display in a slot, for some config. -/
theorem on_display_blames [Owner α] (shelf : Shelf α) {op : Display → ConfigRef → Op α}
    (display keep : String) (config : ConfigOperand) (h : ∀ d c, BlamesOp about (op d c)) :
    BlamesAct about (do
      let d ← Act.resolve Session.displays display
      let c ← Act.config config
      shelf.receive (op d c) keep) :=
  (resolve_blames _ _).bind fun d =>
    (config_blames _).bind fun c => receive_blames shelf (h d c) keep

theorem typed_blames (call : TypedCall) : BlamesAct about call.act := by
  apply Blames.of_uncoded
  intro s fault after hrun
  obtain ⟨answer, other, hact⟩ := typed_ok call s
  cases hact.symm.trans hrun

/-- What the error of a step is about: an entry point, by its name, or the function that was asked
for. -/
def Topic : Step → EntryPoint → Bytes → Prop
  | .procAddress _ (some name) => fun e subject => e = .getProcAddress ∧ subject = name.upToZero
  | _ => ByName

theorem act_blames (st : Step) : BlamesAct (Topic st) st.act := by
  cases st with
  | owner kind step => cases kind <;> exact owner_blames _ step
  | connect keep id => exact receive_blames _ (connect_blames id) keep
  | createContext display config keep version =>
    exact on_display_blames _ display keep config fun d c =>
      create_blames _ _ (reads_handle rfl) rfl
  | createWindowSurface display config window keep =>
    exact on_display_blames _ display keep config fun d c =>
      create_blames _ _ (reads_handle rfl) rfl
  | createPixmapSurface display config pixmap keep =>
    exact on_display_blames _ display keep config fun d c =>
      create_blames _ _ (reads_handle rfl) rfl
  | createPbufferSurface display config attributes keep =>
    exact on_display_blames _ display keep config fun d c =>
      create_blames _ _ (reads_handle rfl) rfl
  | start display => exact do_blames display fun d => require_blames (reads_status rfl) rfl
  | startVersion display =>
    exact (resolve_blames _ _).bind fun d =>
      (run_blames (startVersion_blames d)).bind fun (_, _) => .pure _
  | displayText display text =>
    exact read_blames display _ fun d => require_blames (reads_text rfl) rfl
  | listConfigs display keep =>
    exact (resolve_blames _ _).bind fun d => (run_blames (configs_blames d)).bind fun _ =>
      (modify_blames _).bind fun _ => .pure _
  | chooseConfigs filter keep =>
    exact (resolve_blames _ _).bind fun f => (run_blames (chooseConfigs_blames f)).bind fun _ =>
      (modify_blames _).bind fun _ => .pure _
  | makeCurrent display draw read context =>
    exact (resolve_blames _ _).bind fun d => (resolve_blames _ _).bind fun drawn =>
      (resolve_blames _ _).bind fun read => (resolve_blames _ _).bind fun c =>
        (run_blames (makeCurrent_blames d drawn read c)).bind fun _ => .pure _
  | makeNotCurrent display => exact do_blames display fun d => require_blames (reads_status rfl) rfl
  | swapBuffers display surface =>
    exact (resolve_blames _ _).bind fun d =>
      do_blames surface fun drawn => require_blames (reads_status rfl) rfl
  | swapInterval display interval =>
    exact do_blames display fun d => require_blames (reads_status rfl) rfl
  | procAddress display name =>
    refine read_blames display _ ?_
    intro _
    cases name with
    | none => exact .throw nofun
    | some name => exact requireAs_blames (reads_handle rfl) ⟨rfl, rfl⟩
  | queryContext context attr =>
    exact read_blames context _ fun c => require_blames (reads_value rfl) rfl
  | surfaceWidth surface | surfaceHeight surface | querySurface surface attr =>
    exact read_blames surface _ fun _ => require_blames (reads_value rfl) rfl
  | setSurfaceAttribute surface attr value =>
    exact do_blames surface fun _ => require_blames (reads_status rfl) rfl
  | configAttribute config attr =>
    exact (config_blames _).bind fun c => (run_blames (require_blames (reads_value rfl) rfl)).map _
  | describeConfig config =>
    exact (config_blames _).bind fun c => (run_blames (describe_blames c)).map _
  | formatConfig config =>
    exact (config_blames _).bind fun c => (run_blames (describe_blames c)).bind fun _ => .pure _
  | configProperty config property =>
    exact (config_blames _).bind fun c => (run_blames (query_blames c property)).map _
  | configProperties config =>
    exact (config_blames _).bind fun c => (run_blames (queryAll_blames c)).map _
  | clientExtensions | clientVersion =>
    exact (run_blames (require_blames (reads_text rfl) rfl)).map _
  | bindApi api =>
    exact (run_blames (require_blames (reads_status rfl) rfl)).bind fun _ => .pure _
  | queryApi => exact (run_blames (perform_blames _)).map _
  | releaseThread =>
    exact (run_blames (require_blames (reads_status rfl) rfl)).bind fun _ => .pure _
  | typed call => exact typed_blames call
  -- What is left makes no calls.
  | reference config => exact (config_blames _).map _
  | sameConfig config other =>
    exact (config_blames _).bind fun _ => (config_blames _).bind fun _ => .pure _
  | contextDisplay | surfaceDisplay | filterValue | filterValues | filterAttributes =>
    exact (resolve_blames _ _).bind fun _ => .pure _
  | filterOf | copyFilter | want =>
    exact (resolve_blames _ _).bind fun _ => (modify_blames _).bind fun _ => .pure _
  | filterFor | configure => exact (modify_blames _).bind fun _ => .pure _
  | installedTable | install | backend => exact .of_uncoded (by rintro s error after ⟨⟩)

end Steps

section Words

theorem zero_ne_ofNat {x : Nat} (h : 0 < x) (hx : x < 256) : 0 ≠ UInt8.ofNat x := by
  intro he
  have hz := (ofNat_eq_iff hx).mp he.symm
  rw [UInt8.toNat_zero] at hz
  omega

theorem zero_not_mem_encodeChar {ch : Char} (h : ch ≠ '\x00') : 0 ∉ Utf8.encodeChar ch := by
  have hpos : 0 < ch.toNat := by
    apply Nat.pos_of_ne_zero
    intro hz
    exact h (Char.toNat_inj.mp hz)
  have hsmall := char_small ch
  rcases encodeChar_cases ch with ⟨hn, he⟩ | ⟨hn, he⟩ | ⟨hn, he⟩ | ⟨hn, he⟩
  all_goals
    rw [he]
    simp (disch := omega) only [form, List.mem_cons, List.not_mem_nil, or_false, zero_ne_ofNat,
      not_false_eq_true]

/-- Words without a zero character end where they end. -/
theorem zero_not_mem_ofString {s : String} (h : '\x00' ∉ s.toList) : 0 ∉ Bytes.ofString s := by
  simp only [Bytes.ofString, Utf8.encode, List.mem_flatMap, not_exists, not_and]
  intro ch hch
  apply zero_not_mem_encodeChar
  rintro rfl
  exact h hch

theorem ofString_append (s t : String) :
    Bytes.ofString (s ++ t) = Bytes.ofString s ++ Bytes.ofString t := by
  simp [Bytes.ofString, Utf8.encode]

theorem zero_not_mem_upToZero (bytes : Bytes) : 0 ∉ bytes.upToZero := by
  intro h
  simpa using List.mem_takeWhile_imp h

theorem upToZero_of_not_mem {bytes : Bytes} (h : 0 ∉ bytes) : bytes.upToZero = bytes := by
  apply List.takeWhile_eq_self_iff.mpr
  intro byte hbyte
  rw [decide_eq_true_iff]
  rintro rfl
  exact h hbyte

/-- Only a call that can fail comes to an error code: its own, or that of a text. -/
theorem failure_cases {reply : Reply} (h : failure e reply = some code) :
    e.canFail = true ∧ (code = .ofEntry e ∨ code = .invalidUtf8 ∧ e = .queryString) := by
  unfold failure at h
  split at h
  · next hr =>
    refine ⟨?_, .inl (Option.some.inj h).symm⟩
    cases e
    case getError | queryApi => cases hr
    all_goals rfl
  · split at h
    · next ht =>
      have he : e = .queryString := by
        revert ht
        cases e <;> simp [sign]
      rw [he]
      exact ⟨rfl, .inr ⟨(Option.some.inj h).symm, rfl⟩⟩
    · cases h

theorem name_zeroless (e : EntryPoint) : '\x00' ∉ e.name.toList := by cases e <;> decide

theorem message_zeroless {reply : Reply} (h : failure e reply = some code) :
    '\x00' ∉ code.message.toList := by
  obtain ⟨hc, rfl | ⟨rfl, -⟩⟩ := failure_cases h
  · have hm : (ErrorCode.ofEntry e).message = e.name ++ " failed" := by
      simp only [ErrorCode.message, ErrorCode.ofEntry, ErrorCode.callMessage,
        EntryPoint.ofTag?_tag hc]
    rw [hm, String.toList_append, List.mem_append]
    exact not_or.mpr ⟨name_zeroless e, by decide⟩
  · decide

/-- The words of an error are its subject and its message, if no zero byte cuts them short. -/
theorem account_eq (hs : 0 ∉ subject) (hm : '\x00' ∉ code.message.toList) :
    code.account subject = subject ++ Bytes.ofString (": " ++ code.message) := by
  apply upToZero_of_not_mem
  rw [List.mem_append]
  refine not_or.mpr ⟨hs, zero_not_mem_ofString ?_⟩
  rw [String.toList_append, List.mem_append]
  exact not_or.mpr ⟨by decide, hm⟩

end Words

/-- The function that a step asks for by its name. -/
def asked : Step → Option Bytes
  | .procAddress _ name => name
  | _ => none

/-- What the error of a step says. -/
structure Attributed (s : Session) (st : Step) (code : ErrorCode) (subject : Bytes)
    (e : EntryPoint) : Prop where
  /-- The code is that of the entry point. A text that is no text came from a query of texts. -/
  tag : code = .ofEntry e ∨ code = .invalidUtf8 ∧ e = .queryString
  /-- The entry point was called last, and the call failed with the code. -/
  last : Recording s.world → ∃ before t c reply,
    (s.step st).1.events = before ++ [.call t c reply] ∧ c.entry = e ∧
      failure e reply = some code
  /-- The words start with the name of the entry point, whatever the arguments were. -/
  words : asked st = none → code.account subject = .ofString (e.name ++ ": " ++ code.message)
  /-- If a function was asked for, then its name is there instead. -/
  function : ∀ name, asked st = some name → e = .getProcAddress ∧
    code.account subject = name.upToZero ++ .ofString (": " ++ code.message)

theorem Topic.words {reply : Reply} (h : Topic st e subject) (hf : failure e reply = some code)
    (ha : asked st = none) : code.account subject = .ofString (e.name ++ ": " ++ code.message) := by
  have hs : subject = entryName e := by
    cases st
    case procAddress display name =>
      cases ha
      exact h
    all_goals exact h
  have hz : 0 ∉ entryName e := zero_not_mem_ofString (name_zeroless e)
  rw [hs, account_eq hz (message_zeroless hf), String.append_assoc, ofString_append e.name]
  rfl

theorem Topic.function {reply : Reply} {name : Bytes} (h : Topic st e subject)
    (hf : failure e reply = some code) (ha : asked st = some name) :
    e = .getProcAddress ∧
      code.account subject = name.upToZero ++ .ofString (": " ++ code.message) := by
  cases st
  case procAddress display other =>
    cases ha
    obtain ⟨he, rfl⟩ := h
    exact ⟨he, account_eq (zero_not_mem_upToZero name) (message_zeroless hf)⟩
  all_goals cases ha

/-- Whatever the state of a session is and whatever the implementation answers: a step that ends
with an error code ends at the call that failed, and its error names the entry point of that call.
Only the error about the address of a function names the function. -/
theorem errors_attributed (s : Session) (st : Step) {code : ErrorCode} {subject : Bytes}
    (h : (s.step st).1.result = .error (.failed (.coded code subject))) :
    ∃ e, Attributed s st code subject e := by
  have hact : st.act s.fresh = .error (.failed (.coded code subject)) (s.step st).2 := by
    unfold Session.step at h ⊢
    cases hact : st.act s.fresh with
    | ok answer after =>
      rw [hact] at h
      cases h
    | error other after =>
      rw [hact] at h
      cases h
      rfl
  obtain ⟨mid, c, reply, hx, hf, htopic⟩ := act_blames st s.fresh _ _ code subject hact rfl
  refine ⟨c.entry, (failure_cases hf).2, ?_, htopic.words hf, ?_⟩
  · intro hr
    have hafter : Recording (s.step st).2.world := (act_withdrawn hact).went.grew.recording hr
    have hmid : Recording mid := by
      have htable := exchange_table mid c
      rw [hx] at htable
      exact hafter.of_table htable.symm
    have hj := exchange_journal hmid c
    simp only [hx] at hj
    exact ⟨mid.journal, mid.table, c, reply, by rw [step_events, hj], rfl, hf⟩
  · intro name ha
    exact htopic.function hf ha

theorem errors_attributed_display :
    (Session.step { world := { backend := { hasDisplay := false } } } (.connect "d" 0)).1.result =
        .error (.failed (.coded (.ofEntry .getDisplay) (entryName .getDisplay))) ∧
      ∃ e, Attributed { world := { backend := { hasDisplay := false } } } (.connect "d" 0)
        (.ofEntry .getDisplay) (entryName .getDisplay) e :=
  ⟨rfl, errors_attributed _ _ rfl⟩

/-- A function without an address is blamed itself. -/
theorem function_blamed :
    (Session.step { displays := Assoc.set {} "d" ⟨Backend.displayHandle⟩ }
        (.procAddress "d" (some (.ofString "glMissing")))).1.result =
        .error (.failed (.coded (.ofEntry .getProcAddress) (.ofString "glMissing"))) ∧
      (ErrorCode.ofEntry .getProcAddress).account (.ofString "glMissing") =
        .ofString "glMissing: eglGetProcAddress failed" ∧
      (ErrorCode.ofEntry .getProcAddress).account (.ofString "glMissing") ≠
        .ofString (EntryPoint.getProcAddress.name ++ ": " ++
          (ErrorCode.ofEntry .getProcAddress).message) :=
  ⟨rfl, by decide +kernel, by decide +kernel⟩

end Egl.Proofs
