import Egl.Proofs.Attribution
import Egl.Proofs.TypedCalls

namespace Egl.Proofs

variable {α : Type} {w other : World} {display : Handle} {name : Int32} {op : Op String}
  {bytes front rest : Bytes}

/-- Foreign text carries the bytes before its first zero byte, or all of them if it has none. -/
def Carries (bytes front : Bytes) : Prop :=
  0 ∉ front ∧ (bytes = front ∨ ∃ rest, bytes = front ++ 0 :: rest)

/-- The text that a query is handed, if any. -/
def handed? (w : World) (display : Handle) (name : Int32) : Option Bytes :=
  (w.exchange (.queryString display name)).1.text

/-- The value or the failure that an operation ends with. -/
def upshot : EStateM.Result Failure World α → Except Failure α
  | .ok a _ => .ok a
  | .error f _ => .error f

/-- How a query fails with an error code. -/
def unheard (code : ErrorCode) : Failure := .coded code (.ofString "eglQueryString")

/-- The queries for texts, each with the display that it asks and the text that it asks for. The
null handle stands for no display. -/
inductive Queries : Op String → Handle → Int32 → Prop
  | clientApis (d : Display) : Queries (d.text .clientApis) d.handle Code.clientApis
  | vendor (d : Display) : Queries (d.text .vendor) d.handle Code.vendor
  | version (d : Display) : Queries (d.text .version) d.handle Code.version
  | extensions (d : Display) : Queries (d.text .extensions) d.handle Code.extensions
  | clientExtensions : Queries Client.extensions 0 Code.extensions
  | clientVersion : Queries Client.version 0 Code.version

/-- A query lets through what is UTF-8 and nothing else. -/
structure Vetted (op : Op String) (display : Handle) (name : Int32) : Prop where
  /-- It makes one call, and that is all it does. -/
  asked : ∀ w, final (op w) = (w.exchange (.queryString display name)).2
  accepts : ∀ w, (∃ text, upshot (op w) = .ok text) ↔
    ∃ bytes front, handed? w display name = some bytes ∧ Carries bytes front ∧
      front.toByteArray.IsValidUTF8
  /-- The text has exactly the bytes that were carried. -/
  faithful : ∀ w text, upshot (op w) = .ok text ↔
    ∃ bytes front, handed? w display name = some bytes ∧ Carries bytes front ∧
      text.toByteArray = front.toByteArray
  missing : ∀ w, upshot (op w) = .error (unheard (.ofEntry .queryString)) ↔
    handed? w display name = none
  malformed : ∀ w, upshot (op w) = .error (unheard .invalidUtf8) ↔
    ∃ bytes front, handed? w display name = some bytes ∧ Carries bytes front ∧
      ¬ front.toByteArray.IsValidUTF8
  /-- Nothing is made of the bytes that follow the first zero byte. -/
  blind : ∀ (w other : World) (bytes others front : Bytes), handed? w display name = some bytes →
    handed? other display name = some others → Carries bytes front → Carries others front →
    upshot (op w) = upshot (op other)

/-- In two worlds the same stands between a call and the in-memory implementation. -/
structure SameWay (e : EntryPoint) (w other : World) : Prop where
  native : w.table = .native ↔ other.table = .native
  linked : w.table = .native → other.library = w.library
  scripted : (w.script.next e).1 = (other.script.next e).1
  switched : e ∈ w.backend.failures ↔ e ∈ other.backend.failures

/-- A query reads one text in one table of the in-memory implementation. -/
structure ReadsIn (table : Backend → Assoc Int32 Bytes) (op : Op String) (display : Handle)
    (name : Int32) : Prop where
  source : ∀ w, Recording w → Computes w .queryString → .queryString ∉ w.backend.failures →
    handed? w display name = (table w.backend).get? name
  /-- If that text is the same, all others may differ, and so may the rest of the implementation. -/
  only : ∀ w other, SameWay .queryString w other →
    (table w.backend).get? name = (table other.backend).get? name →
    upshot (op w) = upshot (op other)

section Cutting

theorem upToZero_append (h : 0 ∉ front) : Bytes.upToZero (front ++ 0 :: rest) = front := by
  have hfront : ∀ byte ∈ front, decide (byte ≠ 0) = true := by
    intro byte hbyte
    rw [decide_eq_true_iff]
    rintro rfl
    exact h hbyte
  rw [Bytes.upToZero, List.takeWhile_append_of_pos hfront]
  simp

theorem upToZero_carried (bytes : Bytes) : Carries bytes bytes.upToZero := by
  refine ⟨zero_not_mem_upToZero bytes, ?_⟩
  have hsplit : bytes.upToZero ++ bytes.dropWhile (· ≠ 0) = bytes :=
    List.takeWhile_append_dropWhile
  cases hd : bytes.dropWhile (· ≠ 0) with
  | nil =>
    rw [hd, List.append_nil] at hsplit
    exact .inl hsplit.symm
  | cons byte rest =>
    have hne : bytes.dropWhile (· ≠ 0) ≠ [] := by
      rw [hd]
      exact List.cons_ne_nil byte rest
    have hzero := List.head_dropWhile_not _ hne
    simp only [hd, List.head_cons, decide_eq_false_iff_not, not_not] at hzero
    rw [hd, hzero] at hsplit
    exact .inr ⟨rest, hsplit.symm⟩

theorem carries_iff : Carries bytes front ↔ front = bytes.upToZero := by
  constructor
  · rintro ⟨hz, rfl | ⟨rest, rfl⟩⟩
    · exact (upToZero_of_not_mem hz).symm
    · exact (upToZero_append hz).symm
  · rintro rfl
    exact upToZero_carried bytes

end Cutting

section Vetting

/-- What a query makes of the text that it is handed. -/
def vet : Option Bytes → Except Failure String
  | none => .error (unheard (.ofEntry .queryString))
  | some bytes =>
    match bytes.upToZero.toString? with
    | some text => .ok text
    | none => .error (unheard .invalidUtf8)

/-- A call that has to succeed tells what was read, and does nothing else. -/
theorem require_upshot (what : String) (q : Request (Outcome α)) (w : World) :
    upshot (Op.require what q w) = (q.read (w.exchange q.call).1).mapError
        (Failure.coded · (.ofString what)) ∧
      final (Op.require what q w) = (w.exchange q.call).2 := by
  cases hr : q.read (w.exchange q.call).1 with
  | ok a =>
    rw [require_ok rfl hr]
    exact ⟨rfl, rfl⟩
  | error code =>
    rw [require_error rfl hr]
    exact ⟨rfl, rfl⟩

theorem Queries.eq_require (h : Queries op display name) :
    op = Op.require "eglQueryString" (.queryString display name) := by
  cases h <;> rfl

theorem Queries.upshot_eq (h : Queries op display name) (w : World) :
    upshot (op w) = vet (handed? w display name) := by
  rw [h.eq_require, (require_upshot _ _ w).1, handed?]
  simp only [Request.queryString, Request.text]
  cases (w.exchange (.queryString display name)).1.text with
  | none => rfl
  | some bytes =>
    simp only [vet]
    cases bytes.upToZero.toString? with
    | none => rfl
    | some text => rfl

theorem toString?_standard {text : String} (h : bytes.toString? = some text) :
    text.toByteArray = bytes.toByteArray := by
  obtain ⟨cs, hcs, rfl⟩ := Option.map_eq_some_iff.mp h
  rw [String.toByteArray_ofList, ← encode_of_decode hcs, encode_eq_standard]

theorem toString?_isSome : bytes.toString?.isSome = true ↔ bytes.toByteArray.IsValidUTF8 := by
  rw [← valid_iff_standard, Bytes.toString?, Option.isSome_map, Utf8.valid]

/-- What was carried is accepted as it is, or is malformed. -/
theorem vet_carried (h : Carries bytes front) :
    (∃ text : String, text.toByteArray = front.toByteArray ∧ vet (some bytes) = .ok text) ∨
      (¬ front.toByteArray.IsValidUTF8 ∧ vet (some bytes) = .error (unheard .invalidUtf8)) := by
  obtain rfl := carries_iff.mp h
  cases hs : bytes.upToZero.toString? with
  | some text => exact .inl ⟨text, toString?_standard hs, by simp only [vet, hs]⟩
  | none =>
    refine .inr ⟨fun hvalid => ?_, by simp only [vet, hs]⟩
    have hsome := toString?_isSome.mpr hvalid
    rw [hs] at hsome
    cases hsome

theorem vet_ok {handed : Option Bytes} {text : String} : vet handed = .ok text ↔
    ∃ bytes front, handed = some bytes ∧ Carries bytes front ∧
      text.toByteArray = front.toByteArray := by
  constructor
  · intro h
    cases handed with
    | none => cases h
    | some bytes =>
      have hc := upToZero_carried bytes
      rcases vet_carried hc with ⟨other, hbytes, hv⟩ | ⟨-, hv⟩
      · cases h.symm.trans hv
        exact ⟨bytes, _, rfl, hc, hbytes⟩
      · cases h.symm.trans hv
  · rintro ⟨bytes, front, rfl, hc, htext⟩
    rcases vet_carried hc with ⟨other, hbytes, hv⟩ | ⟨hinvalid, -⟩
    · rw [hv, String.toByteArray_inj.mp (hbytes.trans htext.symm)]
    · exact absurd (htext ▸ text.isValidUTF8) hinvalid

theorem vet_missing {handed : Option Bytes} :
    vet handed = .error (unheard (.ofEntry .queryString)) ↔ handed = none := by
  constructor
  · intro h
    cases handed with
    | none => rfl
    | some bytes =>
      rcases vet_carried (upToZero_carried bytes) with ⟨_, -, hv⟩ | ⟨-, hv⟩
      · cases h.symm.trans hv
      · exact absurd (h.symm.trans hv) (by decide)
  · rintro rfl
    rfl

theorem vet_malformed {handed : Option Bytes} : vet handed = .error (unheard .invalidUtf8) ↔
    ∃ bytes front, handed = some bytes ∧ Carries bytes front ∧
      ¬ front.toByteArray.IsValidUTF8 := by
  constructor
  · intro h
    cases handed with
    | none => exact absurd h (by decide)
    | some bytes =>
      have hc := upToZero_carried bytes
      rcases vet_carried hc with ⟨_, -, hv⟩ | ⟨hinvalid, -⟩
      · cases h.symm.trans hv
      · exact ⟨bytes, _, rfl, hc, hinvalid⟩
  · rintro ⟨bytes, front, rfl, hc, hinvalid⟩
    rcases vet_carried hc with ⟨text, hbytes, -⟩ | ⟨-, hv⟩
    · exact absurd (hbytes ▸ text.isValidUTF8) hinvalid
    · exact hv

theorem Queries.vetted (h : Queries op display name) : Vetted op display name where
  asked w := by
    rw [h.eq_require]
    exact (require_upshot _ _ w).2
  accepts w := by
    simp only [h.upshot_eq, vet_ok]
    constructor
    · rintro ⟨text, bytes, front, hb, hc, ht⟩
      exact ⟨bytes, front, hb, hc, ht ▸ text.isValidUTF8⟩
    · rintro ⟨bytes, front, hb, hc, hv⟩
      exact ⟨⟨front.toByteArray, hv⟩, bytes, front, hb, hc, rfl⟩
  faithful w text := by rw [h.upshot_eq, vet_ok]
  missing w := by rw [h.upshot_eq, vet_missing]
  malformed w := by rw [h.upshot_eq, vet_malformed]
  blind w other bytes others front hb ho hc hc' := by
    have hsame : bytes.upToZero = others.upToZero :=
      (carries_iff.mp hc).symm.trans (carries_iff.mp hc')
    rw [h.upshot_eq, h.upshot_eq, hb, ho]
    simp only [vet, hsame]

end Vetting

section Sources

/-- The texts of the in-memory implementation that belong to a display, or to none. Only one display
has any. -/
def textsOf (b : Backend) (display : Handle) : Assoc Int32 Bytes :=
  if display = 0 then b.clientStrings
  else if display = Backend.displayHandle then b.strings
  else {}

theorem respond_text (b : Backend) (display : Handle) (name : Int32) :
    (b.respond (.queryString display name)).1.text = (textsOf b display).get? name := by
  simp only [Backend.respond, textsOf]
  split
  · rfl
  · split <;> rfl

theorem answer_text (b : Backend) (display : Handle) (name : Int32) :
    (b.answer (.queryString display name)).1.text =
      if .queryString ∈ b.failures then none else (textsOf b display).get? name := by
  by_cases hf : .queryString ∈ b.failures
  · rw [answer_switched rfl hf, if_pos hf]
    rfl
  · rw [answer_working rfl hf, if_neg hf, respond_text]
    rfl

/-- The text that a query is handed is in the script, or else in one table. -/
theorem handed?_eq (h : Recording w) (display : Handle) (name : Int32) :
    handed? w display name = match (w.script.next .queryString).1 with
      | some reply => reply.text
      | none => if .queryString ∈ w.backend.failures then none
          else (textsOf w.backend display).get? name := by
  cases hn : (w.script.next .queryString).1 with
  | none =>
    obtain ⟨hreply, -⟩ := exchange_unscripted (c := .queryString display name) h hn
    rw [handed?, hreply, answer_text]
  | some reply =>
    have hreply := exchange_scripted (c := .queryString display name) h hn
    rw [handed?, hreply]

theorem Queries.readsIn {table : Backend → Assoc Int32 Bytes} (h : Queries op display name)
    (ht : ∀ b, textsOf b display = table b) : ReadsIn table op display name where
  source w hr hn hf := by
    have hscript : (w.script.next .queryString).1 = none := hn
    rw [handed?_eq hr, hscript, ← ht]
    exact if_neg hf
  only w other hway hsame := by
    rw [h.upshot_eq, h.upshot_eq]
    by_cases hr : Recording w
    · have hother : Recording other := mt hway.native.mpr hr
      rw [handed?_eq hr, handed?_eq hother, hway.scripted, ht, ht, hsame]
      simp only [hway.switched]
    · have hnative : w.table = .native := Classical.not_not.mp hr
      rw [handed?, handed?, exchange_native hnative, exchange_native (hway.native.mp hnative),
        hway.linked hnative]

end Sources

/-- Only what is UTF-8 up to its first zero byte is returned, and returned as it is. Whoever asks
for no display reads the texts that belong to none, and whoever asks for the display those of the
display. -/
theorem texts_vetted (h : Queries op display name) :
    Vetted op display name ∧
      (display = 0 → ReadsIn Backend.clientStrings op display name) ∧
      (display = Backend.displayHandle → ReadsIn Backend.strings op display name) := by
  refine ⟨h.vetted, ?_, ?_⟩
  · rintro rfl
    exact h.readsIn fun _ => rfl
  · rintro rfl
    exact h.readsIn fun _ => rfl

/-- A character that the first zero byte cuts in two, and whose rest follows it. -/
def halved : Bytes := [0x41, 0xC3, 0x00, 0xA9]

theorem texts_vetted_halved :
    Queries (Display.text ⟨Backend.displayHandle⟩ .vendor) Backend.displayHandle Code.vendor ∧
      upshot (Display.text ⟨Backend.displayHandle⟩ .vendor
        { backend := { strings := .ofList [(Code.vendor, halved)] } }) =
        .error (unheard .invalidUtf8) := by
  have h := Queries.vendor ⟨Backend.displayHandle⟩
  obtain ⟨hvetted, -, hreads⟩ := texts_vetted h
  have hhanded := (hreads rfl).source { backend := { strings := .ofList [(Code.vendor, halved)] } }
    (by decide) rfl (by decide)
  have hcarried : Carries halved [0x41, 0xC3] := ⟨by decide, .inr ⟨[0xA9], rfl⟩⟩
  have hinvalid : ¬ ([0x41, 0xC3] : Bytes).toByteArray.IsValidUTF8 := by
    rw [← valid_iff_standard]
    decide
  exact ⟨h, (hvetted.malformed _).mpr ⟨halved, _, hhanded, hcarried, hinvalid⟩⟩

end Egl.Proofs
