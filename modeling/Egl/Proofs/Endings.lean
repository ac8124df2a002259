import Egl.Proofs.Refusals
import Egl.Proofs.Steps

namespace Egl.Proofs

variable {α β ε σ : Type} {w mid after : World}

/-- An event that tells of no failed call: a call that was not refused, or a line below the level of
errors. -/
def Quiet : Event → Prop
  | .call _ c reply => refused c.entry reply = false
  | .notice n => n.level ≠ .error

/-- The error code of a failed call that a fault carries, if any. -/
def raised : Fault → Option ErrorCode
  | .failed (.coded code _) => if code.category = .call then some code else none
  | _ => none

/-- What a program ended with, if it ended early. -/
def problem : EStateM.Result ε σ α → Option ε
  | .ok _ _ => none
  | .error e _ => some e

/-- How a program of the resource layer can end while calls are recorded. -/
inductive Ends (w : World) : Option Fault → World → Prop
  | done {after : World} (h : Grew Quiet w after) : Ends w none after
  /-- A refused call is the last event. -/
  | refused {mid after : World} {t : Table} {c : Call} {reply : Reply} {subject : Bytes}
      (h : Grew Quiet w mid) (hr : Recording after)
      (hj : after.journal = mid.journal ++ [.call t c reply])
      (hc : refused c.entry reply = true) :
      Ends w (some (.failed (.coded (.ofEntry c.entry) subject))) after
  | stopped {fault : Fault} {after : World} (h : Grew Quiet w after) (hf : raised fault = none) :
      Ends w (some fault) after

theorem Ends.prepend {fault : Option Fault} (h : Ends mid fault after) (hg : Grew Quiet w mid) :
    Ends w fault after := by
  cases h with
  | done h => exact .done (hg.trans h)
  | refused h hr hj hc => exact .refused (hg.trans h) hr hj hc
  | stopped h hf => exact .stopped (hg.trans h) hf

theorem Ends.recording {fault : Option Fault} (h : Ends w fault after) (hw : Recording w) :
    Recording after := by
  cases h with
  | done h => exact h.recording hw
  | refused _ hr _ _ => exact hr
  | stopped h _ => exact h.recording hw

theorem exchange_quiet (h : Recording w) {c : Call} {reply : Reply}
    (hw : w.exchange c = (reply, after)) (hc : refused c.entry reply = false) :
    Grew Quiet w after := by
  have hj := exchange_journal h c
  simp only [hw] at hj
  refine ⟨fun _ => exchange_recording h hw, _, hj, ?_⟩
  intro e he
  rw [List.mem_singleton] at he
  rw [he]
  exact hc

/-- A call that is answered without an error code leaves a quiet event. -/
theorem exchange_done (h : Recording w) {c : Call} {reply : Reply}
    (hw : w.exchange c = (reply, after)) (hf : failure c.entry reply = none) :
    Ends w none after := by
  refine .done (exchange_quiet h hw ?_)
  cases hc : refused c.entry reply with
  | false => rfl
  | true => simp [failure, hc] at hf

/-- The error code of a refused call names its entry point; any other one is about a text. -/
theorem exchange_failed (h : Recording w) {c : Call} {reply : Reply} {code : ErrorCode}
    (hw : w.exchange c = (reply, after)) (hf : failure c.entry reply = some code)
    (subject : Bytes) : Ends w (some (.failed (.coded code subject))) after := by
  have hj := exchange_journal h c
  simp only [hw] at hj
  cases hc : refused c.entry reply with
  | true =>
    simp only [failure, hc, if_true, Option.some.injEq] at hf
    rw [← hf]
    exact .refused (.refl _ w) (exchange_recording h hw) hj hc
  | false =>
    have hcode : code = .invalidUtf8 := by
      simp only [failure, hc, Bool.false_eq_true, if_false] at hf
      split at hf
      · exact (Option.some.inj hf).symm
      · cases hf
    rw [hcode]
    exact .stopped (exchange_quiet h hw hc) rfl

section Candid

variable {world : σ → World} {fault : ε → Fault}

/-- A program that tells of every refused call by ending with it. Its world is a part of its state,
and its errors stand for faults. -/
def Candid (world : σ → World) (fault : ε → Fault) (program : EStateM ε σ α) : Prop :=
  ∀ s, Recording (world s) →
    Ends (world s) ((problem (program s)).map fault) (world (final (program s)))

abbrev CandidOp (op : Op α) : Prop := Candid id Fault.failed op

abbrev CandidAct (act : Act α) : Prop := Candid Session.world id act

theorem Candid.pure (a : α) : Candid world fault (pure a) := by
  intro s _
  exact .done (.refl _ _)

theorem Candid.throw {e : ε} (h : raised (fault e) = none) :
    Candid world fault (throw e : EStateM ε σ α) := by
  intro s _
  exact .stopped (.refl _ _) h

theorem Candid.bind {program : EStateM ε σ α} {next : α → EStateM ε σ β}
    (h : Candid world fault program) (hn : ∀ a, Candid world fault (next a)) :
    Candid world fault (program >>= next) := by
  intro s hs
  have hfirst := h s hs
  cases hp : program s with
  | ok a mid =>
    rw [hp] at hfirst
    rw [bind_ok hp]
    cases hfirst with
    | done hg => exact (hn a mid (hg.recording hs)).prepend hg
  | error e mid =>
    rw [hp] at hfirst
    rw [bind_error hp]
    exact hfirst

theorem Candid.map {program : EStateM ε σ α} (f : α → β) (h : Candid world fault program) :
    Candid world fault (f <$> program) := by
  intro s hs
  have hfirst := h s hs
  change Ends _ ((problem (EStateM.map f program s)).map fault)
    (world (final (EStateM.map f program s)))
  unfold EStateM.map
  cases hp : program s with
  | ok a mid => rwa [hp] at hfirst
  | error e mid => rwa [hp] at hfirst

theorem Candid.mapM {f : α → EStateM ε σ β} (h : ∀ a, Candid world fault (f a)) (l : List α) :
    Candid world fault (l.mapM f) := by
  induction l with
  | nil => exact .pure []
  | cons a rest ih =>
    rw [List.mapM_cons]
    exact (h a).bind fun b => ih.bind fun bs => .pure (b :: bs)

end Candid

theorem note_candid {n : Notice} (h : n.level ≠ .error) : CandidOp (Op.note n) := by
  intro w _
  exact .done (note_grew w h)

theorem requireAs_candid {q : Request (Outcome α)} {native : Reply → α} (h : Reads q native)
    (subject : Bytes) : CandidOp (Op.requireAs subject q) := by
  intro w hw
  rcases hx : w.exchange q.call with ⟨reply, after⟩
  have hr := h reply
  unfold Op.requireAs
  rw [bind_ok (perform_eq hx), hr]
  cases hf : failure q.call.entry reply with
  | none => exact exchange_done hw hx hf
  | some code => exact exchange_failed hw hx hf subject

theorem require_candid {what : String} {q : Request (Outcome α)} {native : Reply → α}
    (h : Reads q native) : CandidOp (Op.require what q) := requireAs_candid h _

/-- A call that fills a buffer tells of its failure when its count is accepted. -/
theorem filled_candid {q : Request (Outcome Int32 × List Handle)} {native : Reply → Int32}
    {subject : Bytes} {next : Int32 → Outcome Int32 × List Handle → Op β}
    (h : Reads (countOf q) native) (hn : ∀ n answer, CandidOp (next n answer)) :
    CandidOp (do
      let answer ← Op.perform q
      let n ← Op.accept subject answer.1
      next n answer) := by
  intro w hw
  rcases hx : w.exchange q.call with ⟨reply, after⟩
  have hr : (q.read reply).1 = _ := h reply
  rw [bind_ok (perform_eq hx), hr]
  cases hf : failure (countOf q).call.entry reply with
  | none =>
    have hdone := exchange_done hw hx hf
    cases hdone with
    | done hg => exact (hn (native reply) _ after (hg.recording hw)).prepend hg
  | some code => exact exchange_failed hw hx hf subject

theorem create_candid (kind : ResourceKind) (display : Handle) {what : String}
    {q : Request (Outcome Handle)} (h : Reads q Reply.ret) :
    CandidOp (Resource.create kind display what q) := by
  refine (require_candid h).bind ?_
  intro handle
  exact (note_candid (n := .created kind handle) (by simp [Notice.level])).bind fun _ => .pure _

theorem connect_candid (id : Handle) : CandidOp (Display.connect id) := by
  refine (require_candid (reads_handle rfl)).bind ?_
  intro handle
  exact (note_candid (n := .connected handle) (by simp [Notice.level])).bind fun _ => .pure _

theorem startVersion_candid (d : Display) : CandidOp d.startVersion := by
  refine (require_candid (reads_version d.handle)).bind ?_
  rintro ⟨major, minor⟩
  exact (note_candid (n := .versionKnown d.handle major minor) (by simp [Notice.level])).bind
    fun _ => .pure _

theorem makeCurrent_candid (d : Display) (draw read : Surface) (c : Context) :
    CandidOp (d.makeCurrent draw read c) := by
  refine (note_candid (by simp [Notice.level])).bind ?_
  intro _
  exact require_candid (reads_status rfl)

theorem procAddress_candid (name : Option Bytes) : CandidOp (Display.procAddress name) := by
  cases name with
  | none => exact .throw rfl
  | some name => exact requireAs_candid (reads_handle rfl) name.upToZero

/-- Either call of an enumeration may be the last one. -/
theorem enumeration_candid (display : Handle) {what : String} (e : EntryPoint)
    {count : Request (Outcome Int32)} {fill : Span → Request (Outcome Int32 × List Handle)}
    {first second : Reply → Int32} (hc : Reads count first)
    (hf : ∀ span, Reads (countOf (fill span)) second) :
    CandidOp (Enumeration.run display what e count fill) := by
  unfold Enumeration.run
  refine (require_candid hc).bind ?_
  intro total
  split
  · exact .throw rfl
  · dsimp only
    refine filled_candid (hf _) ?_
    rintro written ⟨reported, handles⟩
    have hlast : CandidOp (if written < 0 then throw .negativeLength
        else pure ((Enumeration.cells (min written.toInt.toNat total.toInt.toNat) 0 handles).map
          (ConfigRef.mk display))) := by
      split
      · exact .throw rfl
      · exact .pure _
    by_cases hs : written < total
    · simp only [hs, if_true]
      exact (note_candid (n := .shortfall e written total) (by simp [Notice.level])).bind
        fun _ => hlast
    · simp only [hs, if_false]
      exact hlast

theorem configs_candid (d : Display) : CandidOp d.configs :=
  enumeration_candid d.handle .getConfigs (reads_value rfl) fun _ => reads_value rfl

theorem chooseConfigs_candid (f : Filter) : CandidOp f.chooseConfigs :=
  enumeration_candid f.display .chooseConfig (reads_value rfl) fun _ => reads_value rfl

theorem query_candid (c : ConfigRef) (p : Property) : CandidOp (c.query p) :=
  (require_candid (reads_value rfl)).bind fun _ => .pure _

theorem queryAll_candid (c : ConfigRef) : CandidOp c.queryAll :=
  .mapM (fun p => (query_candid c p).bind fun _ => .pure _) Property.all

theorem field_candid (c : ConfigRef) (p : Property) : CandidOp (c.field p) :=
  (require_candid (reads_value rfl)).bind fun _ => .pure _

theorem queryApi_candid : CandidOp Client.queryApi := by
  intro w hw
  rcases hx : w.exchange .queryApi with ⟨reply, after⟩
  have hrun : Client.queryApi w = .ok (UInt32.ofNat reply.ret) after := perform_eq hx
  rw [hrun]
  exact exchange_done hw hx rfl

theorem run_candid {op : Op α} (h : CandidOp op) : CandidAct (Act.run op) := by
  intro s hs
  have hw := h s.world hs
  unfold Act.run
  cases ho : op s.world with
  | ok a w => rwa [ho] at hw
  | error f w => rwa [ho] at hw

theorem resolve_candid (slots : Session → Slots α) (name : String) :
    CandidAct (Act.resolve slots name) := by
  intro s _
  rcases resolve_eq slots name s with ⟨a, -, h⟩ | ⟨-, h⟩
  · rw [h]
    exact .done (.refl _ _)
  · rw [h]
    exact .stopped (.refl _ _) rfl

theorem config_candid (c : ConfigOperand) : CandidAct (Act.config c) := by
  cases c with
  | direct config => exact .pure config
  | listed list index =>
    refine (resolve_candid Session.lists list).bind ?_
    intro configs
    cases configs[index]? with
    | some config => exact .pure config
    | none => exact .throw rfl

theorem keepList_candid (name : Option String) (configs : List ConfigRef) :
    CandidAct (Act.keepList name configs) := by
  intro s _
  cases name with
  | none => exact .done (.refl _ _)
  | some name => exact .done (.refl _ _)

theorem keepFilter_candid (name : String) (f : Filter) : CandidAct (Act.keepFilter name f) := by
  intro s _
  exact .done (.refl _ _)

end Egl.Proofs
