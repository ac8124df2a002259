import Egl.Proofs.Ways

namespace Egl.Proofs

variable {α : Type} {P : Call → Prop} {what : String}

/-- The entry points through which owners give back what they hold. -/
def givesBack : EntryPoint → Bool
  | .destroyContext | .destroySurface | .terminate => true
  | _ => false

/-- An event that belongs to no cleanup: a call that gives nothing back, or any line but the one
that a cleanup of a display starts with. -/
def Ordinary : Event → Prop
  | .call _ c _ => givesBack c.entry = false
  | .notice n => n ≠ .unbinding

/-- An event of a program that makes only certain calls, and that is no cleanup of a display. -/
def Within (P : Call → Prop) : Event → Prop
  | .call _ c _ => P c
  | .notice n => n ≠ .unbinding

theorem Within.ordinary {e : Event} (h : Within P e) (hc : ∀ c, P c → givesBack c.entry = false) :
    Ordinary e := by
  cases e with
  | call t c reply => exact hc c h
  | notice n => exact h

/-- An operation makes only certain calls. -/
abbrev Confined (P : Call → Prop) (op : Op α) : Prop := Goes (Within P) op

theorem require_confined {q : Request (Outcome α)} (h : P q.call) :
    Confined P (Op.require what q) := .require fun _ _ => h

theorem note_confined {n : Notice} (h : n ≠ .unbinding) : Confined P (Op.note n) := .note h

theorem create_confined (kind : ResourceKind) (display : Handle) {q : Request (Outcome Handle)}
    (h : P q.call) : Confined P (Resource.create kind display what q) :=
  (require_confined h).bind fun handle =>
    (note_confined (n := .created kind handle) (by simp)).bind fun _ => .pure _

theorem connect_confined {id : Handle} (h : P (.getDisplay id)) :
    Confined P (Display.connect id) :=
  (require_confined h).bind fun handle =>
    (note_confined (n := .connected handle) (by simp)).bind fun _ => .pure _

theorem startVersion_confined {d : Display} (h : P (.initializeDisplay d.handle true)) :
    Confined P d.startVersion :=
  (require_confined h).bind fun (major, minor) =>
    (note_confined (n := .versionKnown d.handle major minor) (by simp)).bind fun _ => .pure _

theorem makeCurrent_confined {d : Display} {draw read : Surface} {c : Context}
    (h : P (.makeCurrent d.handle draw.handle read.handle c.handle)) :
    Confined P (d.makeCurrent draw read c) :=
  (note_confined (by simp)).bind fun _ => require_confined h

theorem procAddress_confined (h : ∀ name, P (.getProcAddress name)) (name : Option Bytes) :
    Confined P (Display.procAddress name) := by
  cases name with
  | none => exact .throw _
  | some name => exact .requireAs fun _ _ => h _

/-- Both calls of an enumeration go to the entry point that it is about, and a shortfall is only
logged. -/
theorem enumeration_confined (display : Handle) {e : EntryPoint} {count : Request (Outcome Int32)}
    {fill : Span → Request (Outcome Int32 × List Handle)} (hc : P count.call)
    (hf : ∀ span, P (fill span).call) : Confined P (Enumeration.run display what e count fill) := by
  unfold Enumeration.run
  refine (require_confined hc).bind fun total => ?_
  split
  · exact .throw _
  · refine (Goes.perform fun _ _ => hf _).bind fun (reported, handles) => ?_
    refine (Goes.accept _ _).bind fun written => ?_
    have hend : Confined P (if written < 0 then throw .negativeLength
        else pure ((Enumeration.cells (min written.toInt.toNat total.toInt.toNat) 0 handles).map
          (ConfigRef.mk display))) := by
      split
      · exact .throw _
      · exact .pure _
    by_cases hs : written < total
    · simp only [hs, if_true]
      exact (note_confined (n := .shortfall e written total) (by simp)).bind fun _ => hend
    · simp only [hs, if_false]
      exact hend

theorem configs_confined {d : Display} (h : ∀ buffer, P (.getConfigs d.handle buffer)) :
    Confined P d.configs := enumeration_confined d.handle (h none) fun span => h span.told

theorem chooseConfigs_confined {f : Filter}
    (h : ∀ buffer, P (.chooseConfig f.display (some f.attributes) buffer)) :
    Confined P f.chooseConfigs :=
  enumeration_confined f.display (h none) fun span => h span.told

section Config

variable {c : ConfigRef} (h : ∀ attr, P (.getConfigAttrib c.display c.handle attr))

include h

theorem query_confined (p : Property) : Confined P (c.query p) :=
  (require_confined (h p.code)).bind fun _ => .pure _

theorem queryAll_confined : Confined P c.queryAll :=
  .mapM (fun p => (query_confined h p).bind fun _ => .pure _) Property.all

theorem field_confined (p : Property) : Confined P (c.field p) :=
  (require_confined (h p.code)).bind fun _ => .pure _

/-- A description swallows the failure of a query, but not the calls that led to it. -/
theorem describe_confined : Confined P c.describe := by
  intro w
  have hw := Goes.mapM (field_confined h) Property.described w
  unfold ConfigRef.describe
  cases ho : Property.described.mapM c.field w with
  | ok fields mid =>
    rw [ho] at hw
    exact hw
  | error f mid =>
    rw [ho] at hw
    cases f <;> exact hw

end Config

end Egl.Proofs
