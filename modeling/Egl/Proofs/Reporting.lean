import Egl.Proofs.Endings
import Mathlib.Data.List.Forall2

namespace Egl.Proofs

variable {st : Step} {r : Record} {events : List Event}

/-- The line that a failed call of a cleanup leaves: the entry point, and its tag as an address is
written. -/
def failureLine (e : EntryPoint) : Bytes :=
  Bytes.ofString (e.name ++ ": 0x" ++ Numeral.hexDigits e.tag.toInt.toNat)

/-- The description of a config that could not be asked about itself. -/
def errorText (e : EntryPoint) : String := "config_ref_t\x7berror: " ++ e.name ++ " failed\x7d"

/-- The calls that cleanups make. -/
def cleans : Call → Bool
  | .destroyContext .. | .destroySurface .. | .terminate _ => true
  | .makeCurrent _ draw read context => draw = 0 && read = 0 && context = 0
  | _ => false

/-- Events of cleanups. A failed call is followed by its line at once, and there is no other line at
the level of errors. -/
inductive Logged : List Event → Prop
  | nil : Logged []
  | quiet {e : Event} {rest : List Event} (he : Quiet e) (h : Logged rest) : Logged (e :: rest)
  | failed {t : Table} {c : Call} {reply : Reply} {n : Notice} {rest : List Event}
      (hc : cleans c = true) (hr : refused c.entry reply = true) (hn : n.level = .error)
      (ht : n.text = failureLine c.entry) (h : Logged rest) :
      Logged (.call t c reply :: .notice n :: rest)

/-- How a failed call can be reported. -/
inductive Report
  | line (text : Bytes)
  | raised (code : ErrorCode)
  | described (text : String)
  deriving DecidableEq

/-- A report that fits a failed call. Only a cleanup is reported by a line in the log, and only the
query of an attribute by a text. -/
inductive Fits (c : Call) : Report → Prop
  | line (hc : cleans c = true) : Fits c (.line (failureLine c.entry))
  | raised : Fits c (.raised (.ofEntry c.entry))
  | described {text : String} (hc : c.entry = .getConfigAttrib)
      (ht : text = errorText c.entry ∨ text = "<" ++ errorText c.entry ++ ">") :
      Fits c (.described text)

/-- The calls among some events that failed, in order. -/
def failedCalls (events : List Event) : List Call :=
  events.filterMap fun
    | .call _ c reply => if refused c.entry reply then some c else none
    | .notice _ => none

/-- The lines among some events that are at the level of errors, in order. -/
def errorLines (events : List Event) : List Report :=
  events.filterMap fun
    | .call .. => none
    | .notice n => if n.level = .error then some (.line n.text) else none

/-- What a step answers that puts a config into words, if the config could not be asked. -/
def mishap : Step → Option String
  | .describeConfig _ => some (errorText .getConfigAttrib)
  | .formatConfig _ => some ("<" ++ errorText .getConfigAttrib ++ ">")
  | _ => none

/-- The failed call that the result of a step reports, if any. -/
def verdict (st : Step) : Except Fault Answer → Option Report
  | .error fault => (raised fault).map .raised
  | .ok (.text text) => if mishap st = some text then some (.described text) else none
  | .ok _ => none

/-- All reports of failed calls that a step makes. -/
def reports (st : Step) (r : Record) : List Report :=
  errorLines r.events ++ (verdict st r.result).toList

/-- What a step can come to, as far as failed calls go. -/
inductive Told (st : Step) : Record → Prop
  /-- No call failed but for cleanups at the end, and these do not keep the step from its answer. A
  step that only uses owners cleans nothing up. -/
  | completed {answer : Answer} {quiet cleaned : List Event} (hq : ∀ e ∈ quiet, Quiet e)
      (hc : Logged cleaned) (hm : manner st = .uses → cleaned = [])
      (hv : verdict st (.ok answer) = none) :
      Told st ⟨.ok answer, quiet ++ cleaned⟩
  /-- The last call failed, and the step ends with its tag. -/
  | failed {quiet : List Event} {t : Table} {c : Call} {reply : Reply} {subject : Bytes}
      (hq : ∀ e ∈ quiet, Quiet e) (hr : refused c.entry reply = true) :
      Told st ⟨.error (.failed (.coded (.ofEntry c.entry) subject)), quiet ++ [.call t c reply]⟩
  /-- The step ended early, but not for a failed call. -/
  | stopped {fault : Fault} {quiet : List Event} (hq : ∀ e ∈ quiet, Quiet e)
      (hf : raised fault = none) : Told st ⟨.error fault, quiet⟩
  /-- The last call failed, and the text that describes the config says so. -/
  | described {text : String} {quiet : List Event} {t : Table} {c : Call} {reply : Reply}
      (hq : ∀ e ∈ quiet, Quiet e) (hc : c.entry = .getConfigAttrib)
      (hr : refused c.entry reply = true) (hm : mishap st = some text) :
      Told st ⟨.ok (.text text), quiet ++ [.call t c reply]⟩

theorem failedCalls_append (first last : List Event) :
    failedCalls (first ++ last) = failedCalls first ++ failedCalls last := List.filterMap_append

theorem errorLines_append (first last : List Event) :
    errorLines (first ++ last) = errorLines first ++ errorLines last := List.filterMap_append

theorem failedCalls_quiet (h : ∀ e ∈ events, Quiet e) : failedCalls events = [] := by
  refine List.filterMap_eq_nil_iff.mpr ?_
  intro e he
  have hq := h e he
  cases e with
  | call t c reply =>
    have hr : refused c.entry reply = false := hq
    simp [hr]
  | notice n => rfl

theorem errorLines_quiet (h : ∀ e ∈ events, Quiet e) : errorLines events = [] := by
  refine List.filterMap_eq_nil_iff.mpr ?_
  intro e he
  have hq := h e he
  cases e with
  | call t c reply => rfl
  | notice n => exact if_neg hq

theorem failedCalls_refused {t : Table} {c : Call} {reply : Reply}
    (h : refused c.entry reply = true) : failedCalls [.call t c reply] = [c] := by
  simp [failedCalls, h]

theorem Logged.append {last : List Event} (h : Logged events) (h' : Logged last) :
    Logged (events ++ last) := by
  induction h with
  | nil => exact h'
  | quiet he _ ih => exact .quiet he ih
  | failed hc hr hn ht _ ih => exact .failed hc hr hn ht ih

/-- Cleanups have exactly one line for each failed call, in the same order. -/
theorem Logged.matched (h : Logged events) :
    List.Forall₂ Fits (failedCalls events) (errorLines events) := by
  induction h with
  | nil => exact .nil
  | @quiet e rest he _ ih =>
    have hone : ∀ other ∈ [e], Quiet other := by
      intro other ho
      rw [List.mem_singleton] at ho
      rwa [ho]
    have hsplit : e :: rest = [e] ++ rest := rfl
    rw [hsplit, failedCalls_append, errorLines_append, failedCalls_quiet hone,
      errorLines_quiet hone]
    exact ih
  | @failed t c reply n rest hc hr hn ht _ ih =>
    have hcalls : failedCalls (.call t c reply :: .notice n :: rest) = c :: failedCalls rest := by
      simp [failedCalls, hr]
    have hlines : errorLines (.call t c reply :: .notice n :: rest) =
        .line (failureLine c.entry) :: errorLines rest := by
      simp [errorLines, hn, ht]
    rw [hcalls, hlines]
    exact .cons (.line hc) ih

theorem mishap_text {text : String} (h : mishap st = some text) :
    text = errorText .getConfigAttrib ∨ text = "<" ++ errorText .getConfigAttrib ++ ">" := by
  cases st
  case describeConfig config => exact .inl (Option.some.inj h).symm
  case formatConfig config => exact .inr (Option.some.inj h).symm
  all_goals cases h

/-- No failed call of a step is lost or reported twice, and none is made up. -/
theorem Told.matched (h : Told st r) :
    List.Forall₂ Fits (failedCalls r.events) (reports st r) := by
  unfold reports
  cases h with
  | completed hq hc _ hv =>
    rw [failedCalls_append, errorLines_append, failedCalls_quiet hq, errorLines_quiet hq, hv]
    simpa using hc.matched
  | @failed quiet t c reply subject hq hr =>
    rw [failedCalls_append, errorLines_append, failedCalls_quiet hq, errorLines_quiet hq,
      failedCalls_refused hr]
    exact .cons .raised .nil
  | stopped hq hf =>
    rw [failedCalls_quiet hq, errorLines_quiet hq, verdict, hf]
    exact .nil
  | @described text quiet t c reply hq hc hr hm =>
    rw [failedCalls_append, errorLines_append, failedCalls_quiet hq, errorLines_quiet hq,
      failedCalls_refused hr]
    have hv : verdict st (.ok (.text text)) = some (.described text) := by
      rw [verdict, if_pos hm]
    rw [hv]
    refine .cons (.described hc ?_) .nil
    rw [hc]
    exact mishap_text hm

end Egl.Proofs
