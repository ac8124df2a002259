import Egl.Proofs.Descriptions
import Egl.Proofs.Partings

namespace Egl.Proofs

variable {α β : Type} {k : OwnerKind} {w mid after : World} {body rest : List Event}

/-- All calls but the queries of attributes succeeded. -/
def Clean (events : List Event) : Prop :=
  ∀ t c reply, .call t c reply ∈ events → c.entry ≠ .getConfigAttrib →
    refused c.entry reply = false

/-- A negative count of configs was reported. -/
def Negative (events : List Event) : Prop :=
  ∃ t c reply, .call t c reply ∈ events ∧ c.entry = .chooseConfig ∧ reply.output 0 < 0

theorem clean_append : Clean (body ++ rest) ↔ Clean body ∧ Clean rest := by
  simp only [Clean, List.mem_append]
  constructor
  · exact fun h => ⟨fun t c r hm => h t c r (.inl hm), fun t c r hm => h t c r (.inr hm)⟩
  · rintro ⟨hb, hr⟩ t c r (hm | hm)
    · exact hb t c r hm
    · exact hr t c r hm

theorem negative_append : Negative (body ++ rest) ↔ Negative body ∨ Negative rest := by
  simp only [Negative, List.mem_append]
  constructor
  · rintro ⟨t, c, reply, hm | hm, h⟩
    · exact .inl ⟨t, c, reply, hm, h⟩
    · exact .inr ⟨t, c, reply, hm, h⟩
  · rintro (⟨t, c, reply, hm, h⟩ | ⟨t, c, reply, hm, h⟩)
    · exact ⟨t, c, reply, .inl hm, h⟩
    · exact ⟨t, c, reply, .inr hm, h⟩

theorem clean_nil : Clean [] := nofun

theorem clean_call {t : Table} {c : Call} {reply : Reply} (hc : c.entry ≠ .getConfigAttrib) :
    Clean [.call t c reply] ↔ refused c.entry reply = false := by
  constructor
  · exact fun h => h t c reply List.mem_cons_self hc
  · intro h _ _ _ hm _
    obtain ⟨-, rfl, rfl⟩ := Event.call.inj (List.mem_singleton.mp hm)
    exact h

theorem not_clean_call {t : Table} {c : Call} {reply : Reply} (hc : c.entry ≠ .getConfigAttrib)
    (hr : refused c.entry reply = true) : ¬ Clean [.call t c reply] := by
  rw [clean_call hc, hr]
  nofun

theorem refused_handle {e : EntryPoint} (h : sign e = .handle) (reply : Reply) :
    refused e reply = decide (reply.ret = 0) := by
  simp only [refused, h]

/-- What a program did before its cleanups: it gave nothing back. -/
structure Ran (w after : World) (body : List Event) : Prop where
  recording : Recording after
  journal : after.journal = w.journal ++ body
  ordinary : ∀ e ∈ body, Ordinary e

theorem Ran.refl (h : Recording w) : Ran w w [] := ⟨h, by simp, by simp⟩

theorem Ran.trans (h : Ran w mid body) (h' : Ran mid after rest) : Ran w after (body ++ rest) := by
  refine ⟨h'.recording, ?_, fun e he => ?_⟩
  · rw [h'.journal, h.journal, List.append_assoc]
  · exact (List.mem_append.mp he).elim (h.ordinary e) (h'.ordinary e)

theorem note_ran (h : Recording w) {n : Notice} (hn : n ≠ .unbinding) :
    Ran w (w.note n) [.notice n] := by
  refine ⟨h, note_journal w n, fun e he => ?_⟩
  rw [List.mem_singleton.mp he]
  exact hn

theorem exchange_ran (h : Recording w) {c : Call} (hc : givesBack c.entry = false) :
    Ran w (w.exchange c).2 [.call w.table c (w.exchange c).1] := by
  refine ⟨h.of_table (exchange_table w c), exchange_journal h c, fun e he => ?_⟩
  rw [List.mem_singleton.mp he]
  exact hc

/-- What a program did that acquired nothing. -/
structure Idled (w after : World) (body : List Event) : Prop extends Ran w after body where
  idle : gains body = []

theorem Idled.refl (h : Recording w) : Idled w w [] := ⟨.refl h, rfl⟩

theorem Idled.trans (h : Idled w mid body) (h' : Idled mid after rest) :
    Idled w after (body ++ rest) :=
  ⟨h.toRan.trans h'.toRan, by rw [gains_append, h.idle, h'.idle, List.append_nil]⟩

theorem note_idled (h : Recording w) {n : Notice} (hn : n ≠ .unbinding) :
    Idled w (w.note n) [.notice n] := ⟨note_ran h hn, rfl⟩

/-- How a program ended fits what it did: it ended early, with the failure of a call, exactly if a
call was refused. -/
def Fitting (body : List Event) : Option Failure → Prop
  | none => Clean body
  | some (.coded _ _) => ¬ Clean body
  | some _ => False

theorem Fitting.prepend {f : Option Failure} (h : Fitting rest f) (hc : Clean body) :
    Fitting (body ++ rest) f := by
  match f, h with
  | none, h => exact clean_append.mpr ⟨hc, h⟩
  | some (.coded _ _), h => exact fun hb => h (clean_append.mp hb).2

/-- An operation that acquires nothing and that fails as its calls do. -/
def Plainly (op : Op α) : Prop :=
  ∀ w, Recording w → ∃ body, Idled w (final (op w)) body ∧ Fitting body (problem (op w))

theorem Plainly.pure (a : α) : Plainly (pure a) := fun _ h => ⟨[], .refl h, clean_nil⟩

theorem Plainly.bind {op : Op α} {next : α → Op β} (h : Plainly op) (hn : ∀ a, Plainly (next a)) :
    Plainly (op >>= next) := by
  intro w hw
  obtain ⟨body, hidled, hfits⟩ := h w hw
  cases ho : op w with
  | ok a mid =>
    rw [ho] at hidled hfits
    obtain ⟨rest, hidled', hfits'⟩ := hn a mid hidled.recording
    rw [bind_ok ho]
    exact ⟨body ++ rest, hidled.trans hidled', hfits'.prepend hfits⟩
  | error f mid =>
    rw [ho] at hidled hfits
    rw [bind_error ho]
    exact ⟨body, hidled, hfits⟩

theorem clean_notice (n : Notice) : Clean [.notice n] := by
  intro t c reply hm
  cases List.mem_singleton.mp hm

theorem Plainly.note {n : Notice} (h : n ≠ .unbinding) : Plainly (Op.note n) :=
  fun _ hw => ⟨[.notice n], note_idled hw h, clean_notice n⟩

/-- A call that has to succeed is one event, and fails exactly if it is refused. -/
theorem requireAs_ran {q : Request (Outcome α)} {native : Reply → α} (h : Reads q native)
    (hs : sign q.call.entry ≠ .text) (ho : givesBack q.call.entry = false) (subject : Bytes)
    (hw : Recording w) :
    ∃ reply after, Ran w after [.call w.table q.call reply] ∧
      ((Op.requireAs subject q w = .ok (native reply) after ∧
          refused q.call.entry reply = false) ∨
        ∃ code, Op.requireAs subject q w = .error (.coded code subject) after ∧
          refused q.call.entry reply = true) := by
  have hran := exchange_ran hw ho
  rcases hx : w.exchange q.call with ⟨reply, after⟩
  rw [hx] at hran
  refine ⟨reply, after, hran, ?_⟩
  have hr := h reply
  unfold Op.requireAs
  rw [bind_ok (perform_eq hx), hr]
  cases hc : refused q.call.entry reply with
  | false =>
    have hf : failure q.call.entry reply = none := by simp [failure, hc, hs]
    rw [hf]
    exact .inl ⟨rfl, rfl⟩
  | true =>
    have hf : failure q.call.entry reply = some (.ofEntry q.call.entry) := by simp [failure, hc]
    rw [hf]
    exact .inr ⟨_, rfl, rfl⟩

theorem requireAs_plain {q : Request (Outcome α)} {native : Reply → α} (h : Reads q native)
    (hs : sign q.call.entry ≠ .text) (ho : givesBack q.call.entry = false)
    (hc : q.call.entry ≠ .getConfigAttrib) (hg : ∀ handle, gain q.call handle = none)
    (subject : Bytes) : Plainly (Op.requireAs subject q) := by
  intro w hw
  obtain ⟨reply, after, hran, hop⟩ := requireAs_ran h hs ho subject hw
  have hidled : Idled w after [.call w.table q.call reply] :=
    ⟨hran, by rw [gains_call, hg, Option.toList_none, ite_self]⟩
  rcases hop with ⟨hop, hr⟩ | ⟨code, hop, hr⟩
  · rw [hop]
    exact ⟨_, hidled, (clean_call hc).mpr hr⟩
  · rw [hop]
    exact ⟨_, hidled, not_clean_call hc hr⟩

/-- The calls of a description are queries of attributes, which do not count. -/
theorem describe_plain (c : ConfigRef) : Plainly c.describe := by
  intro w hw
  have hgrew := (describe_confined (P := fun call => call.entry = .getConfigAttrib) (c := c)
    (fun _ => rfl) w).grew
  obtain ⟨body, hj, hs⟩ := hgrew.journal
  refine ⟨body, ⟨⟨hgrew.recording hw, hj, fun e he => ?_⟩, ?_⟩, ?_⟩
  · exact (hs e he).ordinary fun call hcall => by rw [hcall]; rfl
  · refine List.filterMap_eq_nil_iff.mpr fun e he => ?_
    have hquery := hs e he
    cases e with
    | call t call reply =>
      cases call <;> first | exact ite_self _ | cases hquery
    | notice n => rfl
  · have hclean : Clean body := fun t call reply hm hne => absurd (hs _ hm) hne
    have hdescribed := describe_described c hw
    generalize c.describe w = result at hdescribed ⊢
    cases hdescribed with
    | config => exact hclean
    | error => exact hclean

/-- An operation that acquires what a new owner holds, by its only call. -/
def Obtains (op : Op (Owned k)) (token : Handle → Token k) : Prop :=
  ∀ w, Recording w →
    (∃ new after body handle, op w = .ok new after ∧ Ran w after body ∧ Clean body ∧
      holding k new = [token handle] ∧ gains body = [⟨k, token handle⟩]) ∨
    ∃ code subject after body, op w = .error (.coded code subject) after ∧ Idled w after body ∧
      ¬ Clean body

theorem handle_obtains (c : Call) (line : Handle → Notice) (make : Handle → Owned k)
    {what : String} {token : Handle → Token k} (hs : sign c.entry = .handle)
    (ho : givesBack c.entry = false) (hl : ∀ handle, line handle ≠ .unbinding)
    (hg : ∀ handle, gain c handle = some ⟨k, token handle⟩)
    (hh : ∀ handle, Owner.handle (make handle) = handle)
    (ht : ∀ handle, ticket k (make handle) handle = token handle) :
    Obtains (do
      let handle ← Op.require what (.handle c)
      Op.note (line handle)
      return make handle) token := by
  intro w hw
  have hne : c.entry ≠ .getConfigAttrib := by
    intro hc
    rw [hc] at hs
    cases hs
  obtain ⟨reply, after, hran, hop⟩ := requireAs_ran (q := .handle c) (reads_handle hs)
    (ne_of_eq_of_ne hs nofun) ho (.ofString what) hw
  change Ran w after [.call w.table c reply] at hran
  change _ ∧ refused c.entry reply = false ∨ ∃ code, _ ∧ refused c.entry reply = true at hop
  rw [refused_handle hs] at hop
  rcases hop with ⟨hop, hr⟩ | ⟨code, hop, hr⟩
  · have hz : reply.ret ≠ 0 := of_decide_eq_false hr
    have hgains : gains [.call w.table c reply] = [⟨k, token reply.ret⟩] := by
      rw [gains_call, if_neg hz, hg, Option.toList_some]
    refine .inl ⟨make reply.ret, _, _, reply.ret, bind_ok hop _,
      hran.trans (note_ran hran.recording (hl reply.ret)), ?_, ?_, ?_⟩
    · refine clean_append.mpr ⟨(clean_call hne).mpr ?_, clean_notice _⟩
      rw [refused_handle hs, hr]
    · rw [holding, hh, if_neg hz, ht]
    · rw [gains_append, hgains]
      rfl
  · refine .inr ⟨code, _, after, _, bind_error hop _, ⟨hran, ?_⟩, not_clean_call hne ?_⟩
    · rw [gains_call, if_pos (of_decide_eq_true hr)]
    · rw [refused_handle hs, hr]

theorem connect_obtains (id : Handle) :
    Obtains (k := .display) (Display.connect id) fun handle => handle :=
  handle_obtains (k := .display) (.getDisplay id) .connected Display.mk rfl rfl (by simp)
    (fun _ => rfl) (fun _ => rfl) fun _ => rfl

theorem createContext_obtains (d : Display) (config : ConfigRef) (version : Option Int32) :
    Obtains (k := .context) (d.createContext config version) fun handle => (d.handle, handle) :=
  handle_obtains (k := .context) (.createContext d.handle config.handle 0 _) (.created .context)
    (Resource.mk d.handle) rfl rfl (by simp) (fun _ => rfl) (fun _ => rfl) fun _ => rfl

theorem surface_obtains (d : Display) (what : String) {c : Call} (hs : sign c.entry = .handle)
    (ho : givesBack c.entry = false)
    (hg : ∀ handle, gain c handle = some ⟨.surface, d.handle, handle⟩) :
    Obtains (k := .surface) (Resource.create .surface d.handle what (.handle c))
      fun handle => (d.handle, handle) :=
  handle_obtains (k := .surface) c (.created .surface) (Resource.mk d.handle) hs ho (by simp) hg
    (fun _ => rfl) fun _ => rfl

/-- What a program did, up to the cleanups that release what it acquired. -/
structure Unwound (w after : World) (body tail : List Event) : Prop where
  recording : Recording after
  journal : after.journal = w.journal ++ (body ++ tail)
  ordinary : ∀ e ∈ body, Ordinary e
  released : callsOf tail = (gains body).reverse.flatMap fun g => partings g.1 g.2

/-- An operation that releases what it acquires, which is in a certain order. -/
def Unwinds (order : List Gain → Prop) (op : Op α) : Prop :=
  ∀ w, Recording w → ∃ body tail, Unwound w (final (op w)) body tail ∧ order (gains body) ∧
    Fitting body (problem (op w))

theorem Idled.unwound (h : Idled w after body) : Unwound w after body [] := by
  refine ⟨h.recording, by rw [h.journal, List.append_nil], h.ordinary, ?_⟩
  rw [h.idle]
  rfl

theorem Unwound.prepend {tail : List Event} (h : Unwound mid after rest tail)
    (hb : Idled w mid body) : Unwound w after (body ++ rest) tail := by
  refine ⟨h.recording, ?_, fun e he => ?_, ?_⟩
  · rw [h.journal, hb.journal, List.append_assoc, List.append_assoc]
  · exact (List.mem_append.mp he).elim (hb.ordinary e) (h.ordinary e)
  · rw [gains_append, hb.idle, List.nil_append, h.released]

/-- Whoever acquired something before all else releases it after all else. -/
theorem Unwound.release {tail : List Event} {new : Owned k} {token : Token k}
    (h : Unwound mid after rest tail) (hran : Ran w mid body) (hg : gains body = [⟨k, token⟩])
    (hh : holding k new = [token]) :
    ∃ last, Unwound w (Owner.release new after) (body ++ rest) (tail ++ last) := by
  obtain ⟨last, hj, hcalls⟩ := release_partings new h.recording
  refine ⟨last, release_recording new h.recording, ?_, fun e he => ?_, ?_⟩
  · rw [hj, h.journal, hran.journal]
    simp only [List.append_assoc]
  · exact (List.mem_append.mp he).elim (hran.ordinary e) (h.ordinary e)
  · rw [callsOf_append, h.released, hcalls, hh, gains_append, hg, List.reverse_append,
      List.flatMap_append]
    rfl

theorem Plainly.unwinds {op : Op α} (h : Plainly op) : Unwinds (· = []) op := by
  intro w hw
  obtain ⟨body, hidled, hf⟩ := h w hw
  exact ⟨body, [], hidled.unwound, hidled.idle, hf⟩

theorem Plainly.then {op : Op α} {next : α → Op β} {order : List Gain → Prop} (h : Plainly op)
    (hn : ∀ a, Unwinds order (next a)) (h0 : order []) : Unwinds order (op >>= next) := by
  intro w hw
  obtain ⟨body, hidled, hf⟩ := h w hw
  cases ho : op w with
  | ok a mid =>
    rw [ho] at hidled hf
    obtain ⟨rest, tail, hu, hrest, hf'⟩ := hn a mid hidled.recording
    rw [bind_ok ho]
    refine ⟨body ++ rest, tail, hu.prepend hidled, ?_, hf'.prepend hf⟩
    rwa [gains_append, hidled.idle]
  | error f mid =>
    rw [ho] at hidled hf
    rw [bind_error ho]
    exact ⟨body, [], hidled.unwound, by rwa [hidled.idle], hf⟩

theorem ensuring_final (op : Op α) (cleanup : World → World) (w : World) :
    final (Op.ensuring op cleanup w) = cleanup (final (op w)) := by
  unfold Op.ensuring
  cases op w <;> rfl

/-- A cleanup changes nothing about how an operation ended. -/
theorem ensuring_problem (op : Op α) (cleanup : World → World) (w : World) :
    problem (Op.ensuring op cleanup w) = problem (op w) := by
  unfold Op.ensuring
  cases op w <;> rfl

/-- An owner that lives while a program runs is released at its end, whichever way it ends. -/
theorem Obtains.unwinds {creation : Op (Owned k)} {token : Handle → Token k}
    {next : Owned k → Op α} {inner order : List Gain → Prop} (h : Obtains creation token)
    (hn : ∀ new, Unwinds inner (next new)) (h0 : order [])
    (h1 : ∀ handle later, inner later → order (⟨k, token handle⟩ :: later)) :
    Unwinds order (do
      let new ← creation
      Op.ensuring (next new) (Owner.release new)) := by
  intro w hw
  rcases h w hw with ⟨new, mid, body, handle, hop, hran, hc, hh, hg⟩ |
    ⟨code, subject, mid, body, hop, hidled, hc⟩
  · obtain ⟨rest, tail, hu, ho, hf⟩ := hn new mid hran.recording
    obtain ⟨last, hlast⟩ := hu.release hran hg hh
    rw [bind_ok hop, ensuring_final, ensuring_problem]
    refine ⟨body ++ rest, tail ++ last, hlast, ?_, hf.prepend hc⟩
    rw [gains_append, hg]
    exact h1 handle _ ho
  · rw [bind_error hop]
    exact ⟨body, [], hidled.unwound, by rwa [hidled.idle], hc⟩

/-- A call whose answer tells of success, by an operation that acquires nothing. -/
theorem status_plain {what : String} {c : Call} (hs : sign c.entry = .answer)
    (ho : givesBack c.entry = false) (hc : c.entry ≠ .getConfigAttrib)
    (hg : ∀ handle, gain c handle = none) :
    Plainly (Op.require what (.status c)) :=
  requireAs_plain (reads_status hs) (ne_of_eq_of_ne hs nofun) ho hc hg _

theorem value_plain {what : String} {c : Call} (hs : sign c.entry = .answer)
    (ho : givesBack c.entry = false) (hc : c.entry ≠ .getConfigAttrib)
    (hg : ∀ handle, gain c handle = none) :
    Plainly (Op.require what (.value c)) :=
  requireAs_plain (reads_value hs) (ne_of_eq_of_ne hs nofun) ho hc hg _

end Egl.Proofs
