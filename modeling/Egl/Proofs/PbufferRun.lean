import Egl.Demo.Pbuffer
import Egl.Proofs.Unwinding

namespace Egl.Proofs

variable {α : Type} {w mid after : World} {body rest : List Event}

theorem draw_plain (d : Display) (context : Context) (surface : Surface) :
    Plainly (Demo.draw d context surface) := by
  have hswap : Plainly (d.swapBuffers surface) := status_plain rfl rfl nofun fun _ => rfl
  have haddress : Plainly (Display.procAddress (some (Bytes.ofString "glClear"))) :=
    requireAs_plain (q := .getProcAddress (Bytes.ofString "glClear")) (reads_handle rfl) nofun rfl
      nofun (fun _ => rfl) _
  refine .bind (.bind (.note (by simp)) fun _ => status_plain rfl rfl nofun fun _ => rfl)
    fun _ => ?_
  refine .bind (value_plain rfl rfl nofun fun _ => rfl) fun width => ?_
  refine .bind (value_plain rfl rfl nofun fun _ => rfl) fun height => ?_
  refine .bind (.note (by simp)) fun _ => ?_
  refine haddress.bind fun address => ?_
  refine .bind (.note (by simp)) fun _ => ?_
  refine hswap.bind fun _ => hswap.bind fun _ => hswap.bind fun _ => ?_
  exact .bind (status_plain rfl rfl nofun fun _ => rfl) fun _ => .pure _

/-- An operation that ends with success if it does not fail. -/
def Succeeds (op : Op Exit) : Prop := ∀ w exit after, op w = .ok exit after → exit = .success

theorem Succeeds.bind {op : Op α} {next : α → Op Exit} (h : ∀ a, Succeeds (next a)) :
    Succeeds (op >>= next) := by
  intro w exit after ho
  cases hop : op w with
  | ok a mid =>
    rw [bind_ok hop] at ho
    exact h a mid exit after ho
  | error f mid =>
    rw [bind_error hop] at ho
    cases ho

theorem Succeeds.pure : Succeeds (pure .success) := by
  rintro _ _ _ ⟨⟩
  rfl

theorem Succeeds.ensuring {op : Op Exit} (h : Succeeds op) (cleanup : World → World) :
    Succeeds (Op.ensuring op cleanup) := by
  intro w exit after ho
  unfold Op.ensuring at ho
  cases hop : op w with
  | ok other mid =>
    rw [hop] at ho
    cases ho
    exact h w exit mid hop
  | error f mid =>
    rw [hop] at ho
    cases ho

/-- What the demo does once it has a config. -/
def present (d : Display) (config : ConfigRef) : Op Exit := do
  let description ← config.describe
  Op.note (.config .debug description)
  Client.bindApi Code.openglEsApi
  Demo.withResource (d.createContext config (some 2)) fun context =>
    Demo.withResource (d.createPbufferSurface config Demo.pbufferAttributes) fun surface =>
      Demo.draw d context surface

theorem present_succeeds (d : Display) (config : ConfigRef) : Succeeds (present d config) := by
  refine .bind fun _ => .bind fun _ => .bind fun _ => .bind fun context => .ensuring ?_ _
  refine .bind fun surface => .ensuring ?_ _
  exact .bind fun _ => .bind fun _ => .bind fun _ => .bind fun _ => .bind fun _ => .bind fun _ =>
    .bind fun _ => .bind fun _ => .bind fun _ => .bind fun _ => .pure

/-- What the demo may acquire on a display: at most a context, and then a surface. -/
def Inside (d : Display) (found : List Gain) : Prop :=
  ∃ c s, found <+: [⟨.context, (d.handle, c)⟩, ⟨.surface, (d.handle, s)⟩]

theorem present_unwinds (d : Display) (config : ConfigRef) :
    Unwinds (Inside d) (present d config) := by
  have hdrawn : ∀ context, Unwinds (fun found => ∃ s, found <+: [⟨.surface, (d.handle, s)⟩])
      (Demo.withResource (d.createPbufferSurface config Demo.pbufferAttributes) fun surface =>
        Demo.draw d context surface) := by
    intro context
    refine (surface_obtains d _ rfl rfl fun _ => rfl).unwinds
      (fun surface => (draw_plain d context surface).unwinds) ⟨0, List.nil_prefix⟩ ?_
    rintro handle _ rfl
    exact ⟨handle, List.prefix_rfl⟩
  refine (describe_plain config).then (fun _ => ?_) ⟨0, 0, List.nil_prefix⟩
  refine (Plainly.note (by simp)).then (fun _ => ?_) ⟨0, 0, List.nil_prefix⟩
  have hbind : Plainly (Client.bindApi Code.openglEsApi) := status_plain rfl rfl nofun fun _ => rfl
  refine hbind.then (fun _ => ?_) ⟨0, 0, List.nil_prefix⟩
  refine (createContext_obtains d config (some 2)).unwinds hdrawn ⟨0, 0, List.nil_prefix⟩ ?_
  rintro handle later ⟨s, hs⟩
  exact ⟨handle, s, List.prefix_cons_inj _ |>.mpr hs⟩

/-- How the choice of configs fits what it did. A negative count ends it as well. -/
def Choosing (body : List Event) : Option Failure → Prop
  | some .negativeLength => Negative body
  | f => Fitting body f

theorem Fitting.choosing {f : Failure} (h : Fitting body (some f)) : Choosing body (some f) := by
  match f, h with
  | .coded _ _, h => exact h

theorem Choosing.prepend {f : Option Failure} (h : Choosing rest f) (hc : Clean body) :
    Choosing (body ++ rest) f := by
  match f, h with
  | none, h => exact clean_append.mpr ⟨hc, h⟩
  | some (.coded _ _), h => exact fun hb => h (clean_append.mp hb).2
  | some .negativeLength, h => exact negative_append.mpr (.inr h)

/-- A request for configs acquires nothing. It is refused, or it reports a count. -/
theorem request_idled (hw : Recording w) {c : Call} (hc : c.entry = .chooseConfig) :
    ∃ reply after, w.exchange c = (reply, after) ∧ Idled w after [.call w.table c reply] ∧
      (reply.accepted = false ∧ ¬ Clean [.call w.table c reply] ∨
        reply.accepted = true ∧ Clean [.call w.table c reply] ∧
          (reply.output 0 < 0 → Negative [.call w.table c reply])) := by
  have hran := exchange_ran hw (c := c) (by rw [hc]; rfl)
  have hne : c.entry ≠ .getConfigAttrib := by
    rw [hc]
    nofun
  rcases hx : w.exchange c with ⟨reply, after⟩
  rw [hx] at hran
  have hrefused : refused c.entry reply = !reply.accepted := by
    rw [hc]
    rfl
  refine ⟨reply, after, rfl, ⟨hran, ?_⟩, ?_⟩
  · rw [gains_call]
    cases c <;> first | exact ite_self _ | cases hc
  · cases ha : reply.accepted with
    | false => exact .inl ⟨rfl, not_clean_call hne (by rw [hrefused, ha]; rfl)⟩
    | true =>
      exact .inr ⟨rfl, (clean_call hne).mpr (by rw [hrefused, ha]; rfl),
        fun hn => ⟨_, c, reply, List.mem_cons_self, hc, hn⟩⟩

theorem chooseConfigs_choosing (f : Filter) (hw : Recording w) :
    ∃ body, Idled w (final (f.chooseConfigs w)) body ∧
      Choosing body (problem (f.chooseConfigs w)) := by
  have h := chooseConfigs_two_pass f
  obtain ⟨first, counted, hx, hcount, ⟨hf, hc⟩ | ⟨hf, hc, hn⟩⟩ :=
    request_idled hw (c := .chooseConfig f.display (some f.attributes) none) rfl
  · rw [h.count_failed hx hf]
    exact ⟨_, hcount, hc⟩
  by_cases hneg : first.output 0 < 0
  · rw [h.count_negative hx hf hneg]
    exact ⟨_, hcount, hn hneg⟩
  have hpos : 0 ≤ first.output 0 := Int32.not_lt.mp hneg
  obtain ⟨second, filled, hx', hfill, ⟨hf', hc'⟩ | ⟨hf', hc', hn'⟩⟩ :=
    request_idled hcount.recording
      (c := .chooseConfig f.display (some f.attributes) (roomFor (first.output 0))) rfl
  · rw [h.fill_failed hx hf hpos hx' hf']
    exact ⟨_, hcount.trans hfill, fun hclean => hc' (clean_append.mp hclean).2⟩
  have hboth := hcount.trans hfill
  have hclean := clean_append.mpr ⟨hc, hc'⟩
  have hnoted := hboth.trans (note_idled hboth.recording
    (n := .shortfall .chooseConfig (second.output 0) (first.output 0)) (by simp))
  by_cases hneg' : second.output 0 < 0
  · rw [h.fill_negative hx hf hpos hx' hf' hneg']
    exact ⟨_, hnoted, negative_append.mpr (.inl (negative_append.mpr (.inr (hn' hneg'))))⟩
  · obtain ⟨configs, hop, -, -⟩ := h.listed hx hf hpos hx' hf' (Int32.not_lt.mp hneg')
    rw [hop]
    by_cases hless : second.output 0 < first.output 0
    · rw [if_pos hless]
      exact ⟨_, hnoted, clean_append.mpr ⟨hclean, clean_notice _⟩⟩
    · rw [if_neg hless]
      exact ⟨_, hboth, hclean⟩

/-- How the demo chooses configs. -/
def choose (d : Display) : Op (List ConfigRef) := do
  d.start
  (Demo.pbufferFilter d).chooseConfigs

/-- What the demo does with the configs that it chose. -/
def attend (d : Display) : List ConfigRef → Op Exit
  | [] => do
    Op.note .noPbufferConfig
    return .failure
  | config :: _ => present d config

theorem pbuffer_eq (d : Display) : Demo.pbuffer d = choose d >>= attend d := by
  rw [choose, bind_assoc]
  rfl

theorem choose_choosing (d : Display) (hw : Recording w) :
    ∃ body, Idled w (final (choose d w)) body ∧ Choosing body (problem (choose d w)) := by
  have hstart : Plainly d.start := status_plain rfl rfl nofun fun _ => rfl
  obtain ⟨body, hstarted, hf⟩ := hstart w hw
  unfold choose
  cases hs : d.start w with
  | error f mid =>
    rw [hs] at hstarted hf
    rw [bind_error hs]
    exact ⟨body, hstarted, hf.choosing⟩
  | ok _ mid =>
    rw [hs] at hstarted hf
    rw [bind_ok hs]
    obtain ⟨rest, hchosen, hc⟩ := chooseConfigs_choosing (Demo.pbufferFilter d) hstarted.recording
    exact ⟨_, hstarted.trans hchosen, hc.prepend hf⟩

/-- The configs that the demo chooses on a display. If it cannot choose, there are none. -/
def suited (d : Display) (w : World) : List ConfigRef :=
  match choose d w with
  | .ok configs _ => configs
  | .error _ _ => []

/-- The configs that the demo chooses on the default display. -/
def chosen (w : World) : List ConfigRef :=
  match Display.connect Display.defaultId w with
  | .ok d mid => suited d mid
  | .error _ _ => []

/-- How the demo on a display can end. -/
inductive Verdict (configs : List ConfigRef) (body : List Event) :
    EStateM.Result Failure World Exit → Prop
  | presented {after : World} (hc : configs ≠ []) (h : Clean body) :
    Verdict configs body (.ok .success after)
  | unsuited {after : World} (hc : configs = []) : Verdict configs body (.ok .failure after)
  | refused {code : ErrorCode} {subject : Bytes} {after : World} (h : ¬ Clean body) :
    Verdict configs body (.error (.coded code subject) after)
  | stopped {after : World} (hc : configs = []) (h : Negative body) :
    Verdict configs body (.error .negativeLength after)

theorem Verdict.prepend {configs : List ConfigRef} {result : EStateM.Result Failure World Exit}
    (h : Verdict configs rest result) (hc : Clean body) :
    Verdict configs (body ++ rest) result := by
  cases h with
  | presented hs hr => exact .presented hs (clean_append.mpr ⟨hc, hr⟩)
  | unsuited hs => exact .unsuited hs
  | refused hr => exact .refused fun hb => hr (clean_append.mp hb).2
  | stopped hs hn => exact .stopped hs (negative_append.mpr (.inr hn))

theorem Verdict.ensuring {configs : List ConfigRef} {op : Op Exit}
    (h : Verdict configs body (op w)) (cleanup : World → World) :
    Verdict configs body (Op.ensuring op cleanup w) := by
  unfold Op.ensuring
  generalize op w = result at h ⊢
  cases h with
  | presented hc hb => exact .presented hc hb
  | unsuited hc => exact .unsuited hc
  | refused hb => exact .refused hb
  | stopped hc hb => exact .stopped hc hb

theorem Choosing.verdict {f : Failure} (h : Choosing body (some f)) (after : World) :
    Verdict [] body (.error f after) := by
  match f, h with
  | .coded _ _, h => exact .refused h
  | .negativeLength, h => exact .stopped rfl h

theorem present_verdict (d : Display) {config : ConfigRef} {others : List ConfigRef}
    (h : Fitting body (problem (present d config w))) :
    Verdict (config :: others) body (present d config w) := by
  have hsucceeds := present_succeeds d config w
  generalize present d config w = result at h hsucceeds ⊢
  match result, h with
  | .ok exit after, h =>
    rw [hsucceeds exit after rfl]
    exact .presented nofun h
  | .error (.coded _ _) after, h => exact .refused h

theorem Idled.inside (h : Idled w after body) (d : Display) : Inside d (gains body) :=
  ⟨0, 0, by rw [h.idle]; exact List.nil_prefix⟩

theorem attend_verdict (d : Display) (configs : List ConfigRef) (hw : Recording w) :
    ∃ body tail, Unwound w (final (attend d configs w)) body tail ∧ Inside d (gains body) ∧
      Verdict configs body (attend d configs w) := by
  cases configs with
  | nil =>
    have hnoted := note_idled hw (n := .noPbufferConfig) (by simp)
    exact ⟨_, [], hnoted.unwound, hnoted.inside d, .unsuited rfl⟩
  | cons config others =>
    obtain ⟨body, tail, hu, hi, hf⟩ := present_unwinds d config w hw
    exact ⟨body, tail, hu, hi, present_verdict d hf⟩

theorem pbuffer_verdict (d : Display) (hw : Recording w) :
    ∃ body tail, Unwound w (final (Demo.pbuffer d w)) body tail ∧ Inside d (gains body) ∧
      Verdict (suited d w) body (Demo.pbuffer d w) := by
  obtain ⟨body, hidled, hc⟩ := choose_choosing d hw
  rw [pbuffer_eq, suited]
  cases ho : choose d w with
  | error f after =>
    rw [ho] at hidled hc
    rw [bind_error ho]
    exact ⟨body, [], hidled.unwound, hidled.inside d, hc.verdict after⟩
  | ok configs mid =>
    rw [ho] at hidled hc
    rw [bind_ok ho]
    obtain ⟨rest, tail, hu, hi, hv⟩ := attend_verdict d configs hidled.recording
    refine ⟨_, tail, hu.prepend hidled, ?_, hv.prepend hc⟩
    rwa [gains_append, hidled.idle]

/-- What is logged in the end releases nothing. -/
theorem Unwound.note {tail : List Event} (h : Unwound w after body tail) (n : Notice) :
    Unwound w (after.note n) body (tail ++ [.notice n]) := by
  refine ⟨h.recording, ?_, h.ordinary, ?_⟩
  · rw [note_journal, h.journal]
    simp only [List.append_assoc]
  · rw [callsOf_append, h.released]
    exact List.append_nil _

theorem conclude_unwound {configs : List ConfigRef} {op : Op Exit} {tail : List Event}
    (h : Unwound w (final (op w)) body tail) (hv : Verdict configs body (op w)) :
    ∃ tail, Unwound w (Demo.conclude op w).2 body tail ∧
      ((Demo.conclude op w).1 = .ok .success ↔ configs ≠ [] ∧ Clean body) ∧
      (¬ Negative body → ∃ exit, (Demo.conclude op w).1 = .ok exit) := by
  unfold Demo.conclude
  generalize op w = result at h hv ⊢
  cases hv with
  | presented hc hb => exact ⟨tail, h, ⟨fun _ => ⟨hc, hb⟩, fun _ => rfl⟩, fun _ => ⟨_, rfl⟩⟩
  | unsuited hc => exact ⟨tail, h, ⟨nofun, fun hb => absurd hc hb.1⟩, fun _ => ⟨_, rfl⟩⟩
  | refused hb => exact ⟨_, h.note _, ⟨nofun, fun hc => absurd hc.2 hb⟩, fun _ => ⟨_, rfl⟩⟩
  | stopped hc hn => exact ⟨tail, h, ⟨nofun, fun hb => absurd hc hb.1⟩, fun hb => absurd hn hb⟩

/-- How the demo unwinds. -/
structure DemoUnwound (w : World) (body tail : List Event) : Prop where
  journal : (Demo.runPbuffer w).2.journal = body ++ tail
  /-- Nothing is destroyed or terminated before the tail. -/
  ordinary : ∀ e ∈ body, Ordinary e
  /-- What is acquired is a display, a context of it and a surface of it, as far as it gets. -/
  order : ∃ d c s, gains body <+:
    [⟨.display, d⟩, ⟨.context, (d, c)⟩, ⟨.surface, (d, s)⟩]
  /-- The calls of the tail release each of them once, the latest first. -/
  released : callsOf tail = (gains body).reverse.flatMap fun g => partings g.1 g.2
  /-- The exit tells about the calls before the tail, whatever comes of those in it. -/
  success : (Demo.runPbuffer w).1 = .ok .success ↔ chosen w ≠ [] ∧ Clean body
  handled : ¬ Negative body → ∃ exit, (Demo.runPbuffer w).1 = .ok exit

/-- The demo releases what it acquired on every path, whatever the implementation answers. -/
theorem pbuffer_unwound (b : Backend) (script : Script) :
    ∃ body tail, DemoUnwound { backend := b, script := script } body tail := by
  let w : World := { backend := b, script := script }
  have hw : Recording w := nofun
  suffices h : ∃ body tail, Unwound w (final (Demo.withDisplay Demo.pbuffer w)) body tail ∧
      (∃ d c s, gains body <+: [⟨.display, d⟩, ⟨.context, (d, c)⟩, ⟨.surface, (d, s)⟩]) ∧
      Verdict (chosen w) body (Demo.withDisplay Demo.pbuffer w) by
    obtain ⟨body, tail, hu, hp, hv⟩ := h
    obtain ⟨tail, hu, hsuccess, hhandled⟩ := conclude_unwound hu hv
    exact ⟨body, tail, hu.journal, hu.ordinary, hp, hu.released, hsuccess, hhandled⟩
  unfold Demo.withDisplay chosen
  rcases connect_obtains Display.defaultId w hw with ⟨d, mid, body, handle, hop, hran, hc, hh, hg⟩ |
    ⟨code, subject, mid, body, hop, hidled, hc⟩
  · have hd : d.handle = handle := by
      unfold holding at hh
      split at hh
      · cases hh
      · exact (List.cons.inj hh).1
    obtain ⟨rest, tail, hu, ⟨c, s, hp⟩, hv⟩ := pbuffer_verdict d hran.recording
    obtain ⟨last, hlast⟩ := hu.release hran hg hh
    rw [bind_ok hop, ensuring_final, hop]
    refine ⟨body ++ rest, tail ++ last, hlast, ⟨handle, c, s, ?_⟩, (hv.prepend hc).ensuring _⟩
    rw [hd] at hp
    rw [gains_append, hg]
    exact (List.prefix_cons_inj _).mpr hp
  · rw [bind_error hop, hop]
    exact ⟨body, [], hidled.unwound, ⟨0, 0, 0, by rw [hidled.idle]; exact List.nil_prefix⟩,
      .refused hc⟩

/-- An implementation without surfaces off screen. -/
def surfaceless : World where
  backend := { configs := [.make 1 8 8 8 8 24 8], failures := [.createPbufferSurface] }

example : (Demo.runPbuffer surfaceless).2.calls.drop 39 =
    [.destroyContext 208 0x1000, .makeCurrent 208 0 0 0, .terminate 208] := by decide +kernel

end Egl.Proofs
