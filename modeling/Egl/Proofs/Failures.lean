import Egl.Proofs.Accounts
import Egl.Proofs.Descriptions

namespace Egl.Proofs

variable {α : Type} {k : OwnerKind} {w mid after : World} {s : Session} {st : Step}

/-- Cleanups happened between two worlds, and their failed calls are in the log. -/
structure Cleaned (w after : World) : Prop where
  recording : Recording after
  journal : ∃ events, after.journal = w.journal ++ events ∧ Logged events

theorem Cleaned.refl (h : Recording w) : Cleaned w w := ⟨h, [], by simp, .nil⟩

theorem Cleaned.trans (h : Cleaned w mid) (h' : Cleaned mid after) : Cleaned w after := by
  obtain ⟨first, hf, hl⟩ := h.journal
  obtain ⟨last, hf', hl'⟩ := h'.journal
  refine ⟨h'.recording, first ++ last, ?_, hl.append hl'⟩
  rw [hf', hf, List.append_assoc]

theorem cleanupFailed_text (e : EntryPoint) :
    (Notice.cleanupFailed e (.ofEntry e)).text = failureLine e := by
  have hsplit : ": 0x" = ": " ++ "0x" := by decide
  have hwords : (Notice.cleanupFailed e (.ofEntry e)).words =
      e.name ++ ": " ++ ("0x" ++ Numeral.hexDigits e.tag.toInt.toNat) := rfl
  rw [Notice.text, hwords, failureLine, hsplit, String.append_assoc, String.append_assoc,
    String.append_assoc]
  rfl

theorem attempt_logged (t : Table) {c : Call} (hc : cleans c = true) (hs : sign c.entry = .answer)
    (reply : Reply) : Logged (attempt t c reply) := by
  unfold attempt
  cases hr : reply.accepted with
  | true =>
    refine .quiet ?_ .nil
    simp [Quiet, refused, hs, hr]
  | false =>
    refine .failed hc ?_ rfl (cleanupFailed_text c.entry) .nil
    simp [refused, hs, hr]

theorem farewell_logged (t : Table) (display : Handle) (first second : Reply) :
    Logged (farewell t display first second) := by
  have hunbound := attempt_logged t (c := .makeCurrent display 0 0 0) rfl rfl first
  have hgone := attempt_logged t (c := .terminate display) rfl rfl second
  have hlast : Logged (.notice (.terminating display) :: attempt t (.terminate display) second) :=
    .quiet (by simp [Quiet, Notice.level]) hgone
  have hfirst : Logged (.notice .unbinding :: attempt t (.makeCurrent display 0 0 0) first) :=
    .quiet (by simp [Quiet, Notice.level]) hunbound
  exact hfirst.append hlast

theorem display_cleaned (d : Display) (h : Recording w) : Cleaned w (d.release w) := by
  by_cases hd : d.handle = 0
  · have hw : d.release w = w := if_pos hd
    rw [hw]
    exact .refl h
  · exact ⟨h.of_table (display_table d w), _, release_farewell h hd, farewell_logged _ _ _ _⟩

theorem resource_cleaned {kind : ResourceKind} (r : Resource kind) (h : Recording w) :
    Cleaned w (r.release w) := by
  by_cases hz : r.handle = 0
  · have hw : r.release w = w := if_pos hz
    rw [hw]
    exact .refl h
  · obtain ⟨reply, hj⟩ := release_destroy h hz
    refine ⟨h.of_table (resource_table r w), _, hj, ?_⟩
    have hs : sign (kind.destroy r.display r.handle).call.entry = .answer := by cases kind <;> rfl
    cases hr : reply.accepted with
    | true =>
      refine .quiet ?_ (.quiet ?_ .nil)
      · simp [Quiet, refused, hs, hr]
      · simp [Quiet, Notice.level]
    | false =>
      have he : Notice.destroyer kind = (kind.destroy r.display r.handle).call.entry := by
        cases kind <;> rfl
      refine .failed ?_ ?_ ?_ ?_ .nil
      · cases kind <;> rfl
      · simp [refused, hs, hr]
      · simp [Notice.level]
      · simp [he, cleanupFailed_text]

theorem release_cleaned (owner : Owned k) (h : Recording w) :
    Cleaned w (Owner.release owner w) := by
  cases k
  · exact display_cleaned owner h
  · exact resource_cleaned owner h
  · exact resource_cleaned owner h

theorem releases_cleaned (owners : List (Owned k)) (h : Recording w) :
    Cleaned w (releases owners w) := by
  induction owners generalizing w with
  | nil => exact .refl h
  | cons owner rest ih =>
    have hfirst := release_cleaned owner h
    exact hfirst.trans (ih hfirst.recording)

/-- The failed calls of a moment are told, and calls are still recorded after it. -/
structure Answered (m : Moment) : Prop where
  told : Told m.step m.record
  recording : Recording m.after.world

theorem verdict_answer (h : mishap st = none) (answer : Answer) :
    verdict st (.ok answer) = none := by
  cases answer <;> simp [verdict, h]

section Moment

variable {keep : String} {answer : Answer} {after : Session}
  {result : EStateM.Result Fault Session Answer}

theorem Ends.answered (h : Ends s.world (problem result) (final result).world)
    (hr : Recording s.world) (hj : s.world.journal = []) (hv : mishap st = none) :
    Answered (ending s st result) := by
  have hrecording := h.recording hr
  cases result with
  | ok answer after =>
    refine ⟨?_, hrecording⟩
    change Told st ⟨.ok answer, after.world.journal⟩
    have hdone : Ends s.world none after.world := h
    cases hdone with
    | done hg =>
      have htold := Told.completed (hg.of_empty hj) .nil (fun _ => rfl) (verdict_answer hv answer)
      rwa [List.append_nil] at htold
  | error fault after =>
    refine ⟨?_, hrecording⟩
    change Told st ⟨.error fault, after.world.journal⟩
    have hfault : Ends s.world (some fault) after.world := h
    cases hfault with
    | refused hg _ hlast hc =>
      rw [hlast]
      exact .failed (hg.of_empty hj) hc
    | stopped hg hf => exact .stopped (hg.of_empty hj) hf

/-- Cleanups at the end of a step do not change its answer. -/
theorem Cleaned.answered (hc : Cleaned mid after.world) (hg : Grew Quiet s.world mid)
    (hj : s.world.journal = []) (hm : manner st ≠ .uses) (hv : mishap st = none) :
    Answered (ending s st (.ok answer after)) := by
  obtain ⟨events, he, hl⟩ := hc.journal
  refine ⟨?_, hc.recording⟩
  change Told st ⟨.ok answer, after.world.journal⟩
  rw [he]
  exact .completed (hg.of_empty hj) hl (fun hu => absurd hu hm) (verdict_answer hv answer)

theorem managed_answered {step : OwnerStep} (h : Managed k s step result)
    (hr : Recording s.world) (hj : s.world.journal = []) :
    Answered (ending s (.owner k step) result) := by
  have hm : manner (.owner k step) ≠ .uses := nofun
  have hreleased : ∀ (slots : Slots (Owned k)) (w : World), Cleaned s.world w →
      Cleaned s.world ((shelf k).put s slots w).world := by
    intro slots w hw
    rwa [shelf_put_world]
  cases h with
  | missing => exact Ends.answered (.stopped (.refl _ _) rfl) hr hj rfl
  | asked _ => exact Ends.answered (.done (.refl _ _)) hr hj rfl
  | forgotten _ => exact (hreleased _ _ (.refl hr)).answered (.refl _ _) hj hm rfl
  | @moved source owner target _ =>
    refine (hreleased _ _ ?_).answered (.refl _ _) hj hm rfl
    by_cases hst : source = target
    · rw [Slots.move, if_pos hst]
      exact .refl hr
    · rw [move_world hst]
      exact releases_cleaned _ hr
  | @dropped name owner _ =>
    exact (hreleased _ _ (release_cleaned owner hr)).answered (.refl _ _) hj hm rfl

theorem receive_answered {op : Op (Owned k)} (ha : CandidOp op) (hr : Recording s.world)
    (hj : s.world.journal = []) (hm : manner st = .produces k keep) (hv : mishap st = none) :
    Answered (ending s st ((shelf k).receive op keep s)) := by
  have hends := ha s.world hr
  cases ho : op s.world with
  | ok new w =>
    rw [ho] at hends
    rw [receive_ok keep ho]
    have hdone : Ends s.world none w := hends
    cases hdone with
    | done hg =>
      have hgone := releases_cleaned (occupant ((shelf k).slots s) keep) (hg.recording hr)
      rw [← shelf_put_world k s (((shelf k).slots s).set keep new) (releases _ w)] at hgone
      refine hgone.answered hg hj ?_ hv
      rw [hm]
      nofun
  | error f w =>
    rw [ho] at hends
    rw [receive_error keep ho]
    exact Ends.answered hends hr hj hv

theorem config_stops {c : ConfigOperand} {fault : Fault} (h : Act.config c s = .error fault after) :
    raised fault = none := by
  cases c with
  | direct config => cases h
  | listed list index =>
    simp only [Act.config] at h
    rcases resolve_eq Session.lists list s with ⟨configs, -, hres⟩ | ⟨-, hres⟩
    · rw [bind_ok hres] at h
      cases hi : configs[index]? with
      | some config =>
        rw [hi] at h
        cases h
      | none =>
        rw [hi] at h
        cases h
        rfl
    · rw [bind_error hres] at h
      cases h
      rfl

theorem on_display_answered (op : Display → ConfigRef → Op (Owned k)) (display : String)
    (config : ConfigOperand) (ha : ∀ d c, CandidOp (op d c)) (hr : Recording s.world)
    (hj : s.world.journal = []) (hm : manner st = .produces k keep) (hv : mishap st = none) :
    Answered (ending s st ((do
      let d ← Act.resolve Session.displays display
      let c ← Act.config config
      (shelf k).receive (op d c) keep) s)) := by
  rcases resolve_eq Session.displays display s with ⟨d, -, hres⟩ | ⟨-, hres⟩
  · rw [bind_ok hres]
    rcases config_eq config s with ⟨c, hconf⟩ | ⟨fault, hconf⟩
    · rw [bind_ok hconf]
      exact receive_answered (ha d c) hr hj hm hv
    · rw [bind_error hconf]
      exact Ends.answered (.stopped (.refl _ _) (config_stops hconf)) hr hj hv
  · rw [bind_error hres]
    exact Ends.answered (.stopped (.refl _ _) rfl) hr hj hv

theorem produced_answered (hm : manner st = .produces k keep) (hr : Recording s.world)
    (hj : s.world.journal = []) : Answered (ending s st (st.act s)) := by
  have hproduces := hm
  cases st <;> cases hm
  case connect id => exact receive_answered (k := .display) (connect_candid id) hr hj hproduces rfl
  case createContext display config version =>
    exact on_display_answered (k := .context) (fun d c => d.createContext c version) display config
      (fun d c => create_candid .context d.handle (reads_handle rfl)) hr hj hproduces rfl
  case createWindowSurface display config window =>
    exact on_display_answered (k := .surface) (fun d c => d.createWindowSurface c window) display
      config (fun d c => create_candid .surface d.handle (reads_handle rfl)) hr hj hproduces rfl
  case createPixmapSurface display config pixmap =>
    exact on_display_answered (k := .surface) (fun d c => d.createPixmapSurface c pixmap) display
      config (fun d c => create_candid .surface d.handle (reads_handle rfl)) hr hj hproduces rfl
  case createPbufferSurface display config attributes =>
    exact on_display_answered (k := .surface) (fun d c => d.createPbufferSurface c attributes)
      display config (fun d c => create_candid .surface d.handle (reads_handle rfl)) hr hj
      hproduces rfl

end Moment

theorem ask_candid (slots : Session → Slots α) (name : String) (f : α → Answer) :
    CandidAct (do
      let a ← Act.resolve slots name
      return f a) := (resolve_candid slots name).bind fun _ => .pure _

/-- An operation on what is in a slot, whose value is the answer. -/
theorem read_candid {β : Type} {slots : Session → Slots α} {op : α → Op β} (name : String)
    (f : β → Answer) (h : ∀ a, CandidOp (op a)) : CandidAct (do
      let a ← Act.resolve slots name
      f <$> Act.run (op a)) := (resolve_candid slots name).bind fun a => (run_candid (h a)).map f

/-- An operation on what is in a slot, which answers nothing. -/
theorem do_candid {slots : Session → Slots α} {op : α → Op Unit} (name : String)
    (h : ∀ a, CandidOp (op a)) : CandidAct (do
      let a ← Act.resolve slots name
      Act.run (op a)
      return Answer.done) :=
  (resolve_candid slots name).bind fun a => (run_candid (h a)).bind fun _ => .pure _

/-- Configs that are listed, kept and answered. -/
theorem list_candid {slots : Session → Slots α} {op : α → Op (List ConfigRef)} (name : String)
    (keep : Option String) (h : ∀ a, CandidOp (op a)) : CandidAct (do
      let a ← Act.resolve slots name
      let configs ← Act.run (op a)
      Act.keepList keep configs
      return Answer.configs configs) :=
  (resolve_candid slots name).bind fun a => (run_candid (h a)).bind fun configs =>
    (keepList_candid keep configs).bind fun _ => .pure _

/-- A step that only uses owners ends with its first failed call, unless it puts a config into
words. -/
theorem uses_candid (hm : manner st = .uses) (hd : direct st = none) (hr : KeepsRecording st)
    (hv : mishap st = none) : CandidAct st.act := by
  cases st with
  | owner | connect | createContext | createWindowSurface | createPixmapSurface
  | createPbufferSurface => cases hm
  | typed => cases hd
  | describeConfig | formatConfig => cases hv
  | start display => exact do_candid display fun d => require_candid (reads_status rfl)
  | startVersion display =>
    exact (resolve_candid _ _).bind fun d =>
      (run_candid (startVersion_candid d)).bind fun (major, minor) => .pure _
  | displayText display text => exact read_candid display _ fun d => require_candid (reads_text rfl)
  | listConfigs display keep => exact list_candid display keep configs_candid
  | filterOf display keep =>
    exact (resolve_candid _ _).bind fun d => (keepFilter_candid keep d.filter).bind fun _ => .pure _
  | makeCurrent display draw read context =>
    exact (resolve_candid _ _).bind fun d => (resolve_candid _ _).bind fun drawn =>
      (resolve_candid _ _).bind fun read => (resolve_candid _ _).bind fun c =>
        (run_candid (makeCurrent_candid d drawn read c)).bind fun _ => .pure _
  | makeNotCurrent display => exact do_candid display fun d => require_candid (reads_status rfl)
  | swapBuffers display surface =>
    exact (resolve_candid _ _).bind fun d =>
      do_candid surface fun drawn => require_candid (reads_status rfl)
  | swapInterval display interval =>
    exact do_candid display fun d => require_candid (reads_status rfl)
  | procAddress display name => exact read_candid display _ fun _ => procAddress_candid name
  | contextDisplay context => exact ask_candid _ _ _
  | queryContext context attr =>
    exact read_candid context _ fun c => require_candid (reads_value rfl)
  | surfaceDisplay surface => exact ask_candid _ _ _
  | surfaceWidth surface => exact read_candid surface _ fun _ => require_candid (reads_value rfl)
  | surfaceHeight surface => exact read_candid surface _ fun _ => require_candid (reads_value rfl)
  | querySurface surface attr =>
    exact read_candid surface _ fun _ => require_candid (reads_value rfl)
  | setSurfaceAttribute surface attr value =>
    exact do_candid surface fun _ => require_candid (reads_status rfl)
  | reference config => exact (config_candid config).map _
  | sameConfig config other =>
    exact (config_candid config).bind fun c => (config_candid other).bind fun d => .pure _
  | configAttribute config attr =>
    exact (config_candid config).bind fun c => (run_candid (require_candid (reads_value rfl))).map _
  | configProperty config property =>
    exact (config_candid config).bind fun c => (run_candid (query_candid c property)).map _
  | configProperties config =>
    exact (config_candid config).bind fun c => (run_candid (queryAll_candid c)).map _
  | filterFor display keep => exact (keepFilter_candid keep _).bind fun _ => .pure _
  | copyFilter filter keep =>
    exact (resolve_candid _ _).bind fun f => (keepFilter_candid keep f).bind fun _ => .pure _
  | want filter settings =>
    exact (resolve_candid _ _).bind fun f =>
      (keepFilter_candid filter (f.wantAll settings)).bind fun _ => .pure _
  | filterValue filter criterion => exact ask_candid _ _ _
  | filterValues filter => exact ask_candid _ _ _
  | filterAttributes filter => exact ask_candid _ _ _
  | chooseConfigs filter keep => exact list_candid filter keep chooseConfigs_candid
  | clientExtensions => exact (run_candid (require_candid (reads_text rfl))).map _
  | clientVersion => exact (run_candid (require_candid (reads_text rfl))).map _
  | bindApi api => exact (run_candid (require_candid (reads_status rfl))).bind fun _ => .pure _
  | queryApi => exact (run_candid queryApi_candid).map _
  | releaseThread => exact (run_candid (require_candid (reads_status rfl))).bind fun _ => .pure _
  | installedTable => exact fun _ _ => .done (.refl _ _)
  | install table =>
    -- What is installed changes, but calls stay recorded.
    intro s _
    exact .done ⟨fun _ => hr table rfl, [], (List.append_nil _).symm, by simp⟩
  | configure change =>
    intro s _
    exact .done ⟨id, [], (List.append_nil _).symm, by simp⟩
  | backend => exact fun _ _ => .done (.refl _ _)

/-- A step that puts a config into words answers them in its own wording, whatever they are
about. -/
theorem words_answered (wording : String → String) (config : ConfigOperand)
    (hw : ∀ text, wording text = wording (errorText .getConfigAttrib) →
      text = errorText .getConfigAttrib)
    (hv : mishap st = some (wording (errorText .getConfigAttrib))) (hr : Recording s.world)
    (hj : s.world.journal = []) :
    Answered (ending s st ((do
      let c ← Act.config config
      let text ← Act.run c.describe
      return Answer.text (wording text)) s)) := by
  rcases config_eq config s with ⟨c, hconf⟩ | ⟨fault, hconf⟩
  · rw [bind_ok hconf]
    have hdescribed := describe_described c hr
    cases hd : c.describe s.world with
    | ok text w =>
      rw [hd] at hdescribed
      have hrun : Act.run c.describe s = .ok text { s with world := w } := by
        simp only [Act.run, hd]
      rw [bind_ok hrun]
      cases hdescribed with
      | config hg hne =>
        have hnone : verdict st (.ok (.text (wording text))) = none := by
          rw [verdict, hv, if_neg]
          intro h
          exact hne (hw text (Option.some.inj h).symm)
        refine ⟨?_, hg.recording hr⟩
        have htold := Told.completed (hg.of_empty hj) .nil (fun _ => rfl) hnone
        rwa [List.append_nil] at htold
      | error hg hrecording hlast he hc =>
        refine ⟨?_, hrecording⟩
        change Told st ⟨.ok (.text _), w.journal⟩
        rw [hlast]
        exact .described (hg.of_empty hj) he hc hv
    | error f w =>
      rw [hd] at hdescribed
      cases hdescribed
  · rw [bind_error hconf]
    refine ⟨?_, hr⟩
    change Told st ⟨.error fault, s.world.journal⟩
    rw [hj]
    exact .stopped (by simp) (config_stops hconf)

theorem uses_answered (hm : manner st = .uses) (hd : direct st = none) (hk : KeepsRecording st)
    (hr : Recording s.world) (hj : s.world.journal = []) :
    Answered (ending s st (st.act s)) := by
  by_cases hv : mishap st = none
  · have hends := uses_candid hm hd hk hv s hr
    rw [Option.map_id] at hends
    exact Ends.answered hends hr hj hv
  · cases st
    case describeConfig config => exact words_answered id config (fun _ h => h) rfl hr hj
    case formatConfig config =>
      refine words_answered (fun text => "<" ++ text ++ ">") config ?_ rfl hr hj
      intro text h
      exact (String.append_right_inj _).mp ((String.append_left_inj _).mp h)
    all_goals exact absurd rfl hv

/-- Every step that works on owners tells of its failed calls. -/
theorem step_answered (s : Session) (hr : Recording s.world) (hk : KeepsRecording st)
    (hd : direct st = none) : Answered (moment s st) := by
  rw [moment_ending]
  have hfresh : Recording s.fresh.world := hr
  cases hm : manner st with
  | manages k step =>
    obtain rfl := owner_of_manner hm
    exact managed_answered (managed k step s.fresh) hfresh rfl
  | produces k keep => exact produced_answered hm hfresh rfl
  | uses => exact uses_answered hm hd hk hfresh rfl

theorem history_answered {steps : List Step} (hr : Recording s.world)
    (hk : ∀ st ∈ steps, KeepsRecording st) (hd : ∀ st ∈ steps, direct st = none) :
    (∀ m ∈ history s steps, Told m.step m.record) ∧ Recording (s.run steps).2.world := by
  induction steps generalizing s with
  | nil => exact ⟨by simp [history], hr⟩
  | cons st rest ih =>
    obtain ⟨hkst, hkrest⟩ := List.forall_mem_cons.mp hk
    obtain ⟨hdst, hdrest⟩ := List.forall_mem_cons.mp hd
    have hfirst := step_answered s hr hkst hdst
    have hrest := ih hfirst.recording hkrest hdrest
    refine ⟨?_, hrest.2⟩
    intro m hm
    rcases List.mem_cons.mp hm with rfl | hm
    · exact hfirst.told
    · exact hrest.1 m hm

/-- The release of everything at the end is nothing but cleanups. -/
theorem finish_cleaned (h : Recording s.world) : Cleaned s.fresh.world s.finish := by
  have hsurfaces := releases_cleaned (k := .surface) s.surfaces.values (w := s.fresh.world) h
  have hcontexts := releases_cleaned (k := .context) s.contexts.values hsurfaces.recording
  have hdisplays := releases_cleaned (k := .display) s.displays.values hcontexts.recording
  exact (hsurfaces.trans hcontexts).trans hdisplays

/-- How a session tells of failed calls, from its first step to its end. -/
structure FailuresTold (s : Session) (steps : List Step) : Prop where
  /-- The moments are those that the run records. -/
  recorded : (history s steps).map Moment.record = (s.run steps).1
  told : ∀ m ∈ history s steps, Told m.step m.record
  /-- The failed calls of a step and its reports are matched one by one, in order. -/
  matched : ∀ m ∈ history s steps,
    List.Forall₂ Fits (failedCalls m.record.events) (reports m.step m.record)
  /-- At the end, a failed call leaves its line in the log and keeps no other cleanup from being
  made. -/
  last : Logged (s.complete steps).2.journal
  last_matched : List.Forall₂ Fits (failedCalls (s.complete steps).2.journal)
    (errorLines (s.complete steps).2.journal)

/-- No failed call of a session that works on owners is lost, whatever the implementation answers:
each is told of once by a fault, a text or a line in the log; and every such fault, text and line
tells of a call that failed. -/
theorem failures_told (b : Backend) (script : Script) (library : Library) (steps : List Step)
    (hk : ∀ st ∈ steps, KeepsRecording st) (hd : ∀ st ∈ steps, direct st = none) :
    FailuresTold (opening b script library) steps := by
  have hstart : Recording (opening b script library).world :=
    (opening_sound .display b script library).recording
  obtain ⟨htold, hrecording⟩ := history_answered hstart hk hd
  obtain ⟨events, he, hl⟩ := (finish_cleaned hrecording).journal
  have hlast : Logged ((opening b script library).complete steps).2.journal := by
    change Logged ((opening b script library).run steps).2.finish.journal
    rw [he]
    exact hl
  exact ⟨history_records _ steps, htold, fun m hm => (htold m hm).matched, hlast, hlast.matched⟩

/-- A context cannot be destroyed, once to make room and once at the end; a config cannot be asked;
and a display cannot be initialized. -/
def mishaps : List Step :=
  [.connect "display" 0, .createContext "display" (.direct ⟨208, 1⟩) "context" none,
    .configure { failures := some [.destroyContext, .getConfigAttrib, .initializeDisplay] },
    .createContext "display" (.direct ⟨208, 1⟩) "context" none, .formatConfig (.direct ⟨208, 1⟩),
    .start "display"]

theorem failures_told_mishaps :
    (∀ st ∈ mishaps, KeepsRecording st) ∧ (∀ st ∈ mishaps, direct st = none) ∧
      FailuresTold (opening { configs := [.make 1 8 8 8 8 24 8] } {} {}) mishaps :=
  ⟨by decide, by decide, failures_told _ _ _ mishaps (by decide) (by decide)⟩

example : (history (opening { configs := [.make 1 8 8 8 8 24 8] } {} {}) mishaps).map
    (fun m => reports m.step m.record) =
      [[], [], [], [.line (failureLine .destroyContext)],
        [.described ("<" ++ errorText .getConfigAttrib ++ ">")],
        [.raised (.ofEntry .initializeDisplay)]] := by decide

end Egl.Proofs
