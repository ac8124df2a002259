import Egl.Proofs.Custody
import Egl.Proofs.Likeness
import Egl.Proofs.Portraits

namespace Egl.Proofs

open Backend (displayHandle configHandle)

variable {α β : Type} {b : Backend} {w after : World} {config : Backend.Attributes} {op : Op α}
  {a : α} {lines others : List Notice}

/-- What two states of an implementation say about it. -/
structure SameIdentity (b other : Backend) : Prop where
  hasDisplay : other.hasDisplay = b.hasDisplay
  major : other.major = b.major
  minor : other.minor = b.minor
  strings : other.strings = b.strings

theorem respond_identity (b : Backend) (c : Call) : SameIdentity b (b.respond c).2 := by
  cases c
  all_goals
    simp only [Backend.respond]
    repeat' split
    all_goals exact ⟨rfl, rfl, rfl, rfl⟩

/-- An implementation that serves, and still has the table and says the same as at first. -/
structure Hosts (b : Backend) (w : World) : Prop where
  serves : Serves b.configs w
  identity : SameIdentity b w.backend

theorem Hosts.note (h : Hosts b w) (n : Notice) : Hosts b (w.note n) :=
  ⟨h.serves.note n, h.identity⟩

theorem Hosts.exchange (h : Hosts b w) {c : Call} {reply : Reply} (hc : c.entry.canFail = true)
    (hw : w.exchange c = (reply, after)) :
    reply = ((reach w.backend c.entry).respond c).1 ∧ Hosts b after := by
  obtain ⟨hreply, hafter⟩ := h.serves.exchange hc hw
  refine ⟨hreply, hafter, ?_⟩
  obtain ⟨-, hbackend, -⟩ := exchange_unhindered (h.serves.unhindered c.entry) hc
  simp only [hw] at hbackend
  have hsame := respond_identity (reach w.backend c.entry) c
  rw [hbackend]
  exact ⟨hsame.hasDisplay.trans h.identity.hasDisplay, hsame.major.trans h.identity.major,
    hsame.minor.trans h.identity.minor, hsame.strings.trans h.identity.strings⟩

theorem Hosts.went (h : Hosts b w) (hw : Went (Within fun c => c.entry.canFail = true) w after) :
    Hosts b after :=
  hw.keeps (fun _ _ hc hmid => (hmid.exchange hc rfl).2) (fun _ n hmid => hmid.note n) h

/-- On an implementation that serves, an operation comes to a value and leaves exactly some lines in
the log. -/
def Prints (b : Backend) (op : Op α) (a : α) (lines : List Notice) : Prop :=
  ∀ w, Hosts b w → ∃ after, op w = .ok a after ∧ Hosts b after ∧ after.log = w.log ++ lines

theorem Prints.pure (a : α) : Prints b (pure a) a [] :=
  fun w hw => ⟨w, rfl, hw, (List.append_nil _).symm⟩

theorem Prints.note (n : Notice) : Prints b (Op.note n) () [n] :=
  fun w hw => ⟨w.note n, rfl, hw.note n, note_log w n⟩

theorem Prints.bind {next : α → Op β} {result : β} (h : Prints b op a lines)
    (hn : Prints b (next a) result others) : Prints b (op >>= next) result (lines ++ others) := by
  intro w hw
  obtain ⟨mid, hop, hmid, hlog⟩ := h w hw
  obtain ⟨after, hnext, hafter, hlog'⟩ := hn mid hmid
  exact ⟨after, (bind_ok hop next).trans hnext, hafter, by rw [hlog', hlog, List.append_assoc]⟩

theorem Prints.quiet {next : α → Op β} {result : β} (h : Prints b op a [])
    (hn : Prints b (next a) result lines) : Prints b (op >>= next) result lines := h.bind hn

theorem Prints.line {n : Notice} {next : α → Op β} {result : β} (h : Prints b op a [n])
    (hn : Prints b (next a) result lines) : Prints b (op >>= next) result (n :: lines) := h.bind hn

theorem Prints.returning (h : Prints b op a lines) (result : β) :
    Prints b (do let _ ← op; return result) result lines := by
  have hrun : Prints b (do let _ ← op; return result) result (lines ++ []) := h.bind (.pure result)
  rwa [List.append_nil] at hrun

theorem Prints.either {c : Prop} [Decidable c] {other : Op α} (h : c → Prints b op a lines)
    (h' : ¬ c → Prints b other a lines) : Prints b (if c then op else other) a lines := by
  split
  · next hc => exact h hc
  · next hc => exact h' hc

/-- A call that the implementation serves leaves no line. -/
theorem Prints.require {what : String} {q : Request (Outcome α)} (hc : q.call.entry.canFail = true)
    (hr : ∀ w, Hosts b w →
      q.read ((reach w.backend q.call.entry).respond q.call).1 = .ok a) :
    Prints b (Op.require what q) a [] := by
  intro w hw
  rcases hx : w.exchange q.call with ⟨reply, after⟩
  obtain ⟨rfl, hafter⟩ := hw.exchange hc hx
  exact ⟨after, require_ok hx (hr w hw), hafter, by rw [exchange_log hx, List.append_nil]⟩

/-- The display of the implementation. -/
abbrev host : Display := ⟨displayHandle⟩

theorem connect_prints (h : b.hasDisplay = true) :
    Prints b (Display.connect Display.defaultId) host [.connected displayHandle] := by
  have hget : Prints b (Op.require "eglGetDisplay" (.getDisplay Display.defaultId))
      displayHandle [] := by
    apply Prints.require rfl
    intro w hw
    have hdisplay : w.backend.hasDisplay = true := hw.identity.hasDisplay.trans h
    simp only [Request.getDisplay, Request.handle, Backend.respond, Call.entry, reach, hdisplay]
    rfl
  exact hget.bind ((Prints.note _).bind (.pure _))

theorem startVersion_prints (b : Backend) :
    Prints b host.startVersion (b.major, b.minor)
      [.versionKnown displayHandle b.major b.minor] := by
  have hstart : Prints b (Op.require "eglInitialize" (.initializeVersion displayHandle))
      (b.major, b.minor) [] := by
    apply Prints.require rfl
    intro w hw
    rw [← hw.identity.major, ← hw.identity.minor]
    rfl
  exact hstart.bind ((Prints.note _).bind (.pure _))

/-- The text of a display about itself, if there is one. -/
def spoken (b : Backend) (t : DisplayText) : Option String :=
  (b.strings.get? t.code).bind fun bytes => bytes.upToZero.toString?

theorem text_prints {t : DisplayText} {text : String} (h : spoken b t = some text) :
    Prints b (host.text t) text [] := by
  apply Prints.require rfl
  intro w hw
  obtain ⟨bytes, hbytes, htext⟩ := Option.bind_eq_some_iff.mp h
  have hreply : ((reach w.backend .queryString).respond (.queryString displayHandle t.code)).1 =
      { text := some bytes } := by
    rw [← hw.identity.strings] at hbytes
    simp only [Backend.respond, reach, hbytes]
    rfl
  change (Request.text _).read _ = _
  simp only [Request.queryString, Request.text, Call.entry, hreply, htext]

/-- A config at a place of the table. -/
def ref (i : Nat) : ConfigRef := ⟨displayHandle, configHandle i⟩

/-- An enumeration that yields what it counted goes by without a line. -/
theorem Hosts.enumerated (h : Hosts b w) {list : Op (List ConfigRef)} {e : EntryPoint}
    {display : Handle} {ask : Option Int32 → Call} {refs : List ConfigRef} {first : Reply}
    {counted : World} (htwo : TwoPass list display e ask)
    (hc : Confined (fun c => c.entry.canFail = true) list)
    (hx : w.exchange (ask none) = (first, counted)) (hfirst : first = .value (.ofNat refs.length))
    (hn : refs.length < 2147483648) (hrun : list w = .ok refs after) :
    Hosts b after ∧ after.log = w.log := by
  have hw := hc w
  rw [hrun] at hw
  exact ⟨h.went hw, htwo.silent hx hrun (by rw [hfirst]; rfl) hn⟩

theorem configs_prints (hn : b.configs.length < 2147483648) :
    Prints b host.configs ((located b fun _ => true).map ref) [] := by
  intro w hw
  rw [located_all]
  obtain ⟨after, hrun, -⟩ := hw.serves.configs_eq hn
  rcases hx : w.exchange (.getConfigs displayHandle none) with ⟨first, counted⟩
  obtain ⟨⟨counting, -, htable, hfirst⟩, -⟩ := hw.serves.exchange_getConfigs hx
  have hlength : ((List.range b.configs.length).map ref).length = b.configs.length := by
    rw [List.length_map, List.length_range]
  have hcounted : first = .value (.ofNat ((List.range b.configs.length).map ref).length) := by
    rw [hfirst, hlength, ← htable]
    rfl
  obtain ⟨hafter, hlog⟩ := hw.enumerated (configs_two_pass host) (configs_confined fun _ => rfl)
    hx hcounted (by rw [hlength]; exact hn) hrun
  exact ⟨after, hrun, hafter, by rw [hlog, List.append_nil]⟩

theorem chooseConfigs_prints (hn : b.configs.length < 2147483648) (settings : List Setting) :
    Prints b (host.filter.wantAll settings).chooseConfigs
      ((places b (host.filter.wantAll settings)).map ref) [] := by
  intro w hw
  let f := host.filter.wantAll settings
  have hd : f.display = displayHandle := wantAll_display host.filter settings
  obtain ⟨after, hrun⟩ := hw.serves.choose_eq hn settings
  have hplaces : places w.backend f = places b f := by simp only [places, hw.serves.table]
  have hrun' : f.chooseConfigs w = .ok ((places b f).map ref) after := by
    rw [← hplaces]
    exact hrun
  rcases hx : w.exchange (.chooseConfig f.display (some f.attributes) none) with ⟨first, counted⟩
  obtain ⟨hfirst, -⟩ := exchange_choose (hw.serves.unhindered _) hd hx
  have hcounted : first = .value (.ofNat ((places b f).map ref).length) := by
    rw [hfirst, chosen_none, hplaces, List.length_map]
  have hlength : ((places b f).map ref).length < 2147483648 := by
    rw [List.length_map]
    exact Nat.lt_of_le_of_lt (places_length_le b f) hn
  obtain ⟨hafter, hlog⟩ := hw.enumerated (chooseConfigs_two_pass f)
    (chooseConfigs_confined fun _ => rfl) hx hcounted hlength hrun'
  exact ⟨after, hrun', hafter, by rw [hlog, List.append_nil]⟩

theorem describe_prints {i : Nat} (hi : b.configs[i]? = some config) :
    Prints b (ref i).describe (portrait config) [] := by
  intro w hw
  have hasked := hw.serves.unhindered .getConfigAttrib
  have hconsulted : Consulted w := ⟨hasked.recording, hasked.unscripted⟩
  have hshown : shown w.backend (ref i) = some config := by
    have hconfig : w.backend.config? (configHandle i) = some config := by
      rw [← hw.serves.table] at hi
      exact hi
    rw [shown, if_pos ⟨rfl, hasked.working⟩]
    exact hconfig
  obtain ⟨after, hrun, hlog⟩ := hconsulted.describe_ok hshown
  have hwent := describe_confined (P := fun c => c.entry.canFail = true) (c := ref i)
    (fun _ => rfl) w
  rw [hrun] at hwent
  exact ⟨after, hrun, hw.went hwent, by rw [hlog, List.append_nil]⟩

/-- A cleanup call that the implementation serves leaves no line. -/
theorem Hosts.cleanup (h : Hosts b w) {c : Call} (hc : c.entry.canFail = true)
    (hr : ((reach w.backend c.entry).respond c).1.accepted = true) :
    Hosts b (Display.cleanup (.status c) w) ∧
      (Display.cleanup (.status c) w).log = w.log := by
  rcases hx : w.exchange c with ⟨reply, after⟩
  obtain ⟨rfl, hafter⟩ := h.exchange hc hx
  have hperform : w.perform (.status c) = (.ok (), after) := by
    simp only [World.perform, Request.status, hx, hr, if_true]
  rw [Display.cleanup, hperform]
  exact ⟨hafter, exchange_log hx⟩

theorem Hosts.release (h : Hosts b w) :
    (host.release w).log = w.log ++ [.unbinding, .terminating displayHandle] := by
  have hne : host.handle ≠ 0 := by decide
  obtain ⟨hunbound, hlog⟩ :=
    (h.note .unbinding).cleanup (c := .makeCurrent displayHandle 0 0 0) rfl rfl
  obtain ⟨-, hlog'⟩ := (hunbound.note (.terminating displayHandle)).cleanup
    (c := .terminate displayHandle) rfl rfl
  rw [release_unbound hne]
  refine hlog'.trans ?_
  rw [note_log, hlog, note_log, List.append_assoc]
  rfl

end Egl.Proofs
