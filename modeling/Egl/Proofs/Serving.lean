import Egl.Proofs.Ordinary
import Egl.Proofs.TwoPass
import Egl.Proofs.Unhindered

namespace Egl.Proofs

open Backend (Attributes displayHandle configHandle)

variable {configs : List Attributes} {config : Attributes} {w after : World} {i : Nat}

/-- Every call reaches the in-memory implementation and is not switched to fail. The implementation
has a given table of configs, and writes as many of them as there is room for. -/
structure Serves (configs : List Attributes) (w : World) : Prop where
  unhindered : ∀ e, Unhindered e w
  unlimited : w.backend.fillLimit = none
  table : w.backend.configs = configs

/-- Two states of an implementation with the same table and the same switches. -/
structure SameSettings (b other : Backend) : Prop where
  configs : other.configs = b.configs
  failures : other.failures = b.failures
  fillLimit : other.fillLimit = b.fillLimit

/-- No call changes the table or a switch. -/
theorem respond_settings (b : Backend) (c : Call) : SameSettings b (b.respond c).2 := by
  cases c
  all_goals
    simp only [Backend.respond]
    repeat' split
    all_goals exact ⟨rfl, rfl, rfl⟩

/-- A call uses up an item of its own entry point and adds none. -/
theorem next_pending (s : Script) (e other : EntryPoint) {item : Option Reply}
    (h : item ∈ (s.next e).2.pending other) : item ∈ s.pending other := by
  unfold Script.next at h
  cases hp : s.pending e with
  | nil =>
    rw [hp] at h
    exact h
  | cons first rest =>
    simp only [hp] at h
    split at h
    · rename_i he
      rw [he, hp]
      exact List.mem_cons_of_mem _ h
    · exact h

/-- A call to an implementation that serves gets the answer of the implementation, and the next one
is served as well. -/
theorem Serves.exchange (h : Serves configs w) {c : Call} {reply : Reply}
    (hc : c.entry.canFail = true) (hw : w.exchange c = (reply, after)) :
    reply = ((reach w.backend c.entry).respond c).1 ∧ Serves configs after := by
  have hown := h.unhindered c.entry
  obtain ⟨hreply, hbackend, -⟩ := exchange_unhindered hown hc
  obtain ⟨-, -, hscript⟩ :=
    exchange_unscripted hown.recording (next_unscripted hown.unscripted).1
  simp only [hw] at hreply hbackend hscript
  have hsame := respond_settings (reach w.backend c.entry) c
  refine ⟨hreply, ?_, ?_, ?_⟩
  · intro e
    refine ⟨exchange_recording hown.recording hw, ?_, ?_⟩
    · intro item hi
      rw [hscript] at hi
      exact (h.unhindered e).unscripted item (next_pending _ _ _ hi)
    · rw [hbackend, hsame.failures]
      exact (h.unhindered e).working
  · rw [hbackend, hsame.fillLimit]
    exact h.unlimited
  · rw [hbackend, hsame.configs]
    exact h.table

theorem Serves.note (h : Serves configs w) (n : Notice) : Serves configs (w.note n) where
  unhindered e :=
    ⟨(h.unhindered e).recording, (h.unhindered e).unscripted, (h.unhindered e).working⟩
  unlimited := h.unlimited
  table := h.table

/-- Whatever an operation does but ask for the state of the thread, the implementation serves on. -/
theorem Serves.went (h : Serves configs w)
    (hw : Went (Within fun c => c.entry.canFail = true) w after) : Serves configs after :=
  hw.keeps (fun _ _ hc hmid => (hmid.exchange hc rfl).2) (fun _ n hmid => hmid.note n) h

/-- With room for the whole table, all of it is written. Without any, it is a request that only
counts. -/
theorem listed_full {b : Backend} (hl : b.fillLimit = none) (hn : b.configs.length < 2147483648) :
    (b.listed (Span.ofLength b.configs.length).told).accepted = true ∧
      (b.listed (Span.ofLength b.configs.length).told).fill =
        (List.range b.configs.length).map configHandle ∧
      (b.listed (Span.ofLength b.configs.length).told).output 0 = .ofNat b.configs.length := by
  unfold Backend.listed
  by_cases hz : b.configs.length = 0
  · rw [hz]
    exact ⟨rfl, rfl, rfl⟩
  · have hfits : min (Int32.ofNat b.configs.length) (.ofNat b.configs.length) =
        .ofNat b.configs.length := ite_self _
    simp only [told_of_ne hz, hl, hfits, int32_ofNat_toNat hn]
    exact ⟨rfl, trivial, rfl⟩

/-- The answer to a request for the whole table comes from an implementation with that table. -/
theorem Serves.exchange_getConfigs (h : Serves configs w) {buffer : Option Int32} {reply : Reply}
    (hw : w.exchange (.getConfigs displayHandle buffer) = (reply, after)) :
    (∃ b : Backend, b.fillLimit = none ∧ b.configs = configs ∧ reply = b.listed buffer) ∧
      Serves configs after := by
  obtain ⟨hreply, hafter⟩ := h.exchange rfl hw
  exact ⟨⟨reach w.backend .getConfigs, h.unlimited, h.table, hreply⟩, hafter⟩

/-- A display lists the whole table, in its order. -/
theorem Serves.configs_eq (h : Serves configs w) (hn : configs.length < 2147483648) :
    ∃ after, Display.configs ⟨displayHandle⟩ w =
      .ok ((List.range configs.length).map fun i => ⟨displayHandle, configHandle i⟩) after ∧
      Serves configs after := by
  -- The first call counts the table, and the second has room for all of it.
  rcases hw : w.exchange (.getConfigs displayHandle none) with ⟨first, counted⟩
  obtain ⟨⟨b, -, hbt, hfirst⟩, hcounted⟩ := h.exchange_getConfigs hw
  rcases hw' : counted.exchange
    (.getConfigs displayHandle (Span.ofLength configs.length).told) with ⟨second, filled⟩
  obtain ⟨⟨b', hbl, hbt', hsecond⟩, hfilled⟩ := hcounted.exchange_getConfigs hw'
  have hcount : first = .value (.ofNat configs.length) := by
    rw [hfirst, ← hbt]
    rfl
  have hfull := listed_full hbl (by rw [hbt']; exact hn)
  rw [hbt', ← hsecond] at hfull
  obtain ⟨haccepted, hfill, hwritten⟩ := hfull
  have hlength : second.fill.length = configs.length := by
    rw [hfill, List.length_map, List.length_range]
  obtain ⟨after, hrun, hafter⟩ := (configs_two_pass ⟨displayHandle⟩).exact hw
    (by rw [hcount]; rfl) (by rw [hcount]; rfl) hn hw' haccepted
    (by rw [hlength]; exact hwritten) (by omega)
  rw [hfill, List.map_map] at hrun
  refine ⟨after, hrun, ?_⟩
  rcases hafter with rfl | ⟨n, rfl⟩
  · exact hfilled
  · exact hfilled.note n

/-- A query of a config answers with the attribute that the table has, as a value of the
property. -/
theorem Serves.query_eq (h : Serves configs w) (hi : configs[i]? = some config) (p : Property) :
    ∃ after, (ConfigRef.mk displayHandle (configHandle i)).query p w =
      .ok (p.kind.value (config.value p.code)) after ∧ Serves configs after := by
  rcases hw : w.exchange (.getConfigAttrib displayHandle (configHandle i) p.code) with
    ⟨reply, after⟩
  obtain ⟨hreply, hafter⟩ := h.exchange rfl hw
  have hfound : (reach w.backend .getConfigAttrib).config? (configHandle i) = some config := by
    simp only [Backend.config?, configHandle, reach, h.table]
    exact hi
  have hvalue : reply = .value (config.value p.code) := by
    rw [hreply]
    simp only [Backend.respond, Call.entry, hfound, if_true]
    rfl
  have hrun := require_value_ok "eglGetConfigAttrib" hw (by rw [hvalue]; rfl)
  rw [hvalue] at hrun
  exact ⟨after, bind_ok hrun _, hafter⟩

end Egl.Proofs
