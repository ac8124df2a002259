import Egl.Proofs.Ordinary
import Egl.Proofs.Slots

namespace Egl.Proofs

variable {k other : OwnerKind} {w mid after : World}

/-- The owners of one kind. -/
abbrev Owned : OwnerKind → Type
  | .display => Display
  | .context => Context
  | .surface => Surface

instance (k : OwnerKind) : Owner (Owned k) :=
  match k with
  | .display => inferInstanceAs (Owner Display)
  | .context => inferInstanceAs (Owner (Resource .context))
  | .surface => inferInstanceAs (Owner (Resource .surface))

/-- What was handed out to an owner: a display, or a context or surface after its display. -/
abbrev Token : OwnerKind → Type
  | .display => Handle
  | .context => Handle × Handle
  | .surface => Handle × Handle

/-- What an owner with a given handle would have to give back. -/
def ticket : (k : OwnerKind) → Owned k → Handle → Token k
  | .display, _, handle => handle
  | .context, c, handle => (c.display, handle)
  | .surface, s, handle => (s.display, handle)

/-- What an owner has to give back. An owner with the null handle owes nothing. -/
def due (k : OwnerKind) (owner : Owned k) : Multiset (Token k) :=
  if Owner.handle owner = 0 then 0 else {ticket k owner (Owner.handle owner)}

/-- The calls by which an owner parts with something. -/
def partings : (k : OwnerKind) → Token k → List Call
  | .display, display => [.makeCurrent display 0 0 0, .terminate display]
  | .context, (display, context) => [.destroyContext display context]
  | .surface, (display, surface) => [.destroySurface display surface]

/-- What an owner holds, if it holds anything. -/
def holding (k : OwnerKind) (owner : Owned k) : List (Token k) :=
  if Owner.handle owner = 0 then [] else [ticket k owner (Owner.handle owner)]

/-- The entry point through which owners of one kind give back what they hold. -/
def releaser : OwnerKind → EntryPoint
  | .display => .terminate
  | .context => .destroyContext
  | .surface => .destroySurface

/-- What a call gives back. -/
def returned : (k : OwnerKind) → Call → Option (Token k)
  | .display, .terminate display => some display
  | .context, .destroyContext display context => some (display, context)
  | .surface, .destroySurface display surface => some (display, surface)
  | _, _ => none

/-- What the calls among some events give back, whether they succeed or fail. -/
def givenBack (k : OwnerKind) (events : List Event) : Multiset (Token k) :=
  events.filterMap fun
    | .call _ c _ => returned k c
    | .notice _ => none

/-- Something that is handed out to an owner. -/
abbrev Gain := Σ k, Token k

/-- What a call hands out to an owner with a handle that is not null. -/
def gain : Call → Handle → Option Gain
  | .getDisplay _, handle => some ⟨.display, handle⟩
  | .createContext display _ _ _, handle => some ⟨.context, display, handle⟩
  | .createPbufferFromClientBuffer display _ _ _ _, handle
  | .createPbufferSurface display _ _, handle
  | .createPixmapSurface display _ _ _, handle
  | .createPlatformWindowSurface display _ _ _, handle
  | .createWindowSurface display _ _ _, handle => some ⟨.surface, display, handle⟩
  | _, _ => none

def acquired : Event → Option Gain
  | .call _ c reply => if reply.ret = 0 then none else gain c reply.ret
  | .notice _ => none

/-- What some events hand out, the first first. -/
def gains (events : List Event) : List Gain := events.filterMap acquired

/-- A gain, if it is one of a given kind. -/
def ofKind (k : OwnerKind) (g : Gain) : Option (Token k) :=
  if h : g.1 = k then some (h ▸ g.2) else none

/-- What some events hand out to owners of one kind. -/
def granted (k : OwnerKind) (events : List Event) : Multiset (Token k) :=
  (gains events).filterMap (ofKind k)

/-- An event that is part of no cleanup of one kind: it gives nothing back, and it is not the line
that a cleanup of a display starts with. -/
def Spares (k : OwnerKind) : Event → Prop
  | .call _ c _ => c.entry ≠ releaser k
  | .notice n => k = .display → n ≠ .unbinding

theorem returned_none {c : Call} (h : c.entry ≠ releaser k) : returned k c = none := by
  cases k
  all_goals
    cases c
    all_goals first | rfl | exact absurd rfl h

theorem Ordinary.spares {e : Event} (h : Ordinary e) : Spares k e := by
  cases e with
  | call t c reply =>
    intro hc
    change givesBack c.entry = false at h
    rw [hc] at h
    cases k <;> cases h
  | notice n => exact fun _ => h

theorem givenBack_nil (k : OwnerKind) : givenBack k [] = 0 := rfl

theorem givenBack_append (k : OwnerKind) (first last : List Event) :
    givenBack k (first ++ last) = givenBack k first + givenBack k last := by
  unfold givenBack
  rw [List.filterMap_append, ← Multiset.coe_add]

theorem givenBack_spares {events : List Event} (h : ∀ e ∈ events, Spares k e) :
    givenBack k events = 0 := by
  unfold givenBack
  rw [List.filterMap_eq_nil_iff.mpr, Multiset.coe_nil]
  intro e he
  cases e with
  | call t c reply => exact returned_none (h _ he)
  | notice n => rfl

theorem gains_append (first last : List Event) :
    gains (first ++ last) = gains first ++ gains last := List.filterMap_append

theorem gains_call {t : Table} {c : Call} {reply : Reply} :
    gains [.call t c reply] = if reply.ret = 0 then [] else (gain c reply.ret).toList := by
  unfold gains acquired
  by_cases hz : reply.ret = 0
  · simp [hz]
  · cases hg : gain c reply.ret <;> simp [hz, hg]

theorem gains_nil {events : List Event} (h : ∀ e ∈ events, acquired e = none) : gains events = [] :=
  List.filterMap_eq_nil_iff.mpr h

theorem granted_nil {events : List Event} (h : gains events = []) : granted k events = 0 := by
  unfold granted
  rw [h]
  rfl

theorem granted_single {events : List Event} {token : Token k} (h : gains events = [⟨k, token⟩]) :
    granted k events = {token} := by
  unfold granted
  rw [h, List.filterMap_cons, ofKind, dif_pos rfl]
  rfl

theorem granted_other {events : List Event} {token : Token other}
    (h : gains events = [⟨other, token⟩]) (hne : other ≠ k) : granted k events = 0 := by
  unfold granted
  rw [h, List.filterMap_cons, ofKind, dif_neg hne]
  rfl

/-- A call of a cleanup, with the line that a failure leaves in the log. -/
def attempt (t : Table) (c : Call) (reply : Reply) : List Event :=
  .call t c reply ::
    if reply.accepted then [] else [.notice (.cleanupFailed c.entry (.ofEntry c.entry))]

/-- The whole cleanup of a display: it makes nothing current, and then terminates the display
whatever the first call came to. -/
def farewell (t : Table) (display : Handle) (first second : Reply) : List Event :=
  .notice .unbinding :: attempt t (.makeCurrent display 0 0 0) first ++
    .notice (.terminating display) :: attempt t (.terminate display) second

theorem cleanup_table (q : Request (Outcome Unit)) (w : World) :
    (Display.cleanup q w).table = w.table := by
  have ht := perform_table w q
  unfold Display.cleanup
  rcases hq : w.perform q with ⟨outcome, after⟩
  rw [hq] at ht
  cases outcome <;> exact ht

theorem cleanup_journal (h : Recording w) (c : Call) :
    (Display.cleanup (.status c) w).journal = w.journal ++ attempt w.table c (w.exchange c).1 := by
  have hj := exchange_journal h c
  unfold Display.cleanup World.perform
  rcases hx : w.exchange c with ⟨reply, after⟩
  simp only [hx] at hj
  simp only [Request.status, hx, attempt]
  cases reply.accepted with
  | true => exact hj
  | false => simp [note_journal, hj]

/-- The world between the two calls of a cleanup. -/
def unbound (display : Handle) (w : World) : World :=
  (Display.cleanup (.makeCurrent display 0 0 0) (w.note .unbinding)).note (.terminating display)

theorem unbound_table (display : Handle) (w : World) : (unbound display w).table = w.table := by
  rw [unbound, note_table, cleanup_table, note_table]

theorem unbound_recording (h : Recording w) (display : Handle) : Recording (unbound display w) :=
  h.of_table (unbound_table display w)

theorem release_unbound {d : Display} (hd : d.handle ≠ 0) (w : World) :
    d.release w = Display.cleanup (.terminate d.handle) (unbound d.handle w) := if_neg hd

/-- A display that holds a handle leaves by one whole cleanup. -/
theorem release_farewell {d : Display} (h : Recording w) (hd : d.handle ≠ 0) :
    (d.release w).journal = w.journal ++ farewell w.table d.handle
      ((w.note .unbinding).exchange (.makeCurrent d.handle 0 0 0)).1
      ((unbound d.handle w).exchange (.terminate d.handle)).1 := by
  have hr := unbound_recording h d.handle
  have hnoted : Recording (w.note .unbinding) := h
  rw [release_unbound hd]
  refine (cleanup_journal hr (.terminate d.handle)).trans ?_
  rw [unbound_table]
  have hfirst : (unbound d.handle w).journal =
      ((w.journal ++ [.notice .unbinding]) ++ attempt w.table (.makeCurrent d.handle 0 0 0)
        ((w.note .unbinding).exchange (.makeCurrent d.handle 0 0 0)).1) ++
          [.notice (.terminating d.handle)] := by
    rw [unbound, note_journal]
    exact congrArg (· ++ _) (cleanup_journal hnoted (.makeCurrent d.handle 0 0 0))
  rw [hfirst]
  simp [farewell]

theorem givenBack_farewell (t : Table) (display : Handle) (first second : Reply) :
    givenBack .display (farewell t display first second) = {display} := by
  unfold farewell attempt givenBack
  cases first.accepted <;> cases second.accepted <;> rfl

/-- An owner with the null handle has nothing to release. -/
theorem release_nothing {owner : Owned k} (hz : Owner.handle owner = 0) (w : World) :
    Owner.release owner w = w := by
  cases k <;> exact if_pos hz

/-- A context or surface that holds a handle is destroyed by one call, and a line follows either
way. -/
theorem release_destroy {kind : ResourceKind} {r : Resource kind} (h : Recording w)
    (hne : r.handle ≠ 0) :
    ∃ reply, (r.release w).journal = w.journal ++
      [.call w.table (kind.destroy r.display r.handle).call reply,
        .notice (if reply.accepted then .destroyed kind r.handle
          else .cleanupFailed (Notice.destroyer kind) (.ofEntry (Notice.destroyer kind)))] := by
  rcases hx : w.exchange (kind.destroy r.display r.handle).call with ⟨reply, after⟩
  have hj := exchange_journal h (kind.destroy r.display r.handle).call
  simp only [hx] at hj
  have hq : w.perform (kind.destroy r.display r.handle) =
      (if reply.accepted then .ok () else .error (.ofEntry (Notice.destroyer kind)), after) := by
    rw [World.perform, hx]
    cases kind
    · rfl
    · rfl
  refine ⟨reply, ?_⟩
  rw [Resource.release, if_neg hne, hq]
  by_cases hr : reply.accepted
  · simp [hr, note_journal, hj]
  · simp [hr, note_journal, hj]

theorem resource_table {kind : ResourceKind} (r : Resource kind) (w : World) :
    (r.release w).table = w.table := by
  unfold Resource.release
  split
  · rfl
  · have ht := perform_table w (kind.destroy r.display r.handle)
    rcases hq : w.perform (kind.destroy r.display r.handle) with ⟨outcome, after⟩
    rw [hq] at ht
    cases outcome <;> exact ht

theorem display_table (d : Display) (w : World) : (d.release w).table = w.table := by
  unfold Display.release
  split
  · rfl
  · exact (cleanup_table _ _).trans (unbound_table d.handle w)

theorem release_recording (owner : Owned k) (h : Recording w) :
    Recording (Owner.release owner w) := by
  cases k
  · exact h.of_table (display_table owner w)
  · exact h.of_table (resource_table owner w)
  · exact h.of_table (resource_table owner w)

/-- An owner owes what it holds. -/
theorem due_holding (owner : Owned k) : due k owner = (holding k owner : List (Token k)) := by
  unfold due holding
  split <;> rfl

theorem due_emptied (owner : Owned k) : due k (Owner.emptied owner) = 0 := by
  cases k <;> rfl

/-- Some tokens were given back between two worlds, and calls are still recorded. Other events may
have happened as well. -/
structure Gave (k : OwnerKind) (tokens : Multiset (Token k)) (w after : World) : Prop where
  recording : Recording after
  journal : ∃ events, after.journal = w.journal ++ events ∧ givenBack k events = tokens

theorem Gave.refl (k : OwnerKind) (h : Recording w) : Gave k 0 w w :=
  ⟨h, [], by simp, givenBack_nil k⟩

theorem Gave.trans {tokens more : Multiset (Token k)} (h : Gave k tokens w mid)
    (h' : Gave k more mid after) : Gave k (tokens + more) w after := by
  obtain ⟨first, hf, hg⟩ := h.journal
  obtain ⟨last, hl, hg'⟩ := h'.journal
  refine ⟨h'.recording, first ++ last, ?_, ?_⟩
  · rw [hl, hf, List.append_assoc]
  · rw [givenBack_append, hg, hg']

theorem Grew.gave (h : Grew (Spares k) w after) (hr : Recording w) : Gave k 0 w after := by
  obtain ⟨events, he, hs⟩ := h.journal
  exact ⟨h.recording hr, events, he, givenBack_spares hs⟩

/-- A journal that starts empty tells what was given back. -/
theorem Gave.of_empty {tokens : Multiset (Token k)} (h : Gave k tokens w after)
    (hw : w.journal = []) : givenBack k after.journal = tokens := by
  obtain ⟨events, he, hg⟩ := h.journal
  rwa [he, hw, List.nil_append]

/-- An owner gives back what it holds, no matter what the implementation answers. -/
theorem release_gave (owner : Owned k) (h : Recording w) :
    Gave k (due k owner) w (Owner.release owner w) := by
  by_cases hz : Owner.handle owner = 0
  · rw [due, if_pos hz, release_nothing hz]
    exact .refl k h
  · refine ⟨release_recording owner h, ?_⟩
    rw [due, if_neg hz]
    cases k with
    | display =>
      exact ⟨_, release_farewell h hz, givenBack_farewell _ _ _ _⟩
    | context =>
      obtain ⟨reply, hj⟩ := release_destroy h hz
      exact ⟨_, hj, rfl⟩
    | surface =>
      obtain ⟨reply, hj⟩ := release_destroy h hz
      exact ⟨_, hj, rfl⟩

theorem releases_gave (owners : List (Owned k)) (h : Recording w) :
    Gave k (weight (due k) owners) w (releases owners w) := by
  induction owners generalizing w with
  | nil => exact .refl k h
  | cons owner rest ih =>
    have hfirst := release_gave owner h
    rw [weight_cons]
    exact hfirst.trans (ih hfirst.recording)

/-- An event of owners that part with what they hold. Only displays do so after a line of their
own. -/
def Parts (k : OwnerKind) (tokens : List (Token k)) : Event → Prop
  | .call _ c _ => ∃ token ∈ tokens, c ∈ partings k token
  | .notice n => k ≠ .display → n ≠ .unbinding

theorem Parts.mono {tokens more : List (Token k)} {e : Event} (h : Parts k tokens e)
    (hm : tokens ⊆ more) : Parts k more e := by
  cases e with
  | call t c reply =>
    obtain ⟨token, ht, hc⟩ := h
    exact ⟨token, hm ht, hc⟩
  | notice n => exact h

theorem partings_entry {token : Token k} {c : Call} (h : c ∈ partings k token) :
    c.entry = .makeCurrent ∨ c.entry = releaser k := by
  cases k with
  | display =>
    simp only [partings, List.mem_cons, List.not_mem_nil, or_false] at h
    rcases h with rfl | rfl
    · exact .inl rfl
    · exact .inr rfl
  | context | surface =>
    rw [List.mem_singleton.mp h]
    exact .inr rfl

/-- Whoever parts with something is handed nothing. -/
theorem Parts.barren {tokens : List (Token k)} {e : Event} (h : Parts k tokens e) :
    acquired e = none := by
  cases e with
  | call t c reply =>
    obtain ⟨token, -, hc⟩ := h
    have hgain : gain c reply.ret = none := by
      rcases partings_entry hc with hcurrent | hreleaser
      · cases c <;> first | rfl | cases hcurrent
      · cases k <;> cases c <;> first | rfl | cases hreleaser
    rw [acquired, hgain, ite_self]
  | notice n => rfl

/-- Parting with something gives nothing back of another kind. -/
theorem Parts.spares {tokens : List (Token other)} {e : Event} (h : Parts other tokens e)
    (hne : other ≠ k) : Spares k e := by
  cases e with
  | call t c reply =>
    obtain ⟨token, -, hc⟩ := h
    intro he
    rcases partings_entry hc with hcurrent | hreleaser
    · rw [hcurrent] at he
      cases k <;> cases he
    · rw [hreleaser] at he
      cases other <;> cases k <;> first | exact hne rfl | cases he
  | notice n =>
    rintro rfl
    exact h hne

section Went

variable {sort : Event → Prop}

theorem cleanup_went {q : Request (Outcome Unit)} (w : World)
    (hc : ∀ t reply, sort (.call t q.call reply))
    (hn : ∀ e code, sort (.notice (.cleanupFailed e code))) :
    Went sort w (Display.cleanup q w) := by
  have hwent := perform_went w hc
  unfold Display.cleanup
  rcases hq : w.perform q with ⟨outcome, after⟩
  rw [hq] at hwent
  cases outcome with
  | ok _ => exact hwent
  | error code => exact hwent.trans (note_went after (hn _ _))

theorem resource_went {kind : ResourceKind} (r : Resource kind) (w : World)
    (hc : ∀ t reply, sort (.call t (kind.destroy r.display r.handle).call reply))
    (hn : ∀ n, n ≠ .unbinding → sort (.notice n)) : Went sort w (r.release w) := by
  unfold Resource.release
  split
  · exact .refl
  · have hwent := perform_went w hc
    rcases hq : w.perform (kind.destroy r.display r.handle) with ⟨outcome, after⟩
    rw [hq] at hwent
    cases outcome with
    | ok _ => exact hwent.trans (note_went after (hn _ nofun))
    | error code => exact hwent.trans (note_went after (hn _ nofun))

end Went

/-- An owner does nothing to the world but to part with what it holds. -/
theorem release_went (owner : Owned k) (w : World) :
    Went (Parts k (holding k owner)) w (Owner.release owner w) := by
  by_cases hz : Owner.handle owner = 0
  · rw [release_nothing hz]
    exact .refl
  · unfold holding
    rw [if_neg hz]
    cases k with
    | display =>
      have hn : ∀ n, Parts .display [owner.handle] (.notice n) := fun _ h => absurd rfl h
      have hunbinds : Went (Parts .display [owner.handle]) (w.note .unbinding)
          (Display.cleanup (.makeCurrent owner.handle 0 0 0) (w.note .unbinding)) :=
        cleanup_went _ (fun _ _ => ⟨_, List.mem_cons_self, List.mem_cons_self⟩) fun _ _ => hn _
      have hterminates : Went (Parts .display [owner.handle]) (unbound owner.handle w)
          (Display.cleanup (.terminate owner.handle) (unbound owner.handle w)) :=
        cleanup_went _
          (fun _ _ => ⟨_, List.mem_cons_self, List.mem_cons_of_mem _ List.mem_cons_self⟩)
          fun _ _ => hn _
      change Went _ w (Display.release owner w)
      rw [release_unbound hz]
      exact ((note_went w (hn _)).trans (hunbinds.trans (note_went _ (hn _)))).trans hterminates
    | context =>
      exact resource_went owner w (fun _ _ => ⟨_, List.mem_cons_self, List.mem_cons_self⟩)
        fun _ hn _ => hn
    | surface =>
      exact resource_went owner w (fun _ _ => ⟨_, List.mem_cons_self, List.mem_cons_self⟩)
        fun _ hn _ => hn

theorem releases_went (owners : List (Owned k)) (w : World) :
    Went (Parts k (owners.flatMap (holding k))) w (releases owners w) := by
  induction owners generalizing w with
  | nil => exact .refl
  | cons owner rest ih =>
    rw [List.flatMap_cons]
    refine Went.trans ((release_went owner w).mono ?_) ((ih (Owner.release owner w)).mono ?_)
    · exact fun _ he => he.mono (List.subset_append_left _ _)
    · exact fun _ he => he.mono (List.subset_append_right _ _)

/-- Releasing an owner of another kind gives nothing back of this kind. -/
theorem release_spares (h : other ≠ k) (owner : Owned other) (w : World) :
    Grew (Spares k) w (Owner.release owner w) :=
  (release_went owner w).grew.mono fun _ he => he.spares h

theorem releases_spares (h : other ≠ k) (owners : List (Owned other)) (w : World) :
    Grew (Spares k) w (releases owners w) :=
  (releases_went owners w).grew.mono fun _ he => he.spares h

end Egl.Proofs
