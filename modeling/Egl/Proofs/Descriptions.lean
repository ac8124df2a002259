import Egl.Proofs.Reporting
import Egl.Proofs.TwoPass

namespace Egl.Proofs

variable {w : World}

theorem regroup (a b c d e : String) : a ++ b ++ c ++ (d ++ e) = a ++ (b ++ (c ++ d)) ++ e := by
  simp only [String.append_assoc]

theorem errorText_braced (e : EntryPoint) :
    errorText e = ConfigRef.braced ("error: " ++ (e.name ++ " failed")) := by
  have hopen : "config_ref_t\x7b" ++ "error: " = "config_ref_t\x7berror: " := by decide
  have hclose : " failed" ++ "\x7d" = " failed\x7d" := by decide
  have hgroup := regroup "config_ref_t\x7b" "error: " e.name " failed" "\x7d"
  rw [hopen, hclose] at hgroup
  exact hgroup

theorem braced_injective {text other : String}
    (h : ConfigRef.braced text = ConfigRef.braced other) : text = other := by
  unfold ConfigRef.braced at h
  exact (String.append_right_inj _).mp ((String.append_left_inj _).mp h)

/-- A description that starts with the id of a config is not that of an error. -/
theorem described_ne (text : String) (tail : List String) (e : EntryPoint) :
    ConfigRef.braced (String.intercalate ", " ((Property.configId.name ++ ": " ++ text) :: tail)) ≠
      errorText e := by
  rw [String.intercalate_cons_append, errorText_braced]
  intro h
  have hchars := congrArg (fun s => s.toList.head?) (braced_injective h)
  simp [Property.name] at hchars

/-- The failure of a query of an attribute. -/
def unasked : Failure :=
  .coded (.ofEntry .getConfigAttrib) (entryName .getConfigAttrib)

/-- A field of a description starts with the name of its property, or its query was refused. -/
theorem field_eq (c : ConfigRef) (p : Property) (w : World) :
    (∃ text after, c.field p w = .ok (p.name ++ ": " ++ text) after) ∨
      ∃ after, c.field p w = .error unasked after := by
  rcases hx : w.exchange (.getConfigAttrib c.display c.handle p.code) with ⟨reply, after⟩
  cases hr : reply.accepted with
  | true =>
    have hraw : c.attrib p.code w = .ok (reply.output 0) after := require_value_ok _ hx hr
    exact .inl ⟨p.kind.text (reply.output 0), after, bind_ok hraw _⟩
  | false =>
    have hraw : c.attrib p.code w = .error unasked after := require_value_error _ hx hr
    exact .inr ⟨after, bind_error hraw _⟩

theorem fields_eq (c : ConfigRef) (properties : List Property) (w : World) :
    (∃ texts after, properties.mapM c.field w = .ok texts after ∧
      ∀ p ∈ properties.head?, ∃ text tail, texts = (p.name ++ ": " ++ text) :: tail) ∨
      ∃ after, properties.mapM c.field w = .error unasked after := by
  induction properties generalizing w with
  | nil => exact .inl ⟨[], w, rfl, by simp⟩
  | cons p rest ih =>
    rw [List.mapM_cons]
    rcases field_eq c p w with ⟨text, mid, hp⟩ | ⟨after, hp⟩
    · rw [bind_ok hp]
      rcases ih mid with ⟨texts, after, hrest, -⟩ | ⟨after, hrest⟩
      · rw [bind_ok hrest]
        exact .inl ⟨_, after, rfl, by simp⟩
      · rw [bind_error hrest]
        exact .inr ⟨after, rfl⟩
    · rw [bind_error hp]
      exact .inr ⟨after, rfl⟩

/-- How a description can end: with the words for a config after calls that all succeeded, or with
those for an error after a query that was refused. -/
inductive Described (w : World) : EStateM.Result Failure World String → Prop
  | config {text : String} {after : World} (h : Grew Quiet w after)
      (hne : text ≠ errorText .getConfigAttrib) : Described w (.ok text after)
  | error {mid after : World} {t : Table} {c : Call} {reply : Reply} (h : Grew Quiet w mid)
      (hr : Recording after) (hj : after.journal = mid.journal ++ [.call t c reply])
      (he : c.entry = .getConfigAttrib) (hc : refused c.entry reply = true) :
      Described w (.ok (errorText .getConfigAttrib) after)

theorem ofEntry_getConfigAttrib {e : EntryPoint}
    (h : ErrorCode.ofEntry e = .ofEntry .getConfigAttrib) : e = .getConfigAttrib := by
  revert h
  cases e <;> decide

theorem describe_described (c : ConfigRef) (hw : Recording w) : Described w (c.describe w) := by
  have hends := Candid.mapM (field_candid c) Property.described w hw
  unfold ConfigRef.describe
  rcases fields_eq c Property.described w with ⟨texts, after, hm, hhead⟩ | ⟨after, hm⟩
  · rw [hm] at hends ⊢
    obtain ⟨text, tail, rfl⟩ := hhead .configId rfl
    cases hends with
    | done hg => exact .config hg (described_ne text tail .getConfigAttrib)
  · rw [hm] at hends ⊢
    have hfault : Ends w (some (.failed unasked)) after := hends
    generalize hf : some (Fault.failed unasked) = fault at hfault
    cases hfault with
    | done => cases hf
    | refused hg hr hj hc =>
      simp only [unasked, Option.some.injEq, Fault.failed.injEq, Failure.coded.injEq] at hf
      exact .error hg hr hj (ofEntry_getConfigAttrib hf.1.symm) hc
    | stopped _ hf' =>
      cases hf
      cases hf'

end Egl.Proofs
