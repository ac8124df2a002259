import Mathlib.Algebra.Order.Group.Multiset
import Mathlib.Data.String.Basic
import Egl.Owner

namespace Egl.Proofs

variable {α M : Type} [AddCommMonoid M]

/-- The names of the slots strictly ascend, so no name occurs twice. -/
def Ordered (slots : Slots α) : Prop := slots.entries.Pairwise (·.1 < ·.1)

/-- The owner in a slot, if there is one. -/
def occupant (slots : Slots α) (name : String) : List α := (slots.get? name).toList

/-- The weight of several owners together. -/
def weight (f : α → M) (owners : List α) : M := (owners.map f).sum

/-- The weight of all slots together. -/
def total (f : α → M) (slots : Slots α) : M := weight f slots.values

theorem mem_of_lookup {k : String} {v : α} {l : List (String × α)} (h : Assoc.lookup k l = some v) :
    (k, v) ∈ l := by
  induction l with
  | nil => cases h
  | cons head rest ih =>
    obtain ⟨key, old⟩ := head
    unfold Assoc.lookup at h
    split at h
    case isTrue hk =>
      rw [hk, Option.some.inj h]
      exact List.mem_cons_self
    case isFalse => exact List.mem_cons_of_mem _ (ih h)

theorem mem_values {slots : Slots α} {name : String} {owner : α}
    (h : slots.get? name = some owner) : owner ∈ slots.values :=
  List.mem_map_of_mem (mem_of_lookup h)

theorem mem_occupant {slots : Slots α} {name : String} {owner : α}
    (h : owner ∈ occupant slots name) : owner ∈ slots.values :=
  mem_values (Option.mem_toList.mp h)

theorem ordered_empty : Ordered ({} : Slots α) := List.Pairwise.nil

theorem weight_cons (f : α → M) (owner : α) (rest : List α) :
    weight f (owner :: rest) = f owner + weight f rest := List.sum_cons

theorem weight_single (f : α → M) (owner : α) : weight f [owner] = f owner := List.sum_singleton

theorem mem_insert {k : String} {v : α} {l : List (String × α)} {e : String × α}
    (h : e ∈ Assoc.insert k v l) : e = (k, v) ∨ e ∈ l := by
  induction l with
  | nil => exact .inl (List.mem_singleton.mp h)
  | cons head rest ih =>
    obtain ⟨key, old⟩ := head
    unfold Assoc.insert at h
    split at h
    · rcases List.mem_cons.mp h with rfl | h
      · exact .inl rfl
      · exact .inr (List.mem_cons_of_mem _ h)
    · split at h
      · exact List.mem_cons.mp h
      · rcases List.mem_cons.mp h with rfl | h
        · exact .inr List.mem_cons_self
        · rcases ih h with rfl | h
          · exact .inl rfl
          · exact .inr (List.mem_cons_of_mem _ h)

theorem pairwise_insert {l : List (String × α)} (h : l.Pairwise (·.1 < ·.1)) (k : String) (v : α) :
    (Assoc.insert k v l).Pairwise (·.1 < ·.1) := by
  induction l with
  | nil => exact List.pairwise_singleton _ _
  | cons head rest ih =>
    obtain ⟨key, old⟩ := head
    obtain ⟨hhead, hrest⟩ := List.pairwise_cons.mp h
    unfold Assoc.insert
    split
    case isTrue hk =>
      subst hk
      exact List.pairwise_cons.mpr ⟨hhead, hrest⟩
    case isFalse hk =>
      split
      case isTrue hlt =>
        refine List.pairwise_cons.mpr ⟨fun e he => ?_, h⟩
        rcases List.mem_cons.mp he with rfl | he
        · exact hlt
        · exact lt_trans hlt (hhead e he)
      case isFalse hlt =>
        refine List.pairwise_cons.mpr ⟨fun e he => ?_, ih hrest⟩
        rcases mem_insert he with rfl | he
        · exact lt_of_le_of_ne (not_lt.mp hlt) hk
        · exact hhead e he

theorem remove_sublist (k : String) (l : List (String × α)) :
    List.Sublist (Assoc.remove k l) l := by
  induction l with
  | nil => exact List.Sublist.refl _
  | cons head rest ih =>
    unfold Assoc.remove
    split
    · exact List.sublist_cons_self _ _
    · exact List.Sublist.cons_cons _ ih

theorem Ordered.set {slots : Slots α} (h : Ordered slots) (name : String) (owner : α) :
    Ordered (slots.set name owner) := pairwise_insert h name owner

theorem Ordered.erase {slots : Slots α} (h : Ordered slots) (name : String) :
    Ordered (slots.erase name) := List.Pairwise.sublist (remove_sublist name slots.entries) h

theorem lookup_eq_none {k : String} {l : List (String × α)} (h : ∀ e ∈ l, k < e.1) :
    Assoc.lookup k l = none := by
  induction l with
  | nil => rfl
  | cons head rest ih =>
    obtain ⟨key, old⟩ := head
    have hlt : k < key := h (key, old) List.mem_cons_self
    unfold Assoc.lookup
    rw [if_neg (ne_of_gt hlt)]
    exact ih fun e he => h e (List.mem_cons_of_mem _ he)

/-- The owner that is put into a slot takes the place of the one in it. Without the order of the
names, an older entry could stay behind a newer one. -/
theorem insert_weight (f : α → M) {l : List (String × α)} (h : l.Pairwise (·.1 < ·.1)) (k : String)
    (v : α) :
    weight f ((Assoc.insert k v l).map Prod.snd) + weight f (Assoc.lookup k l).toList =
      f v + weight f (l.map Prod.snd) := by
  induction l with
  | nil => simp [Assoc.insert, Assoc.lookup, weight]
  | cons head rest ih =>
    obtain ⟨key, old⟩ := head
    obtain ⟨hhead, hrest⟩ := List.pairwise_cons.mp h
    unfold Assoc.insert Assoc.lookup
    split
    case isTrue hk =>
      rw [List.map_cons, List.map_cons, weight_cons, weight_cons, Option.toList_some, weight_single]
      rw [add_assoc, add_comm (weight f _)]
    case isFalse hk =>
      split
      case isTrue hlt =>
        rw [lookup_eq_none fun e he => lt_trans hlt (hhead e he)]
        simp only [List.map_cons, weight_cons, Option.toList_none]
        exact add_zero _
      case isFalse hlt =>
        simp only [List.map_cons, weight_cons]
        rw [add_assoc, ih hrest, add_left_comm]

theorem remove_weight (f : α → M) (l : List (String × α)) (k : String) :
    weight f ((Assoc.remove k l).map Prod.snd) + weight f (Assoc.lookup k l).toList =
      weight f (l.map Prod.snd) := by
  induction l with
  | nil => simp [Assoc.remove, Assoc.lookup, weight]
  | cons head rest ih =>
    obtain ⟨key, old⟩ := head
    unfold Assoc.remove Assoc.lookup
    split
    · rw [Option.toList_some, weight_single, List.map_cons, weight_cons, add_comm]
    · simp only [List.map_cons, weight_cons]
      rw [add_assoc, ih]

theorem set_total (f : α → M) {slots : Slots α} (h : Ordered slots) (name : String) (owner : α) :
    total f (slots.set name owner) + weight f (occupant slots name) = f owner + total f slots :=
  insert_weight f h name owner

theorem erase_total (f : α → M) (slots : Slots α) (name : String) :
    total f (slots.erase name) + weight f (occupant slots name) = total f slots :=
  remove_weight f slots.entries name

section Owners

variable [Owner α]

/-- Owners release in turn what they hold. -/
def releases (owners : List α) (w : World) : World :=
  owners.foldl (fun w owner => Owner.release owner w) w

theorem place_slots (slots : Slots α) (name : String) (new : α) (w : World) :
    (slots.place name new w).1 = slots.set name new := by
  unfold Slots.place
  split <;> rfl

/-- Whoever was in the slot before releases what he holds. -/
theorem place_world (slots : Slots α) (name : String) (new : α) (w : World) :
    (slots.place name new w).2 = releases (occupant slots name) w := by
  unfold Slots.place occupant
  cases slots.get? name <;> rfl

theorem Ordered.forget {slots : Slots α} (h : Ordered slots) (name : String) (owner : α) :
    Ordered (slots.forget name owner) := h.set name (Owner.emptied owner)

theorem Ordered.move {slots : Slots α} (h : Ordered slots) (source : String) (owner : α)
    (target : String) (w : World) : Ordered (slots.move source owner target w).1 := by
  unfold Slots.move
  split
  · exact h
  · rw [place_slots]
    exact (h.forget source owner).set target owner

theorem occupant_forget {slots : Slots α} {source target : String} (owner : α)
    (h : source ≠ target) :
    occupant (slots.forget source owner) target = occupant slots target := by
  unfold occupant Slots.forget
  rw [Assoc.get?_set_of_ne slots h.symm]

variable (f : α → M) {slots : Slots α} {name source target : String} {owner : α}

/-- What an owner is told to forget leaves the slots without being released. -/
theorem forget_total (h : Ordered slots) (ho : slots.get? name = some owner)
    (he : f (Owner.emptied owner) = 0) :
    total f (slots.forget name owner) + f owner = total f slots := by
  have hset := set_total f h name (Owner.emptied owner)
  rwa [he, zero_add, occupant, ho, Option.toList_some, weight_single] at hset

/-- Passing something on only costs the slots what its target held before. -/
theorem move_total (h : Ordered slots) (ho : slots.get? source = some owner)
    (he : f (Owner.emptied owner) = 0) (hne : source ≠ target) (w : World) :
    total f (slots.move source owner target w).1 + weight f (occupant slots target) =
      total f slots := by
  have hforget := forget_total f h ho he
  have hset := set_total f (h.forget source owner) target owner
  rw [Slots.move, if_neg hne, place_slots, ← occupant_forget owner hne, hset, add_comm, hforget]

theorem move_world (hne : source ≠ target) (w : World) :
    (slots.move source owner target w).2 = releases (occupant slots target) w := by
  rw [Slots.move, if_neg hne, place_world, occupant_forget owner hne]

end Owners

end Egl.Proofs
