namespace Egl

/-- A finite map. Its entries are listed in the ascending order of their keys. -/
structure Assoc (κ α : Type) where
  entries : List (κ × α) := []
  deriving DecidableEq

namespace Assoc

variable {κ α : Type} [DecidableEq κ]

def lookup (k : κ) : List (κ × α) → Option α
  | [] => none
  | (key, v) :: rest => if key = k then some v else lookup k rest

def remove (k : κ) : List (κ × α) → List (κ × α)
  | [] => []
  | (key, w) :: rest => if key = k then rest else (key, w) :: remove k rest

theorem lookup_remove_of_ne {k other : κ} (h : other ≠ k) (l : List (κ × α)) :
    lookup other (remove k l) = lookup other l := by
  induction l with
  | nil => rfl
  | cons e rest ih =>
    obtain ⟨key, w⟩ := e
    by_cases hk : key = k
    · subst hk
      simp [remove, lookup, Ne.symm h]
    · simp only [remove, hk, if_false, lookup, ih]

def get? (m : Assoc κ α) (k : κ) : Option α := lookup k m.entries

def erase (m : Assoc κ α) (k : κ) : Assoc κ α := ⟨remove k m.entries⟩

theorem get?_erase_of_ne (m : Assoc κ α) {k other : κ} (h : other ≠ k) :
    (m.erase k).get? other = m.get? other :=
  lookup_remove_of_ne h m.entries

def values (m : Assoc κ α) : List α := m.entries.map Prod.snd

variable [LT κ] [DecidableLT κ]

/-- Replaces the value of the first entry with a given key, or puts a new entry where the order
wants it. -/
def insert (k : κ) (v : α) : List (κ × α) → List (κ × α)
  | [] => [(k, v)]
  | (key, w) :: rest =>
    if key = k then (k, v) :: rest
    else if k < key then (k, v) :: (key, w) :: rest
    else (key, w) :: insert k v rest

theorem lookup_insert_self (k : κ) (v : α) (l : List (κ × α)) :
    lookup k (insert k v l) = some v := by
  induction l with
  | nil => simp [insert, lookup]
  | cons e rest ih =>
    obtain ⟨key, w⟩ := e
    by_cases hk : key = k
    · simp [insert, lookup, hk]
    · by_cases hl : k < key <;> simp [insert, lookup, hk, hl, ih]

theorem lookup_insert_of_ne {k other : κ} (h : other ≠ k) (v : α) (l : List (κ × α)) :
    lookup other (insert k v l) = lookup other l := by
  induction l with
  | nil => simp [insert, lookup, Ne.symm h]
  | cons e rest ih =>
    obtain ⟨key, w⟩ := e
    by_cases hk : key = k
    · subst hk
      simp [insert, lookup, Ne.symm h]
    · by_cases hl : k < key
      · simp [insert, lookup, hk, hl, Ne.symm h]
      · simp only [insert, hk, hl, if_false, lookup, ih]

def set (m : Assoc κ α) (k : κ) (v : α) : Assoc κ α := ⟨insert k v m.entries⟩

@[simp] theorem get?_set_self (m : Assoc κ α) (k : κ) (v : α) : (m.set k v).get? k = some v :=
  lookup_insert_self k v m.entries

theorem get?_set_of_ne (m : Assoc κ α) {k other : κ} (h : other ≠ k) (v : α) :
    (m.set k v).get? other = m.get? other :=
  lookup_insert_of_ne h v m.entries

/-- Sets the values of several keys in turn, so that the last one for a key stays. -/
def setAll (m : Assoc κ α) (entries : List (κ × α)) : Assoc κ α :=
  entries.foldl (fun m (k, v) => m.set k v) m

/-- The map of given entries. The last one for a key stays. -/
def ofList (entries : List (κ × α)) : Assoc κ α := setAll {} entries

end Assoc

end Egl
