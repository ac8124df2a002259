namespace Egl.AttributeList

variable {α : Type} [DecidableEq α]

/-- Reads pairs until the terminator stands in the place of an attribute, and returns what follows
it too. A list without such a terminator cannot be read. -/
def read? (stop : α) : List α → Option (List (α × α) × List α)
  | [] => none
  | a :: rest =>
    if a = stop then some ([], rest)
    else
      match rest with
      | [] => none
      | v :: rest => (read? stop rest).map fun (pairs, after) => ((a, v) :: pairs, after)

def pairs (stop : α) (list : Option (List α)) : List (α × α) :=
  ((list.bind (read? stop)).map Prod.fst).getD []

def write (stop : α) (pairs : List (α × α)) : List α :=
  pairs.flatMap (fun (a, v) => [a, v]) ++ [stop]

/-- A written list reads back as its pairs, and nothing follows its terminator. The terminator may
be among the values, but not among the attributes. -/
theorem read?_write {stop : α} {pairs : List (α × α)} (h : ∀ p ∈ pairs, p.1 ≠ stop) :
    read? stop (write stop pairs) = some (pairs, []) := by
  induction pairs with
  | nil => simp [write, read?]
  | cons p rest ih =>
    obtain ⟨a, v⟩ := p
    have ha : a ≠ stop := h (a, v) (by simp)
    have ht := ih (fun q hq => h q (by simp [hq]))
    simp only [write] at ht
    simp [write, read?, ha, ht]

theorem pairs_write {stop : α} {pairs : List (α × α)} (h : ∀ p ∈ pairs, p.1 ≠ stop) :
    AttributeList.pairs stop (some (write stop pairs)) = pairs := by
  simp [AttributeList.pairs, read?_write h]

def trimmed (stop : α) (list : Option (List α)) : Option (List α) :=
  list.map fun l => write stop (pairs stop (some l))

def upToFirst (stop : α) (list : Option (List α)) : Option (List α) :=
  list.map fun l => l.takeWhile (· ≠ stop) ++ [stop]

/-- A list with a terminator at its end, which is added unless the last element is one. -/
def closed (stop : α) (list : List α) : List α :=
  if list.getLast? = some stop then list else list ++ [stop]

end Egl.AttributeList
