set_option autoImplicit false

/-! # Association lists

Finite maps from names, kept as lists of pairs in the order in which their names were first put.
`get?` is the view: `put` changes it at one name and nowhere else. -/

namespace Deduction

/-- A finite map from names to values, in order of first insertion. -/
abbrev Assoc (α : Type) := List (String × α)

namespace Assoc

variable {α : Type}

/-- The value of a name. -/
def get? : Assoc α → String → Option α
  | [], _ => none
  | (k, v) :: rest, name => if k = name then some v else get? rest name

/-- Gives a name a value: in its old place if it had one, at the end otherwise. -/
def put : Assoc α → String → α → Assoc α
  | [], name, a => [(name, a)]
  | (k, v) :: rest, name, a => if k = name then (k, a) :: rest else (k, v) :: put rest name a

/-- The names that have a value. -/
def names (m : Assoc α) : List String := m.map Prod.fst

/-- Reads pairs in order; a repeated name keeps its first place and takes its last value. -/
def ofPairs (pairs : List (String × α)) : Assoc α :=
  pairs.foldl (fun m pair => put m pair.1 pair.2) []

theorem get?_put_self (m : Assoc α) (name : String) (a : α) :
    (m.put name a).get? name = some a := by
  induction m with
  | nil => simp [put, get?]
  | cons pair rest ih =>
      obtain ⟨k, v⟩ := pair
      by_cases h : k = name <;> simp [put, get?, h, ih]

theorem get?_put_of_ne (m : Assoc α) {name other : String} (h : name ≠ other) (a : α) :
    (m.put name a).get? other = m.get? other := by
  induction m with
  | nil => simp [put, get?, h]
  | cons pair rest ih =>
      obtain ⟨k, v⟩ := pair
      by_cases hk : k = name
      · subst hk; simp [put, get?, h]
      · by_cases ho : k = other
        · subst ho; simp [put, get?, hk]
        · simp [put, get?, hk, ho, ih]

theorem get?_eq_none_iff (m : Assoc α) (name : String) : m.get? name = none ↔ name ∉ m.names := by
  induction m with
  | nil => simp [get?, names]
  | cons pair rest ih =>
      obtain ⟨k, v⟩ := pair
      by_cases h : k = name
      · simp [get?, names, h]
      · simp only [get?, h, if_false, ih, names, List.map_cons, List.mem_cons, not_or]
        exact ⟨fun hr => ⟨fun e => h e.symm, hr⟩, fun hr => hr.2⟩

end Assoc

end Deduction
