import Deduction.Assoc

set_option autoImplicit false

/-! # Association lists that grow

Matching and the inference of arities build their maps name by name: a name that has a value keeps it,
and only names without one are put. -/

namespace Deduction.Assoc

variable {α : Type}

/-- Every name keeps its value. -/
def Extends (m m' : Assoc α) : Prop := ∀ name a, m.get? name = some a → m'.get? name = some a

theorem Extends.refl (m : Assoc α) : m.Extends m := fun _ _ h => h

theorem Extends.trans {m m' m'' : Assoc α} (h : m.Extends m') (h' : m'.Extends m'') :
    m.Extends m'' :=
  fun name a ha => h' name a (h name a ha)

/-- A name without a value may be put. -/
theorem extends_put {m : Assoc α} {name : String} (h : m.get? name = none) (a : α) :
    m.Extends (m.put name a) := by
  intro other b hb
  have hne : name ≠ other := by
    intro he
    rw [← he, h] at hb
    exact absurd hb (by simp)
  rw [get?_put_of_ne m hne]
  exact hb

/-- What extends a map and has one more value extends the map with that value put. -/
theorem Extends.put {m m' : Assoc α} (h : m.Extends m') {name : String} {a : α}
    (ha : m'.get? name = some a) : (m.put name a).Extends m' := by
  intro other b hb
  by_cases hname : name = other
  · subst hname
    rw [get?_put_self] at hb
    rw [ha, hb]
  · rw [get?_put_of_ne m hname] at hb
    exact h other b hb

theorem mem_names_iff {m : Assoc α} {name : String} :
    name ∈ m.names ↔ ∃ a, m.get? name = some a := by
  rw [← Option.isSome_iff_exists, ← Option.ne_none_iff_isSome, Ne, get?_eq_none_iff,
    Classical.not_not]

theorem mem_of_get? {m : Assoc α} {name : String} {a : α} (h : m.get? name = some a) :
    (name, a) ∈ m := by
  induction m with
  | nil => cases h
  | cons pair rest ih =>
      simp only [get?] at h
      split at h
      · next hname =>
          rw [← hname, ← Option.some.inj h]
          exact List.mem_cons_self ..
      · exact List.mem_cons_of_mem _ (ih h)

theorem get?_map_of_mem {names : List String} {name : String} (value : String → α)
    (h : name ∈ names) : get? (names.map fun n => (n, value n)) name = some (value name) := by
  induction names with
  | nil => exact absurd h (by simp)
  | cons n names ih =>
      simp only [List.map_cons, get?]
      by_cases hn : n = name
      · rw [if_pos hn, hn]
      · rw [if_neg hn]
        exact ih ((List.mem_cons.1 h).resolve_left fun he => hn he.symm)

end Deduction.Assoc
