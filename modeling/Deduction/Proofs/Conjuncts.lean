import Deduction.Rule.Basic
import Mathlib.Data.List.Induction

set_option autoImplicit false

/-! # Conjunctions and their parts

A clause takes several premises by splitting one of its sides into as many parts. The parts are those
of a conjunction that is nested to the left: folding them up again gives the formula back. So a formula
has at most one splitting into a given number of parts. It has one for each number from one, where the
formula is its own only part, up to the number of its conjuncts, and none for any other number. -/

namespace Deduction.Formula

/-- The formula is the conjunction of the parts, nested to the left: `(a & b) & c` of `a`, `b`,
    `c`. -/
def IsConjunction (f : Formula) : List Formula → Prop
  | [] => False
  | first :: rest => rest.foldl .and first = f

theorem isConjunction_singleton {f p : Formula} : f.IsConjunction [p] ↔ p = f := Iff.rfl

theorem isConjunction_append {f last : Formula} {front : List Formula} (hfront : front ≠ []) :
    f.IsConjunction (front ++ [last]) ↔ ∃ l, l.IsConjunction front ∧ f = .and l last := by
  cases front with
  | nil => exact absurd rfl hfront
  | cons first rest =>
      simp only [IsConjunction, List.cons_append, List.foldl_append, List.foldl_cons,
        List.foldl_nil]
      constructor
      · intro h
        exact ⟨_, rfl, h.symm⟩
      · rintro ⟨l, rfl, rfl⟩
        rfl

/-- A property that passes from conjunctions to both sides passes from the whole to the parts. -/
theorem IsConjunction.forall_mem {property : Formula → Prop}
    (hand : ∀ l r, property (.and l r) → property l ∧ property r) {f : Formula}
    {parts : List Formula} (h : f.IsConjunction parts) (hf : property f) :
    ∀ p ∈ parts, property p := by
  induction parts using List.reverseRecOn generalizing f with
  | nil => exact absurd h id
  | append_singleton front last ih =>
      by_cases hfront : front = []
      · subst hfront
        obtain rfl := isConjunction_singleton.1 h
        simpa using hf
      · obtain ⟨l, hl, rfl⟩ := (isConjunction_append hfront).1 h
        obtain ⟨hleft, hright⟩ := hand l last hf
        intro p hp
        rcases List.mem_append.1 hp with hp | hp
        · exact ih hl hleft p hp
        · rwa [List.mem_singleton.1 hp]

/-- A property that passes from both sides to conjunctions passes from the parts to the whole. -/
theorem IsConjunction.of_forall_mem {property : Formula → Prop}
    (hand : ∀ l r, property l → property r → property (.and l r)) {f : Formula}
    {parts : List Formula} (h : f.IsConjunction parts) (hparts : ∀ p ∈ parts, property p) :
    property f := by
  induction parts using List.reverseRecOn generalizing f with
  | nil => exact absurd h id
  | append_singleton front last ih =>
      obtain ⟨hbefore, hlast⟩ := List.forall_mem_append.1 hparts
      have hright : property last := hlast last (List.mem_singleton_self _)
      by_cases hfront : front = []
      · subst hfront
        obtain rfl := isConjunction_singleton.1 h
        exact hright
      · obtain ⟨l, hl, rfl⟩ := (isConjunction_append hfront).1 h
        exact hand l last (ih hl hbefore) hright

/-! ## Splitting -/

theorem splitConjuncts_one (f : Formula) : f.splitConjuncts 1 = some [f] := by
  rw [splitConjuncts.eq_def, if_pos rfl]

/-- Into more than one part only a conjunction can be split, and its right side is the last part. -/
theorem splitConjuncts_eq_some_of_ne_one {f : Formula} {count : Int} (hcount : count ≠ 1)
    {parts : List Formula} :
    f.splitConjuncts count = some parts ↔
      ∃ l r front, f = .and l r ∧ l.splitConjuncts (count - 1) = some front ∧
        front ++ [r] = parts := by
  rw [splitConjuncts.eq_def, if_neg hcount]
  split
  · next l r =>
      constructor
      · intro h
        obtain ⟨front, hfront, h⟩ := Option.bind_eq_some_iff.1 h
        exact ⟨l, r, front, rfl, hfront, Option.some.inj h⟩
      · rintro ⟨l', r', front, heq, hfront, rfl⟩
        obtain ⟨-, rfl, rfl⟩ := Formula.binary.inj heq
        exact Option.bind_eq_some_iff.2 ⟨front, hfront, rfl⟩
  · next hother =>
      constructor
      · intro h
        exact absurd h (by simp)
      · rintro ⟨l, r, front, rfl, -⟩
        exact absurd rfl (hother l r)

/-- Splitting a conjunction into a number of parts gives the parts of which it is the conjunction. -/
theorem splitConjuncts_eq_some_iff {f : Formula} {count : Int} {parts : List Formula} :
    f.splitConjuncts count = some parts ↔ (parts.length : Int) = count ∧ f.IsConjunction parts := by
  induction parts using List.reverseRecOn generalizing f count with
  | nil =>
      by_cases hcount : count = 1
      · simp [splitConjuncts.eq_def, hcount, IsConjunction]
      · rw [splitConjuncts_eq_some_of_ne_one hcount]
        simp [IsConjunction]
  | append_singleton front last ih =>
      rw [List.length_append, List.length_singleton]
      by_cases hcount : count = 1
      · subst hcount
        rw [splitConjuncts_one]
        constructor
        · intro h
          have happend : [] ++ [f] = front ++ [last] := Option.some.inj h
          obtain ⟨rfl, hlast⟩ := List.append_inj' happend rfl
          exact ⟨rfl, (List.cons.inj hlast).1.symm⟩
        · rintro ⟨hlength, h⟩
          obtain rfl : front = [] := List.length_eq_zero_iff.1 (by omega)
          obtain rfl : last = f := h
          rfl
      · rw [splitConjuncts_eq_some_of_ne_one hcount]
        constructor
        · rintro ⟨l, r, front', rfl, hfront, happend⟩
          obtain ⟨rfl, hlast⟩ := List.append_inj' happend rfl
          obtain ⟨rfl, -⟩ := List.cons.inj hlast
          obtain ⟨hlength, hl⟩ := ih.1 hfront
          have hne : front' ≠ [] := by
            rintro rfl
            exact hl
          exact ⟨by push_cast; omega, (isConjunction_append hne).2 ⟨l, hl, rfl⟩⟩
        · rintro ⟨hlength, h⟩
          have hne : front ≠ [] := by
            rintro rfl
            exact hcount (by simpa using hlength.symm)
          obtain ⟨l, hl, rfl⟩ := (isConjunction_append hne).1 h
          exact ⟨l, last, front, rfl, ih.2 ⟨by push_cast at hlength; omega, hl⟩, rfl⟩

/-- There are as many parts as there are premises in whatever order. -/
theorem length_of_splitConjuncts {f : Formula} {parts premises ordering : List Formula}
    (h : f.splitConjuncts premises.length = some parts) (hperm : ordering.Perm premises) :
    parts.length = ordering.length := by
  rw [hperm.length_eq]
  exact_mod_cast (splitConjuncts_eq_some_iff.1 h).1

/-! ## How many parts there can be -/

/-- The number of conjuncts of a conjunction that is nested to the left. -/
def conjunctCount : Formula → Nat
  | .binary .and l _ => l.conjunctCount + 1
  | _ => 1

theorem conjunctCount_pos (f : Formula) : 0 < f.conjunctCount := by
  unfold conjunctCount
  split
  · exact Nat.succ_pos _
  · exact Nat.one_pos

/-- Splitting ends without parts for the numbers that it cannot reach, the negative ones and zero among
    them: they stay away from one however often they are counted down. -/
theorem splitConjuncts_eq_none_iff {f : Formula} {count : Int} :
    f.splitConjuncts count = none ↔ count < 1 ∨ f.conjunctCount < count := by
  fun_induction splitConjuncts f count with
  | case1 f =>
      have hpos := f.conjunctCount_pos
      simp only [reduceCtorEq, false_iff, not_or]
      omega
  | case2 count hcount l r ih =>
      have hnone : (do let parts ← l.splitConjuncts (count - 1); return parts ++ [r]) = none ↔
          l.splitConjuncts (count - 1) = none := by
        cases l.splitConjuncts (count - 1) <;> simp
      rw [hnone, ih, conjunctCount]
      push_cast
      omega
  | case3 f count hcount hother =>
      have hone : f.conjunctCount = 1 := by
        unfold conjunctCount
        split
        · next l r => exact absurd rfl (hother l r)
        · rfl
      simp only [hone, true_iff]
      omega

/-- Splitting undoes the folding of conjunctions: it gives the parts of which the formula is the
    conjunction, as many as were asked for, and it gives none exactly if there are no such parts. This
    is so for the numbers below one and above the number of conjuncts. -/
theorem splitConjuncts_undoes_folding (f : Formula) (count : Int) :
    (∀ parts, f.splitConjuncts count = some parts ↔
      1 ≤ count ∧ parts.length = count ∧ f.IsConjunction parts) ∧
    (f.splitConjuncts count = none ↔
      ¬ ∃ parts : List Formula, 1 ≤ count ∧ parts.length = count ∧ f.IsConjunction parts) ∧
    (f.splitConjuncts count = none ↔ count < 1 ∨ f.conjunctCount < count) := by
  have hsome (parts : List Formula) : f.splitConjuncts count = some parts ↔
      1 ≤ count ∧ parts.length = count ∧ f.IsConjunction parts := by
    rw [splitConjuncts_eq_some_iff]
    refine ⟨fun h => ⟨?_, h⟩, And.right⟩
    cases parts with
    | nil => exact absurd h.2 id
    | cons first rest =>
        have hlength := h.1
        rw [List.length_cons] at hlength
        omega
  refine ⟨hsome, ?_, splitConjuncts_eq_none_iff⟩
  simp only [← hsome, Option.eq_none_iff_forall_ne_some, not_exists, ne_eq]

end Deduction.Formula
