import Deduction.Proofs.FreeUses

set_option autoImplicit false

/-! # The inference of arities and the free names

The free names of a formula are found from the inside: a quantifier takes its name away from those of
its body. The inference of arities goes from the outside and takes the bound names along, and the map of
what it knows goes with it from use to use. Both come to the same free uses, so the inference adds to
the map the free names that are not bound outside and nothing else; and it fails exactly if a use does
not agree with another one, or with what the map says in the beginning. -/

namespace Deduction.Formula

/-- A name that is not bound outside has a free use that disagrees with another one, or with the number
    of arguments that is known for the name. -/
def Clashes (f : Formula) (bound : List String) (seen : Arities) : Prop :=
  ∃ use ∈ f.freeUses, use.1 ∉ bound ∧
    ((∃ other ∈ f.freeUses, other.1 = use.1 ∧ other.2 ≠ use.2) ∨
      ∃ first, seen.get? use.1 = some first ∧ first ≠ use.2)

instance (f : Formula) (bound : List String) (seen : Arities) : Decidable (f.Clashes bound seen) :=
  have (use : String × Nat) : Decidable (∃ first, seen.get? use.1 = some first ∧ first ≠ use.2) :=
    decidable_of_iff ((seen.get? use.1).any fun first => first ≠ (use.2 : Int))
      (by simp [Option.any_eq_true])
  inferInstanceAs (Decidable (∃ use ∈ f.freeUses, _ ∧ (_ ∨ _)))

variable {f : Formula} {bound : List String} {seen known : Arities}

/-- What the inference knows in the end was known before, or it is the number of arguments at a free use
    of a name that is not bound outside. -/
theorem get?_of_inferArities (h : f.inferArities bound seen = .ok known) (name : String) (k : Int) :
    known.get? name = some k ↔ seen.get? name = some k ∨
      name ∉ bound ∧ ∃ count : Nat, (name, count) ∈ f.freeUses ∧ k = count := by
  rw [inferArities_eq] at h
  rw [Arities.recordAll_spec h]
  simp only [List.mem_filter, decide_eq_true_eq]
  refine or_congr_right ⟨?_, ?_⟩
  · intro huse
    obtain ⟨count, ⟨hmem, hbound⟩, hk⟩ := huse
    exact ⟨hbound, count, hmem, hk⟩
  · intro huse
    obtain ⟨hbound, count, hmem, hk⟩ := huse
    exact ⟨count, ⟨hmem, hbound⟩, hk⟩

theorem clashes_of_inferArities_eq_error {e : ArityConflict}
    (h : f.inferArities bound seen = .error e) : f.Clashes bound seen := by
  rw [inferArities_eq] at h
  obtain ⟨hne, ⟨second, hsecond, hcount⟩, hfirst⟩ := Arities.recordAll_eq_error h
  obtain ⟨hsecond, hbound⟩ := List.mem_filter.1 hsecond
  refine ⟨_, hsecond, of_decide_eq_true hbound, ?_⟩
  rcases hfirst with hfirst | ⟨first, hfirst, hcount'⟩
  · exact .inr ⟨e.first, hfirst, hcount ▸ hne⟩
  · refine .inl ⟨_, (List.mem_filter.1 hfirst).1, rfl, fun heq => hne ?_⟩
    rw [hcount, hcount']
    exact congrArg _ heq

theorem not_clashes_of_inferArities (h : f.inferArities bound seen = .ok known) :
    ¬ f.Clashes bound seen := by
  have hspec := get?_of_inferArities h
  intro hclash
  obtain ⟨⟨name, count⟩, huse, hbound, hother⟩ := hclash
  have hknown : known.get? name = some (count : Int) :=
    (hspec name count).2 (.inr ⟨hbound, count, huse, rfl⟩)
  rcases hother with ⟨⟨_, other⟩, hmem, rfl, hne⟩ | ⟨first, hfirst, hne⟩
  · have hother := (hspec _ other).2 (.inr ⟨hbound, other, hmem, rfl⟩)
    rw [hknown] at hother
    exact hne (Int.ofNat.inj (Option.some.inj hother)).symm
  · have hkept := (hspec name first).2 (.inl hfirst)
    rw [hknown] at hkept
    exact hne (Option.some.inj hkept).symm

theorem mem_names_of_inferArities (h : f.inferArities bound seen = .ok known) (name : String) :
    name ∈ known.names ↔ name ∈ seen.names ∨ name ∈ f.freeNames ∧ name ∉ bound := by
  have hspec := get?_of_inferArities h name
  rw [Assoc.mem_names_iff, Assoc.mem_names_iff, mem_freeNames_iff_freeUses]
  refine ⟨?_, ?_⟩
  · intro hname
    obtain ⟨k, hk⟩ := hname
    rcases (hspec k).1 hk with hbefore | ⟨hbound, count, hmem, -⟩
    · exact .inl ⟨k, hbefore⟩
    · exact .inr ⟨⟨count, hmem⟩, hbound⟩
  · intro hname
    rcases hname with ⟨k, hk⟩ | ⟨⟨count, hmem⟩, hbound⟩
    · exact ⟨k, (hspec k).2 (.inl hk)⟩
    · exact ⟨count, (hspec count).2 (.inr ⟨hbound, count, hmem, rfl⟩)⟩

/-- The inference of arities fails exactly if there is a clash. Otherwise the map keeps what it says and
    gets the free names that are not bound outside, each with the number of arguments at its uses. -/
theorem inferArities_agrees (f : Formula) (bound : List String) (seen : Arities) :
    ((∃ e, f.inferArities bound seen = .error e) ↔ f.Clashes bound seen) ∧
    (¬ f.Clashes bound seen → ∃ known, f.inferArities bound seen = .ok known ∧
      seen.Extends known ∧
      (∀ name, name ∈ known.names ↔ name ∈ seen.names ∨ name ∈ f.freeNames ∧ name ∉ bound) ∧
      ∀ name count, (name, count) ∈ f.freeUses → name ∉ bound →
        known.get? name = some (count : Int)) := by
  cases h : f.inferArities bound seen with
  | error e =>
      have hclash := clashes_of_inferArities_eq_error h
      exact ⟨⟨fun _ => hclash, fun _ => ⟨e, rfl⟩⟩, fun hno => absurd hclash hno⟩
  | ok known =>
      have hspec := get?_of_inferArities h
      have hno : ¬ f.Clashes bound seen := not_clashes_of_inferArities h
      refine ⟨by simp [hno], ?_⟩
      intro _
      refine ⟨known, rfl, ?_, mem_names_of_inferArities h, ?_⟩
      · intro name k hk
        exact (hspec name k).2 (.inl hk)
      · intro name count hmem hbound
        exact (hspec name count).2 (.inr ⟨hbound, count, hmem, rfl⟩)

/-- In `x & forall x, F(x(y), z)` one use of `x` is free and the other one is not, so they do not clash;
    `z` is bound outside, and `F` is known. The two uses of `F` in `F(F(p), q)` do clash. -/
theorem inferArities_agrees_shadowed :
    let f := Formula.and (.var "x") (.quant .all "x" (.app "F" [.app "x" [.var "y"], .var "z"]))
    let seen : Arities := [("F", 2), ("w", -3)]
    (∃ known, f.inferArities ["z"] seen = .ok known ∧ seen.Extends known ∧
      (∀ name, name ∈ known.names ↔ name ∈ seen.names ∨ name ∈ f.freeNames ∧ name ∉ ["z"]) ∧
      known.get? "x" = some 0 ∧ known.get? "y" = some 0) ∧
    ∃ e, (Formula.app "F" [.app "F" [.var "p"], .var "q"]).inferArities [] [] = .error e := by
  intro f seen
  obtain ⟨known, hknown, hextends, hnames, huses⟩ :=
    (inferArities_agrees f ["z"] seen).2 (by decide)
  refine ⟨⟨known, hknown, hextends, hnames, ?_, ?_⟩, (inferArities_agrees _ [] []).1.2 (by decide)⟩
  · exact huses "x" 0 (by decide) (by decide)
  · exact huses "y" 0 (by decide) (by decide)

end Deduction.Formula
