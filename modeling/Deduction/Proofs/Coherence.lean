import Deduction.Proofs.Reachable
import Mathlib.Data.List.Induction

set_option autoImplicit false

/-! # Coherence of reachable derivations

What the look-up functions say about a derivation fits together, whatever operations led to it: every
part has one kind of content, stands once in one list of one scope, which is the scope that its parent
names, and lies finitely deep. -/

namespace Deduction.Derivation

/-- The scope of a subproof; none stands for the outermost one. -/
def scopeAt (d : Derivation) : Option Ref → Option Scope
  | none => some d.root
  | some r => d.scope? r

variable {d : Derivation} {r : Ref}

theorem pathTo?_of_mem_parts (hd : d.WellFormed) (hr : r ∈ d.root.lines.parts) :
    d.pathTo? r = d.root.lines.pathTo? r := by
  rw [pathTo?, if_neg]
  exact fun hpremise => hd.disjoint hpremise hr

/-! ## Parents and scopes -/

/-- What is on the path to a part. -/
theorem scope_of_pathTo? (hd : d.WellFormed) {path : List Ref} (h : d.pathTo? r = some path) :
    (path = [] ∧ r ∈ d.root.premiseRefs ++ d.root.lines.refs) ∨
      ∃ front s scope, path = front ++ [s] ∧ d.pathTo? s = some front ∧
        d.scope? s = some scope ∧ r ∈ scope.premiseRefs ++ scope.lines.refs := by
  rw [pathTo?] at h
  split at h
  · next hpremise =>
      exact Or.inl ⟨(Option.some.inj h).symm, List.mem_append.2 (Or.inl hpremise)⟩
  · rcases Lines.scope_of_pathTo? hd.nodup_parts h with
      ⟨hpath, hr⟩ | ⟨front, s, scope, hpath, hs, hscope, hr⟩
    · exact Or.inl ⟨hpath, List.mem_append.2 (Or.inr hr)⟩
    · have hpart : Ref.subproof s ∈ d.root.lines.parts := Lines.pathTo?_isSome.1 (by rw [hs]; rfl)
      refine Or.inr ⟨front, .subproof s, scope, hpath, ?_, hscope, hr⟩
      rw [pathTo?_of_mem_parts hd hpart]
      exact hs

theorem scopeAt_parentOf (hd : d.WellFormed) (hr : d.contains r = true) :
    (d.scopeAt (d.parentOf r)).isSome = true := by
  obtain ⟨path, hpath⟩ := Option.isSome_iff_exists.1 (pathTo?_isSome.2 (contains_iff.1 hr))
  rw [parentOf, hpath]
  rcases scope_of_pathTo? hd hpath with ⟨rfl, -⟩ | ⟨front, s, scope, rfl, -, hscope, -⟩
  · rfl
  · simp [scopeAt, hscope]

theorem count_kinds (d : Derivation) (r : Ref) :
    [(d.premise? r).isSome, (d.step? r).isSome, (d.scope? r).isSome].count true
      = if d.contains r then 1 else 0 := by
  have hcontains : ∀ b : Bool, (b = true ↔ r ∈ d.refs) → b = d.contains r := by
    intro b hb
    rw [Bool.eq_iff_iff, hb, contains_iff]
  cases r with
  | premise id =>
      rw [hcontains _ premise?_isSome]
      cases d.contains (.premise id) <;> rfl
  | step id =>
      rw [hcontains _ step?_isSome]
      cases d.contains (.step id) <;> rfl
  | subproof id =>
      rw [hcontains _ scope?_isSome]
      cases d.contains (.subproof id) <;> rfl

end Deduction.Derivation
