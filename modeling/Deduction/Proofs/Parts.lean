import Deduction.Derivation.Order
import Mathlib.Data.List.Basic
import Mathlib.Data.List.Nodup

set_option autoImplicit false

/-! # The parts of a derivation

All that a reference leads to, in document order, and what the look-up functions say about it: each of
them finds exactly the parts of its kind, and if no part occurs twice then the path to a part ends at
the scope that lists it. -/

namespace Deduction

theorem Ref.mem_sorted {refs : List Ref} {r : Ref} : r ∈ Ref.sorted refs ↔ r ∈ refs := by
  simp [Ref.sorted]

theorem nodup_eraseDups {α : Type} [DecidableEq α] (xs : List α) : xs.eraseDups.Nodup := by
  induction hn : xs.length using Nat.strongRecOn generalizing xs with
  | ind n ih =>
      cases xs with
      | nil => simp
      | cons x xs =>
          have hlength : (xs.filter fun y => !y == x).length < n := by
            have hle := List.length_filter_le (fun y => !y == x) xs
            rw [List.length_cons] at hn
            omega
          rw [List.eraseDups_cons, List.nodup_cons]
          exact ⟨by simp, ih _ hlength _ rfl⟩

theorem Ref.nodup_sorted (refs : List Ref) : (Ref.sorted refs).Nodup :=
  (List.mergeSort_perm _ _).nodup_iff.2 (nodup_eraseDups refs)

theorem find?_premise_isSome {id : Int} {premises : List Premise} :
    (premises.find? (·.id == id)).isSome = true ↔ .premise id ∈ premises.map Premise.ref := by
  simp [List.find?_isSome, Premise.ref]

theorem find?_premise_eq_none {id : Int} {premises : List Premise}
    (h : .premise id ∉ premises.map Premise.ref) : premises.find? (·.id == id) = none := by
  rw [← Option.not_isSome_iff_eq_none, find?_premise_isSome]
  exact h

theorem find?_premise_of_mem {premises : List Premise} (h : (premises.map Premise.ref).Nodup)
    {p : Premise} (hp : p ∈ premises) : premises.find? (·.id == p.id) = some p := by
  obtain ⟨q, hq⟩ := Option.isSome_iff_exists.1 (find?_premise_isSome.2 (List.mem_map_of_mem hp))
  have hid : q.id = p.id := by simpa using List.find?_some hq
  rw [hq, List.inj_on_of_nodup_map h (List.mem_of_find?_eq_some hq) hp (congrArg Ref.premise hid)]

/-! ## Parts of lines -/

namespace Lines

/-- Every part of the lines, in document order. -/
def parts : Lines → List Ref
  | .nil => []
  | .step id _ rest => .step id :: rest.parts
  | .subproof id premises body rest =>
    .subproof id :: (premises.map Premise.ref ++ (body.parts ++ rest.parts))

theorem walk_map_snd (depth : Nat) (L : Lines) : (L.walk depth).map Prod.snd = L.parts := by
  induction L generalizing depth with
  | nil => rfl
  | step id content rest ih =>
      simp only [walk, parts, List.map_cons]
      rw [ih]
  | subproof id premises body rest ihbody ihrest =>
      simp only [walk, parts, List.map_append, List.map_cons, List.cons_append, List.append_assoc,
        List.map_map]
      rw [ihbody, ihrest]
      rfl

theorem mem_parts_subproof {r : Ref} {id : Int} {premises : List Premise} {body rest : Lines} :
    r ∈ (Lines.subproof id premises body rest).parts ↔
      r = .subproof id ∨ r ∈ premises.map Premise.ref ∨ r ∈ body.parts ∨ r ∈ rest.parts := by
  simp only [parts, List.mem_cons, List.mem_append]

theorem refs_sublist_parts (L : Lines) : L.refs.Sublist L.parts := by
  induction L with
  | nil => exact List.Sublist.refl []
  | step id content rest ih => exact ih.cons_cons _
  | subproof id premises body rest _ ih =>
      refine List.Sublist.cons_cons _ (ih.trans ?_)
      rw [← List.append_assoc]
      exact List.sublist_append_right _ _

theorem findStep?_isSome {id : Int} {L : Lines} :
    (L.findStep? id).isSome = true ↔ .step id ∈ L.parts := by
  induction L with
  | nil => simp [findStep?, parts]
  | step i content rest ih =>
      by_cases hi : i = id
      · simp [findStep?, parts, hi]
      · simp [findStep?, parts, hi, Ne.symm hi, ih]
  | subproof i premises body rest ihbody ihrest =>
      rw [mem_parts_subproof, ← ihbody, ← ihrest]
      cases hbody : body.findStep? id <;> simp [findStep?, hbody, Premise.ref]

theorem findScope?_isSome {id : Int} {L : Lines} :
    (L.findScope? id).isSome = true ↔ .subproof id ∈ L.parts := by
  induction L with
  | nil => simp [findScope?, parts]
  | step i content rest ih => simp [findScope?, parts, ih]
  | subproof i premises body rest ihbody ihrest =>
      rw [mem_parts_subproof, ← ihbody, ← ihrest]
      by_cases hi : i = id
      · simp [findScope?, hi]
      · cases hbody : body.findScope? id <;>
          simp [findScope?, hbody, hi, Ne.symm hi, Premise.ref]

theorem findPremise?_isSome {id : Int} {L : Lines} :
    (L.findPremise? id).isSome = true ↔ .premise id ∈ L.parts := by
  induction L with
  | nil => simp [findPremise?, parts]
  | step i content rest ih => simp [findPremise?, parts, ih]
  | subproof i premises body rest ihbody ihrest =>
      rw [mem_parts_subproof, ← ihbody, ← ihrest]
      rw [← find?_premise_isSome]
      cases hfind : premises.find? (·.id == id) <;> cases hbody : body.findPremise? id <;>
        simp [findPremise?, hfind, hbody]

theorem pathTo?_isSome {r : Ref} {L : Lines} :
    (L.pathTo? r).isSome = true ↔ r ∈ L.parts := by
  induction L with
  | nil => simp [pathTo?, parts]
  | step i content rest ih =>
      by_cases hr : r = .step i
      · simp [pathTo?, parts, hr]
      · simp [pathTo?, parts, hr, ih]
  | subproof i premises body rest ihbody ihrest =>
      rw [mem_parts_subproof, ← ihbody, ← ihrest]
      by_cases hr : r = .subproof i
      · simp [pathTo?, hr]
      · by_cases hpremise : r ∈ premises.map Premise.ref
        · rw [pathTo?, if_neg hr, if_pos hpremise]
          simp [hpremise]
        · rw [pathTo?, if_neg hr, if_neg hpremise]
          cases hbody : body.pathTo? r <;> simp [hr, hpremise]

theorem pathTo?_eq_none {r : Ref} {L : Lines} : L.pathTo? r = none ↔ r ∉ L.parts := by
  rw [← pathTo?_isSome]
  simp

/-! ## Paths and scopes -/

/-- What is nested in a subproof is part of the lines. -/
theorem findScope?_sublist {s : Int} {scope : Scope} {L : Lines} (h : L.findScope? s = some scope) :
    (scope.premiseRefs ++ scope.lines.parts).Sublist L.parts := by
  induction L with
  | nil => exact absurd h (by simp [findScope?])
  | step i content rest ih => exact (ih h).cons _
  | subproof i premises body rest ihbody ihrest =>
      rw [findScope?] at h
      refine List.Sublist.cons _ ?_
      split at h
      · obtain rfl := Option.some.inj h
        exact (List.Sublist.refl _).append (List.sublist_append_left _ _)
      · split at h
        · next hbody =>
            obtain rfl := Option.some.inj h
            exact ((ihbody hbody).trans (List.sublist_append_left _ _)).trans
              (List.sublist_append_right _ _)
        · exact ((ihrest h).trans (List.sublist_append_right _ _)).trans
            (List.sublist_append_right _ _)

/-- Parts that occur once: in a subproof they are either its premises or in its lines, and none of
    them comes again behind it. -/
theorem nodup_parts_subproof {id : Int} {premises : List Premise} {body rest : Lines}
    (h : (Lines.subproof id premises body rest).parts.Nodup) :
    (Ref.subproof id ∉ body.parts ∧ Ref.subproof id ∉ rest.parts) ∧
      (∀ r ∈ premises.map Premise.ref, r ∉ body.parts ∧ r ∉ rest.parts) ∧
      (∀ r ∈ body.parts, r ∉ rest.parts) ∧ body.parts.Nodup ∧ rest.parts.Nodup := by
  simp only [parts, List.nodup_cons, List.mem_append, not_or] at h
  obtain ⟨⟨-, hbody, hrest⟩, hinner⟩ := h
  obtain ⟨-, hlines, hpremises⟩ := List.nodup_append.1 hinner
  obtain ⟨hnodupBody, hnodupRest, hdisjoint⟩ := List.nodup_append.1 hlines
  refine ⟨⟨hbody, hrest⟩, fun r hr => ?_, fun r hr hr' => hdisjoint r hr r hr' rfl, hnodupBody,
    hnodupRest⟩
  exact ⟨fun hr' => hpremises r hr r (List.mem_append.2 (Or.inl hr')) rfl,
    fun hr' => hpremises r hr r (List.mem_append.2 (Or.inr hr')) rfl⟩

theorem nodup_parts_step {id : Int} {content : Step} {rest : Lines}
    (h : (Lines.step id content rest).parts.Nodup) :
    Ref.step id ∉ rest.parts ∧ rest.parts.Nodup :=
  List.nodup_cons.1 h

/-- The path to a part of the rest is the one there. -/
theorem pathTo?_step_of_mem {id : Int} {content : Step} {rest : Lines} {r : Ref}
    (h : (Lines.step id content rest).parts.Nodup) (hr : r ∈ rest.parts) :
    (Lines.step id content rest).pathTo? r = rest.pathTo? r := by
  rw [pathTo?, if_neg]
  rintro rfl
  exact (nodup_parts_step h).1 hr

theorem pathTo?_subproof_of_mem_premises {id : Int} {premises : List Premise} {body rest : Lines}
    {r : Ref} (hr : r ∈ premises.map Premise.ref) :
    (Lines.subproof id premises body rest).pathTo? r = some [.subproof id] := by
  rw [pathTo?, if_neg, if_pos hr]
  rintro rfl
  exact absurd hr (by simp [Premise.ref])

theorem pathTo?_subproof_of_mem_body {id : Int} {premises : List Premise} {body rest : Lines}
    {r : Ref} (h : (Lines.subproof id premises body rest).parts.Nodup) (hr : r ∈ body.parts) :
    (Lines.subproof id premises body rest).pathTo? r = (body.pathTo? r).map (.subproof id :: ·) := by
  obtain ⟨⟨hbody, -⟩, hpremises, -⟩ := nodup_parts_subproof h
  obtain ⟨path, hpath⟩ := Option.isSome_iff_exists.1 (pathTo?_isSome.2 hr)
  rw [pathTo?, if_neg, if_neg, hpath]
  · rfl
  · exact fun hr' => (hpremises r hr').1 hr
  · rintro rfl
    exact hbody hr

theorem pathTo?_subproof_of_mem_rest {id : Int} {premises : List Premise} {body rest : Lines}
    {r : Ref} (h : (Lines.subproof id premises body rest).parts.Nodup) (hr : r ∈ rest.parts) :
    (Lines.subproof id premises body rest).pathTo? r = rest.pathTo? r := by
  obtain ⟨⟨-, hrest⟩, hpremises, hdisjoint, -⟩ := nodup_parts_subproof h
  rw [pathTo?, if_neg, if_neg, pathTo?_eq_none.2 fun hr' => hdisjoint r hr' hr]
  · exact fun hr' => (hpremises r hr').2 hr
  · rintro rfl
    exact hrest hr

/-- The path to a part leads through the subproof that lists it, if there is one. -/
theorem scope_of_pathTo? {L : Lines} (hL : L.parts.Nodup) {r : Ref} {path : List Ref}
    (h : L.pathTo? r = some path) :
    (path = [] ∧ r ∈ L.refs) ∨
      ∃ front s scope, path = front ++ [.subproof s] ∧ L.pathTo? (.subproof s) = some front ∧
        L.findScope? s = some scope ∧ r ∈ scope.premiseRefs ++ scope.lines.refs := by
  induction L generalizing path with
  | nil => exact absurd h (by simp [pathTo?])
  | step i content rest ih =>
      rw [pathTo?] at h
      split at h
      · next hr =>
          obtain rfl := Option.some.inj h
          exact Or.inl ⟨rfl, hr ▸ List.mem_cons_self ..⟩
      · rcases ih (nodup_parts_step hL).2 h with ⟨rfl, hr⟩ | ⟨front, s, scope, rfl, hs, hscope, hr⟩
        · exact Or.inl ⟨rfl, List.mem_cons_of_mem _ hr⟩
        · refine Or.inr ⟨front, s, scope, rfl, ?_, hscope, hr⟩
          rw [pathTo?_step_of_mem hL (pathTo?_isSome.1 (by rw [hs]; rfl))]
          exact hs
  | subproof i premises body rest ihbody ihrest =>
      obtain ⟨⟨hi, -⟩, -, hdisjoint, hbody, hrest⟩ := nodup_parts_subproof hL
      have hhere : (Lines.subproof i premises body rest).pathTo? (.subproof i) = some [] := by
        simp [pathTo?]
      have hscope : (Lines.subproof i premises body rest).findScope? i = some ⟨premises, body⟩ := by
        simp [findScope?]
      rw [pathTo?] at h
      split at h
      · next hr =>
          obtain rfl := Option.some.inj h
          exact Or.inl ⟨rfl, hr ▸ List.mem_cons_self ..⟩
      · split at h
        · next hr =>
            obtain rfl := Option.some.inj h
            exact Or.inr ⟨[], i, _, rfl, hhere, hscope, List.mem_append.2 (Or.inl hr)⟩
        · split at h
          · next path' hpath =>
              obtain rfl := Option.some.inj h
              -- an empty path inside ends at this subproof, any other one at a subproof inside
              rcases ihbody hbody hpath with ⟨rfl, hr⟩ | ⟨front, s, scope, rfl, hs, hfound, hr⟩
              · exact Or.inr ⟨[], i, _, rfl, hhere, hscope, List.mem_append.2 (Or.inr hr)⟩
              · have hpart : Ref.subproof s ∈ body.parts := pathTo?_isSome.1 (by rw [hs]; rfl)
                have hne : i ≠ s := by
                  rintro rfl
                  exact hi hpart
                refine Or.inr ⟨.subproof i :: front, s, scope, rfl, ?_, ?_, hr⟩
                · rw [pathTo?_subproof_of_mem_body hL hpart, hs]
                  rfl
                · rw [findScope?, if_neg hne, hfound]
          · rcases ihrest hrest h with ⟨rfl, hr⟩ | ⟨front, s, scope, rfl, hs, hfound, hr⟩
            · exact Or.inl ⟨rfl, List.mem_cons_of_mem _ hr⟩
            · have hpart : Ref.subproof s ∈ rest.parts := pathTo?_isSome.1 (by rw [hs]; rfl)
              have hnone : body.findScope? s = none := by
                rw [← Option.not_isSome_iff_eq_none, findScope?_isSome]
                exact fun hbody' => hdisjoint _ hbody' hpart
              have hne : i ≠ s := by
                rintro rfl
                exact (nodup_parts_subproof hL).1.2 hpart
              refine Or.inr ⟨front, s, scope, rfl, ?_, ?_, hr⟩
              · rw [pathTo?_subproof_of_mem_rest hL hpart, hs]
              · rw [findScope?, if_neg hne, hnone]
                exact hfound

/-! ## Contents -/

/-- Every premise of the lines, at any depth. -/
def premises : Lines → List Premise
  | .nil => []
  | .step _ _ rest => rest.premises
  | .subproof _ own body rest => own ++ (body.premises ++ rest.premises)

/-- Every step of the lines with its number, at any depth. -/
def steps : Lines → List (Int × Step)
  | .nil => []
  | .step id content rest => (id, content) :: rest.steps
  | .subproof _ _ body rest => body.steps ++ rest.steps

theorem ref_mem_parts {L : Lines} {p : Premise} (h : p ∈ L.premises) : p.ref ∈ L.parts := by
  induction L with
  | nil => exact absurd h (by simp [premises])
  | step id content rest ih => exact List.mem_cons_of_mem _ (ih h)
  | subproof id own body rest ihbody ihrest =>
      rw [mem_parts_subproof]
      simp only [premises, List.mem_append] at h
      rcases h with h | h | h
      · exact .inr (.inl (List.mem_map_of_mem h))
      · exact .inr (.inr (.inl (ihbody h)))
      · exact .inr (.inr (.inr (ihrest h)))

theorem step_mem_parts {L : Lines} {id : Int} {content : Step} (h : (id, content) ∈ L.steps) :
    .step id ∈ L.parts := by
  induction L with
  | nil => exact absurd h (by simp [steps])
  | step i content' rest ih =>
      rcases List.mem_cons.1 h with h | h
      · obtain ⟨rfl, rfl⟩ := Prod.mk.inj h
        exact List.mem_cons_self ..
      · exact List.mem_cons_of_mem _ (ih h)
  | subproof i own body rest ihbody ihrest =>
      rw [mem_parts_subproof]
      rcases List.mem_append.1 h with h | h
      · exact .inr (.inr (.inl (ihbody h)))
      · exact .inr (.inr (.inr (ihrest h)))

theorem findPremise?_of_mem {L : Lines} (hL : L.parts.Nodup) {p : Premise} (h : p ∈ L.premises) :
    L.findPremise? p.id = some p := by
  induction L with
  | nil => exact absurd h (by simp [premises])
  | step id content rest ih => exact ih (nodup_parts_step hL).2 h
  | subproof id own body rest ihbody ihrest =>
      obtain ⟨-, hown, hdisjoint, hbody, hrest⟩ := nodup_parts_subproof hL
      simp only [premises, List.mem_append] at h
      rcases h with h | h | h
      · have hnodup : (own.map Premise.ref).Nodup :=
          (List.nodup_append.1 (List.nodup_cons.1 hL).2).1
        rw [findPremise?, find?_premise_of_mem hnodup h]
      · have hnone : own.find? (·.id == p.id) = none :=
          find?_premise_eq_none fun hp => (hown _ hp).1 (ref_mem_parts h)
        rw [findPremise?, hnone, ihbody hbody h]
      · have hnone : own.find? (·.id == p.id) = none :=
          find?_premise_eq_none fun hp => (hown _ hp).2 (ref_mem_parts h)
        have hbodyNone : body.findPremise? p.id = none := by
          rw [← Option.not_isSome_iff_eq_none, findPremise?_isSome]
          exact fun hp => hdisjoint _ hp (ref_mem_parts h)
        rw [findPremise?, hnone, hbodyNone, ihrest hrest h]

theorem mem_premises_of_findPremise? {L : Lines} {id : Int} {p : Premise}
    (h : L.findPremise? id = some p) : p ∈ L.premises ∧ p.id = id := by
  induction L with
  | nil => exact absurd h (by simp [findPremise?])
  | step i content rest ih => exact ih h
  | subproof i own body rest ihbody ihrest =>
      simp only [premises, List.mem_append]
      rw [findPremise?] at h
      split at h
      · next hown =>
          obtain rfl := Option.some.inj h
          exact ⟨.inl (List.mem_of_find?_eq_some hown), by simpa using List.find?_some hown⟩
      · split at h
        · next hbody =>
            obtain rfl := Option.some.inj h
            exact ⟨.inr (.inl (ihbody hbody).1), (ihbody hbody).2⟩
        · exact ⟨.inr (.inr (ihrest h).1), (ihrest h).2⟩

theorem mem_steps_of_findStep? {L : Lines} {id : Int} {content : Step}
    (h : L.findStep? id = some content) : (id, content) ∈ L.steps := by
  induction L with
  | nil => exact absurd h (by simp [findStep?])
  | step i content' rest ih =>
      rw [findStep?] at h
      split at h
      · next hi =>
          obtain rfl := Option.some.inj h
          rw [hi]
          exact List.mem_cons_self ..
      · exact List.mem_cons_of_mem _ (ih h)
  | subproof i own body rest ihbody ihrest =>
      rw [findStep?] at h
      split at h
      · next hbody =>
          obtain rfl := Option.some.inj h
          exact List.mem_append.2 (.inl (ihbody hbody))
      · exact List.mem_append.2 (.inr (ihrest h))

theorem findStep?_of_mem {L : Lines} (hL : L.parts.Nodup) {id : Int} {content : Step}
    (h : (id, content) ∈ L.steps) : L.findStep? id = some content := by
  induction L with
  | nil => exact absurd h (by simp [steps])
  | step i content' rest ih =>
      obtain ⟨hi, hrest⟩ := nodup_parts_step hL
      rcases List.mem_cons.1 h with h | h
      · obtain ⟨rfl, rfl⟩ := Prod.mk.inj h
        rw [findStep?, if_pos rfl]
      · have hne : i ≠ id := by
          rintro rfl
          exact hi (step_mem_parts h)
        rw [findStep?, if_neg hne, ih hrest h]
  | subproof i own body rest ihbody ihrest =>
      obtain ⟨-, -, hdisjoint, hbody, hrest⟩ := nodup_parts_subproof hL
      rcases List.mem_append.1 h with h | h
      · rw [findStep?, ihbody hbody h]
      · have hnone : body.findStep? id = none := by
          rw [← Option.not_isSome_iff_eq_none, findStep?_isSome]
          exact fun hmem => hdisjoint _ hmem (step_mem_parts h)
        rw [findStep?, hnone, ihrest hrest h]

end Lines

/-! ## Parts of a derivation -/

theorem Scope.refs_eq (s : Scope) : s.refs = s.premiseRefs ++ s.lines.parts := by
  simp only [Scope.refs, Scope.walk, List.map_append, List.map_map, Lines.walk_map_snd]
  rfl

namespace Derivation

variable {d : Derivation} {r : Ref}

theorem mem_refs : r ∈ d.refs ↔ r ∈ d.root.premiseRefs ∨ r ∈ d.root.lines.parts := by
  rw [refs, Scope.refs_eq, List.mem_append]

theorem contains_iff : d.contains r = true ↔ r ∈ d.refs := List.contains_iff_mem

theorem pathTo?_isSome : (d.pathTo? r).isSome = true ↔ r ∈ d.refs := by
  rw [pathTo?, mem_refs]
  split
  · next h => simp [h]
  · next h => simp [h, Lines.pathTo?_isSome]

theorem premise?_isSome {id : Int} :
    (d.premise? (.premise id)).isSome = true ↔ .premise id ∈ d.refs := by
  rw [mem_refs, Scope.premiseRefs, ← find?_premise_isSome, ← Lines.findPremise?_isSome, premise?]
  cases hfind : d.root.premises.find? (·.id == id) <;> simp

theorem step?_isSome {id : Int} : (d.step? (.step id)).isSome = true ↔ .step id ∈ d.refs := by
  rw [mem_refs, step?, Lines.findStep?_isSome]
  simp [Scope.premiseRefs, Premise.ref]

theorem scope?_isSome {id : Int} :
    (d.scope? (.subproof id)).isSome = true ↔ .subproof id ∈ d.refs := by
  rw [mem_refs, scope?, Lines.findScope?_isSome]
  simp [Scope.premiseRefs, Premise.ref]

theorem mem_refs_of_step? {content : Step} (h : d.step? r = some content) : r ∈ d.refs := by
  cases r with
  | step id => exact step?_isSome.1 (by rw [h]; rfl)
  | premise id => exact absurd h (by simp [step?])
  | subproof id => exact absurd h (by simp [step?])

theorem mem_refs_of_formulaOf {f : Formula} (h : d.formulaOf r = some f) : r ∈ d.refs := by
  cases r with
  | premise id =>
      obtain ⟨p, hp, -⟩ := Option.bind_eq_some_iff.1 h
      exact premise?_isSome.1 (by rw [hp]; rfl)
  | step id =>
      obtain ⟨content, hcontent, -⟩ := Option.bind_eq_some_iff.1 h
      exact mem_refs_of_step? hcontent
  | subproof id => exact absurd h (by simp [formulaOf])

theorem step?_eq_some (hd : d.root.lines.parts.Nodup) {id : Int} {content : Step} :
    d.step? (.step id) = some content ↔ (id, content) ∈ d.root.lines.steps :=
  ⟨Lines.mem_steps_of_findStep?, Lines.findStep?_of_mem hd⟩

theorem mem_of_premise? {p : Premise} (h : d.premise? r = some p) :
    p ∈ d.root.premises ++ d.root.lines.premises ∧ p.ref = r := by
  cases r with
  | premise id =>
      rw [premise?] at h
      split at h
      · next hroot =>
          rw [Option.some.inj h] at hroot
          have hid : p.id = id := by simpa using List.find?_some hroot
          exact ⟨List.mem_append_left _ (List.mem_of_find?_eq_some hroot), by rw [Premise.ref, hid]⟩
      · obtain ⟨hp, hid⟩ := Lines.mem_premises_of_findPremise? h
        exact ⟨List.mem_append_right _ hp, by rw [Premise.ref, hid]⟩
  | step id => exact absurd h (by simp [premise?])
  | subproof id => exact absurd h (by simp [premise?])

theorem premise?_of_mem (hd : d.refs.Nodup) {p : Premise}
    (h : p ∈ d.root.premises ++ d.root.lines.premises) : d.premise? p.ref = some p := by
  rw [refs, Scope.refs_eq] at hd
  obtain ⟨hroot, hlines, hdisjoint⟩ := List.nodup_append.1 hd
  rw [Premise.ref, premise?]
  rcases List.mem_append.1 h with h | h
  · rw [find?_premise_of_mem hroot h]
  · have hnone : d.root.premises.find? (·.id == p.id) = none :=
      find?_premise_eq_none fun hp => hdisjoint _ hp _ (Lines.ref_mem_parts h) rfl
    rw [hnone, Lines.findPremise?_of_mem hlines h]

end Derivation

end Deduction
