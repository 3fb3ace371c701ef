import Deduction.Proofs.Survivors

set_option autoImplicit false

/-! # What is nested in a subproof

The parts that a subproof is around are those of its scope, and in the walk through a derivation they
stand together, right behind the subproof. Removing the subproof takes out this piece and nothing
else. -/

namespace Deduction

namespace Lines

variable {F : Frame} {L M N : Lines} {r : Ref}

/-! ## Look-up in a frame -/

theorem findScope?_fill {id : Int} (hF : .subproof id ∉ (F.fill .nil).parts) :
    (F.fill M).findScope? id = M.findScope? id := by
  have hnone {N : Lines} (hN : Ref.subproof id ∉ N.parts) : N.findScope? id = none := by
    rw [← Option.not_isSome_iff_eq_none, findScope?_isSome]
    exact hN
  induction F with
  | gap => rfl
  | step i content rest ih => exact ih fun hrest => hF (List.mem_cons_of_mem _ hrest)
  | inside i premises body rest ih =>
      simp only [Frame.fill, mem_parts_subproof, not_or] at hF
      rw [Frame.fill, findScope?, if_neg fun hi => hF.1 (congrArg Ref.subproof hi.symm), ih hF.2.2.1,
        hnone hF.2.2.2]
      cases M.findScope? id <;> rfl
  | behind i premises body rest ih =>
      simp only [Frame.fill, mem_parts_subproof, not_or] at hF
      rw [Frame.fill, findScope?, if_neg fun hi => hF.1 (congrArg Ref.subproof hi.symm),
        hnone hF.2.2.1]
      exact ih hF.2.2.2

/-- The path to what is in the gap leads through the frame first. -/
theorem exists_path_fill (F : Frame) :
    ∃ around : List Ref, (∀ x ∈ around, x ∈ (F.fill .nil).parts) ∧
      ∀ M r, (F.fill M).parts.Nodup → r ∈ M.parts →
        (F.fill M).pathTo? r = (M.pathTo? r).map (around ++ ·) := by
  induction F with
  | gap => exact ⟨[], by simp, fun M r _ _ => by simp [Frame.fill]⟩
  | step id content rest ih =>
      obtain ⟨around, haround, hpath⟩ := ih
      refine ⟨around, fun x hx => List.mem_cons_of_mem _ (haround x hx), fun M r hnodup hr => ?_⟩
      rw [Frame.fill, pathTo?_step_of_mem hnodup (Frame.mem_parts_fill.2 (.inl hr))]
      exact hpath M r (nodup_parts_step hnodup).2 hr
  | inside id premises body rest ih =>
      obtain ⟨around, haround, hpath⟩ := ih
      refine ⟨.subproof id :: around, fun x hx => ?_, fun M r hnodup hr => ?_⟩
      · rcases List.mem_cons.1 hx with rfl | hx
        · exact mem_parts_subproof.2 (.inl rfl)
        · exact mem_parts_subproof.2 (.inr (.inr (.inl (haround x hx))))
      · obtain ⟨-, -, -, hbody, -⟩ := nodup_parts_subproof hnodup
        rw [Frame.fill, pathTo?_subproof_of_mem_body hnodup (Frame.mem_parts_fill.2 (.inl hr)),
          hpath M r hbody hr, Option.map_map]
        rfl
  | behind id premises body rest ih =>
      obtain ⟨around, haround, hpath⟩ := ih
      refine ⟨around, fun x hx => ?_, fun M r hnodup hr => ?_⟩
      · exact mem_parts_subproof.2 (.inr (.inr (.inr (haround x hx))))
      · obtain ⟨-, -, -, -, hrest⟩ := nodup_parts_subproof hnodup
        rw [Frame.fill, pathTo?_subproof_of_mem_rest hnodup (Frame.mem_parts_fill.2 (.inl hr)),
          hpath M r hrest hr]

theorem Remains.fill (h : M.Remains N) (F : Frame) : (F.fill M).Remains (F.fill N) := by
  induction F with
  | gap => exact h
  | step id content rest ih => exact .step id content ih
  | inside id premises body rest ih => exact .subproof id (List.Sublist.refl _) ih (.refl rest)
  | behind id premises body rest ih => exact .subproof id (List.Sublist.refl _) (.refl body) ih

/-- A subproof is on the path to its premises and to what is among its lines, and not on the path to
    what comes behind it. -/
theorem mem_path_iff_of_head {id : Int} {premises : List Premise} {body rest : Lines}
    {path : List Ref} (hnodup : (Lines.subproof id premises body rest).parts.Nodup)
    (h : (Lines.subproof id premises body rest).pathTo? r = some path) :
    .subproof id ∈ path ↔ r ∈ premises.map Premise.ref ∨ r ∈ body.parts := by
  by_cases hinside : r ∈ premises.map Premise.ref ∨ r ∈ body.parts
  · refine iff_of_true ?_ hinside
    obtain ⟨path', hpath'⟩ := exists_path_inside hnodup hinside
    rw [h] at hpath'
    rw [Option.some.inj hpath']
    exact List.mem_cons_self ..
  · refine iff_of_false (fun hmem => ?_) hinside
    obtain ⟨hpremises, hbody⟩ := not_or.1 hinside
    have hr : r ∈ (Lines.subproof id premises body rest).parts := pathTo?_isSome.1 (by rw [h]; rfl)
    rcases mem_parts_subproof.1 hr with rfl | hr | hr | hr
    · rw [pathTo?, if_pos rfl] at h
      rw [← Option.some.inj h] at hmem
      exact absurd hmem (by simp)
    · exact hpremises hr
    · exact hbody hr
    · rw [pathTo?_subproof_of_mem_rest hnodup hr] at h
      exact subproof_not_mem_path hnodup h hmem

/-- The same in a frame: a subproof is on no path to a part of the frame. -/
theorem mem_path_iff_of_fill {id : Int} {premises : List Premise} {body rest : Lines}
    {path : List Ref} (hnodup : (F.fill (.subproof id premises body rest)).parts.Nodup)
    (h : (F.fill (.subproof id premises body rest)).pathTo? r = some path) :
    .subproof id ∈ path ↔ r ∈ premises.map Premise.ref ∨ r ∈ body.parts := by
  have hid : Ref.subproof id ∉ (F.fill .nil).parts :=
    Frame.not_mem_of_nodup hnodup (mem_parts_subproof.2 (.inl rfl))
  have hr : r ∈ (F.fill (.subproof id premises body rest)).parts :=
    pathTo?_isSome.1 (by rw [h]; rfl)
  rcases Frame.mem_parts_fill.1 hr with hr | hr
  · obtain ⟨around, haround, hfill⟩ := exists_path_fill F
    rw [hfill _ r hnodup hr] at h
    obtain ⟨path', hpath', rfl⟩ := Option.map_eq_some_iff.1 h
    rw [List.mem_append, or_iff_right fun hmem => hid (haround _ hmem)]
    exact mem_path_iff_of_head (Frame.nodup_of_fill hnodup) hpath'
  · -- the path to a part of the frame is the same with nothing in the gap
    have hremains := (Remains.of_nil (.subproof id premises body rest)).fill F
    rw [hremains.pathTo? hnodup hr] at h
    have hnot : ¬ (r ∈ premises.map Premise.ref ∨ r ∈ body.parts) := fun hinside =>
      Frame.not_mem_of_nodup hnodup (mem_parts_subproof.2 (.inr (hinside.imp_right .inl))) hr
    exact iff_of_false (fun hmem => hid (mem_parts_of_mem_path h hmem).2) hnot

end Lines

theorem Scope.walk_map_snd (s : Scope) (depth : Nat) : (s.walk depth).map Prod.snd = s.refs := by
  rw [Scope.refs_eq]
  simp only [Scope.walk, List.map_append, List.map_map, Lines.walk_map_snd]
  rfl

namespace Derivation

variable {d : Derivation} {r s : Ref} {scope : Scope}

theorem lines_map_snd (d : Derivation) : d.lines.map Prod.snd = d.refs.filter Ref.isLine := by
  show _ = (d.walk.map Prod.snd).filter Ref.isLine
  rw [List.filter_map]
  rfl

theorem length_eq (d : Derivation) : d.length = (d.refs.filter Ref.isLine).length := by
  rw [← lines_map_snd, List.length_map, length]

/-! ## Subproofs of a derivation -/

/-- A subproof at the head of lines in a frame is found with its scope, and it is not in the frame. -/
theorem scope?_of_frame (hd : d.WellFormed) {F : Frame} {id : Int} {premises : List Premise}
    {body rest : Lines} (h : d.root.lines = F.fill (.subproof id premises body rest)) :
    .subproof id ∉ (F.fill .nil).parts ∧ d.scope? (.subproof id) = some ⟨premises, body⟩ := by
  have hnodup := hd.nodup_parts
  rw [h] at hnodup
  have hF := Frame.not_mem_of_nodup hnodup (Lines.mem_parts_subproof.2 (.inl rfl))
  refine ⟨hF, ?_⟩
  show d.root.lines.findScope? id = _
  rw [h, Lines.findScope?_fill hF, Lines.findScope?, if_pos rfl]

/-- A subproof with its scope stands in a frame. -/
theorem exists_frame_of_scope? (hd : d.WellFormed) (hs : d.scope? s = some scope) :
    ∃ id F rest, s = .subproof id ∧
      d.root.lines = Frame.fill F (.subproof id scope.premises scope.lines rest) ∧
      .subproof id ∉ (F.fill .nil).parts := by
  cases s with
  | premise id => exact absurd hs (by simp [scope?])
  | step id => exact absurd hs (by simp [scope?])
  | subproof id =>
      have hmem : .subproof id ∈ d.root.lines.parts := Lines.findScope?_isSome.1 (by
        rw [show d.root.lines.findScope? id = some scope from hs]; rfl)
      obtain ⟨F, premises, body, rest, hlines⟩ := Lines.exists_frame_of_subproof hmem
      obtain ⟨hF, hscope⟩ := scope?_of_frame hd hlines
      obtain rfl := Option.some.inj (hscope.symm.trans hs)
      exact ⟨id, F, rest, rfl, hlines, hF⟩

theorem refs_sublist_of_scope? (hs : d.scope? s = some scope) :
    scope.refs.Sublist d.root.lines.parts := by
  cases s with
  | premise id => exact absurd hs (by simp [scope?])
  | step id => exact absurd hs (by simp [scope?])
  | subproof id =>
      rw [Scope.refs_eq]
      exact Lines.findScope?_sublist hs

theorem parentOf_eq_none (hr : r ∉ d.root.lines.parts) : d.parentOf r = none := by
  rw [parentOf, pathTo?, Lines.pathTo?_eq_none.2 hr]
  split <;> rfl

/-- The parts that a subproof is around are those of its scope. -/
theorem encloses_iff_mem_refs (hd : d.WellFormed) (hs : d.scope? s = some scope) :
    d.Encloses s r ↔ r ∈ scope.refs := by
  by_cases hr : r ∈ d.root.lines.parts
  · obtain ⟨path, hpath⟩ := Option.isSome_iff_exists.1 (Lines.pathTo?_isSome.2 hr)
    rw [encloses_iff_mem_path hd ((pathTo?_of_mem_parts hd hr).trans hpath)]
    obtain ⟨id, F, rest, rfl, hlines, -⟩ := exists_frame_of_scope? hd hs
    have hnodup := hd.nodup_parts
    rw [hlines] at hnodup hpath
    rw [Lines.mem_path_iff_of_fill hnodup hpath, Scope.refs_eq, List.mem_append]
    rfl
  · refine iff_of_false (fun hencloses => ?_) fun hmem =>
      hr ((refs_sublist_of_scope? hs).subset hmem)
    obtain ⟨parent, hparent, -⟩ := Relation.TransGen.head'_iff.1 hencloses
    rw [parentOf_eq_none hr] at hparent
    cases hparent

/-- The walk through a derivation whose lines stand in a frame passes what is in the gap in one
    piece. -/
theorem exists_walk_of_frame (premises : List Premise) (F : Frame) :
    ∃ front depth back, ∀ M : Lines,
      (Scope.mk premises (F.fill M)).walk 0 = front ++ (M.walk depth ++ back) := by
  obtain ⟨front, depth, back, hwalk⟩ := F.exists_walk_fill 0
  refine ⟨premises.map (fun p => (0, p.ref)) ++ front, depth, back, fun M => ?_⟩
  rw [Scope.walk, hwalk, List.append_assoc]

/-- In the walk through a derivation all that is nested in a subproof stands together, right behind
    the subproof. An edit of the subproof's scope changes this piece, and removing the subproof takes
    it out. -/
theorem exists_walk_of_scope? (hd : d.WellFormed) (hs : d.scope? s = some scope) :
    ∃ front depth back, d.walk = front ++ (depth, s) :: (scope.walk (depth + 1) ++ back) ∧
      (Scope.mk d.root.premises (d.root.lines.erase s)).walk 0 = front ++ back ∧
      ∀ change, (d.modifyScope (some s) change).walk
        = front ++ (depth, s) :: ((change scope).walk (depth + 1) ++ back) := by
  obtain ⟨id, F, rest, rfl, hlines, hF⟩ := exists_frame_of_scope? hd hs
  obtain ⟨front, depth, back, hwalk⟩ := exists_walk_of_frame d.root.premises F
  have hgap : ∀ inner : Scope,
      (Scope.mk d.root.premises (F.fill (.subproof id inner.premises inner.lines rest))).walk 0
        = front ++ (depth, .subproof id) ::
          (inner.walk (depth + 1) ++ (rest.walk depth ++ back)) := by
    intro inner
    rw [hwalk]
    simp [Lines.walk, Scope.walk]
  refine ⟨front, depth, rest.walk depth ++ back, ?_, ?_, fun change => ?_⟩
  · rw [← hgap, ← hlines]
    rfl
  · rw [hlines, (Lines.editsAt_erase _).fill hF, Lines.erase, if_pos rfl, hwalk]
  · rw [← hgap]
    simp only [walk, modifyScope, Ref.id]
    rw [hlines, (Lines.editsAt_modifyScope id change).fill hF, Lines.modifyScope, if_pos rfl]

/-! ## Removal of a subproof -/

/-- The reference leads nowhere: whatever is looked up by it is not there. -/
structure LeadsNowhere (d : Derivation) (r : Ref) : Prop where
  contains : d.contains r = false
  premise : d.premise? r = none
  step : d.step? r = none
  scope : d.scope? r = none
  formula : d.formulaOf r = none
  parent : d.parentOf r = none
  depth : d.depthOf r = none
  number : d.lineNumber? r = none
  span : d.span? r = none

/-- Only lines have numbers. -/
theorem mem_refs_of_lineNumber? {number : Nat} (h : d.lineNumber? r = some number) :
    r ∈ d.refs ∧ r.isLine = true := by
  obtain ⟨line, hline, -⟩ := Option.map_eq_some_iff.1 h
  obtain rfl : line.ref = r := by simpa using List.find?_some hline
  obtain ⟨entry, hentry, rfl⟩ := List.mem_map.1 (List.mem_of_find?_eq_some hline)
  rw [← List.mem_filter, ← lines_map_snd]
  exact List.mem_map_of_mem (List.fst_mem_of_mem_zipIdx hentry)

theorem leadsNowhere_of_not_mem (hr : r ∉ d.refs) : d.LeadsNowhere r := by
  have hpath : d.pathTo? r = none := by
    rw [← Option.not_isSome_iff_eq_none, pathTo?_isSome]
    exact hr
  have hscope : d.scope? r = none := by
    refine Option.eq_none_iff_forall_ne_some.2 fun scope hscope => ?_
    cases r with
    | premise id => cases hscope
    | step id => cases hscope
    | subproof id => exact hr (scope?_isSome.1 (by rw [hscope]; rfl))
  constructor
  case contains => rwa [← Bool.not_eq_true, contains_iff]
  case premise =>
    refine Option.eq_none_iff_forall_ne_some.2 fun p hp => hr ?_
    cases r with
    | premise id => exact premise?_isSome.1 (by rw [hp]; rfl)
    | step id => cases hp
    | subproof id => cases hp
  case step => exact Option.eq_none_iff_forall_ne_some.2 fun content h => hr (mem_refs_of_step? h)
  case scope => exact hscope
  case formula => exact Option.eq_none_iff_forall_ne_some.2 fun f h => hr (mem_refs_of_formulaOf h)
  case parent => rw [parentOf, hpath]; rfl
  case depth => rw [depthOf, hpath]; rfl
  case number => exact Option.eq_none_iff_forall_ne_some.2 fun k h => hr (mem_refs_of_lineNumber? h).1
  case span => rw [span?, hscope]; rfl

/-- The derivation without a subproof. -/
def withoutSubproof (d : Derivation) (s : Ref) : Derivation :=
  { d with root := { d.root with lines := d.root.lines.erase s } }

section

variable (hd : d.WellFormed) (hs : d.scope? s = some scope)

include hd hs

/-- Removing a subproof takes one piece out of the document: the subproof and all that is nested in
    it. -/
theorem exists_refs_withoutSubproof :
    ∃ front back, d.refs = front ++ s :: (scope.refs ++ back) ∧
      (d.withoutSubproof s).refs = front ++ back := by
  obtain ⟨front, depth, back, hwalk, herase, -⟩ := exists_walk_of_scope? hd hs
  refine ⟨front.map Prod.snd, back.map Prod.snd, ?_, ?_⟩
  · show d.walk.map Prod.snd = _
    rw [hwalk, ← Scope.walk_map_snd scope (depth + 1)]
    simp
  · show ((d.withoutSubproof s).root.walk 0).map Prod.snd = _
    rw [show (d.withoutSubproof s).root.walk 0 = front ++ back from herase, List.map_append]

theorem mem_refs_withoutSubproof :
    r ∈ (d.withoutSubproof s).refs ↔ r ∈ d.refs ∧ r ≠ s ∧ ¬ d.Encloses s r := by
  obtain ⟨front, back, hrefs, hrefs'⟩ := exists_refs_withoutSubproof hd hs
  have hnodup := hd.nodup
  rw [encloses_iff_mem_refs hd hs, hrefs', hrefs, List.mem_append, List.mem_append, List.mem_cons,
    List.mem_append]
  rw [hrefs] at hnodup
  obtain ⟨-, hrest, hfront⟩ := List.nodup_append.1 hnodup
  obtain ⟨hself, hinner⟩ := List.nodup_cons.1 hrest
  obtain ⟨-, -, hback⟩ := List.nodup_append.1 hinner
  constructor
  · rintro (hr | hr)
    · refine ⟨.inl hr, fun h => ?_, fun h => ?_⟩
      · exact hfront r hr s (List.mem_cons_self ..) h
      · exact hfront r hr r (List.mem_cons_of_mem _ (List.mem_append_left _ h)) rfl
    · refine ⟨.inr (.inr (.inr hr)), fun h => ?_, fun h => hback r h r hr rfl⟩
      exact hself (h ▸ List.mem_append_right _ hr)
  · rintro ⟨hr | hr | hr | hr, hne, hnot⟩
    · exact .inl hr
    · exact absurd hr hne
    · exact absurd hr hnot
    · exact .inr hr

theorem length_withoutSubproof :
    (d.withoutSubproof s).length + (scope.refs.filter Ref.isLine).length = d.length := by
  obtain ⟨front, back, hrefs, hrefs'⟩ := exists_refs_withoutSubproof hd hs
  obtain ⟨id, -, -, rfl, -, -⟩ := exists_frame_of_scope? hd hs
  rw [length_eq, length_eq, hrefs, hrefs', List.filter_append, List.filter_append, List.filter_cons,
    List.filter_append, if_neg (by simp [Ref.isLine])]
  simp only [List.length_append]
  omega

end

/-- Whatever operations led to a derivation, removing a subproof of it, unless a line is held, leaves
    exactly the parts that are neither this subproof nor inside it. The number of lines goes down by
    the number of lines inside, the references that were removed lead nowhere, and all that is left
    has the same content, even where it cites what was removed. -/
theorem removeSubproof_exact (hd : Reachable d) (hs : (d.scope? s).isSome = true) :
    (d.held.isSome = true → d.removeSubproof s = .error .held) ∧
    (d.held = none → ∃ (d' : Derivation) (inside : List Ref), d.removeSubproof s = .ok (true, d') ∧
      (∀ r, d'.contains r = true ↔ d.contains r = true ∧ r ≠ s ∧ ¬ d.Encloses s r) ∧
      (inside.Nodup ∧ (∀ r, r ∈ inside ↔ d.contains r = true ∧ r.isLine = true ∧ d.Encloses s r) ∧
        d'.length + inside.length = d.length) ∧
      (∀ r, d.contains r = true → d'.contains r = false → d'.LeadsNowhere r) ∧
      ∀ r, d'.contains r = true → d'.premise? r = d.premise? r ∧ d'.step? r = d.step? r) := by
  have hwell := hd.wellFormed
  obtain ⟨scope, hscope⟩ := Option.isSome_iff_exists.1 hs
  constructor
  · intro hheld
    rw [removeSubproof, structural, if_pos hheld]
  · intro hfree
    refine ⟨d.withoutSubproof s, scope.refs.filter Ref.isLine, ?_, fun r => ?_, ⟨?_, fun r => ?_, ?_⟩,
      fun r _ hgone => ?_, fun r hr => ?_⟩
    · rw [removeSubproof, structural, if_neg (by simp [hfree]), if_pos hs]
      rfl
    · rw [contains_iff, contains_iff, mem_refs_withoutSubproof hwell hscope]
    · exact ((refs_sublist_of_scope? hscope).nodup hwell.nodup_parts).filter _
    · rw [List.mem_filter, encloses_iff_mem_refs hwell hscope, contains_iff]
      constructor
      · rintro ⟨hr, hline⟩
        exact ⟨mem_refs.2 (.inr ((refs_sublist_of_scope? hscope).subset hr)), hline, hr⟩
      · rintro ⟨-, hline, hr⟩
        exact ⟨hr, hline⟩
    · exact length_withoutSubproof hwell hscope
    · apply leadsNowhere_of_not_mem
      rw [← contains_iff, hgone]
      exact Bool.false_ne_true
    · have hremains : (d.withoutSubproof s).root.Remains d.root :=
        ⟨List.Sublist.refl _, Lines.erase_remains s d.root.lines⟩
      have hr := contains_iff.1 hr
      exact ⟨(premise?_of_remains hremains hwell hr).symm,
        (step?_of_remains hremains hwell hr).symm⟩

/-- A subproof with another one in it is removed, and a step that cites it and a line of it stays as
    it is. -/
theorem removeSubproof_exact_cited :
    let citing : Step := ⟨some (.var "P"), .text "ASSOCIATION", [.premise 1, .step 7], [.subproof 3]⟩
    let d := Derivation.blank.performAll [
      .addSubproof none false,
      .addSubproof (some (.subproof 3)) true,
      .addStep .blank (some (.subproof 6)),
      .addStep citing none]
    ∃ d', d.removeSubproof (.subproof 3) = .ok (true, d') ∧ d.length = 6 ∧ d'.length = 3 ∧
      d'.contains (.step 8) = true ∧ d'.step? (.step 8) = some citing ∧
      d'.LeadsNowhere (.step 7) ∧ d'.LeadsNowhere (.subproof 6) := by
  intro citing d
  obtain ⟨-, hremoved⟩ :=
    removeSubproof_exact (Reachable.blank.performAll _ : Reachable d) (show
      (d.scope? (.subproof 3)).isSome = true by decide)
  obtain ⟨d', inside, hd', hrefs, -, hgone, hsame⟩ := hremoved (by decide)
  obtain rfl : d.perform (.removeSubproof (.subproof 3)) = d' := by
    rw [perform, hd']
    rfl
  refine ⟨_, hd', by decide, by decide, by decide, ?_, ?_, ?_⟩
  · exact (hsame (.step 8) (by decide)).2.trans (by decide)
  · exact hgone (.step 7) (by decide) (by decide)
  · exact hgone (.subproof 6) (by decide) (by decide)

end Derivation

end Deduction
