import Deduction.Proofs.Scoping
import Mathlib.Data.List.Perm.Basic

set_option autoImplicit false

/-! # Survivors of an edit

An insertion leads to a derivation of which the old one is a remainder, and a removal to a remainder
of the old one: steps, premises and whole subproofs are missing in it, and nothing else is different.
So the parts that are there both before and after an edit keep their place, their content, their order
and what they see of each other. -/

namespace Deduction

/-! ## Remainders of lines -/

/-- The first lines are what is left of the second ones without some steps, premises and whole
    subproofs. -/
inductive Lines.Remains : Lines → Lines → Prop
  | nil : Remains .nil .nil
  | step (id : Int) (content : Step) {rest rest' : Lines} (hrest : Remains rest rest') :
      Remains (.step id content rest) (.step id content rest')
  | subproof (id : Int) {premises premises' : List Premise} {body body' rest rest' : Lines}
      (hpremises : premises.Sublist premises') (hbody : Remains body body')
      (hrest : Remains rest rest') :
      Remains (.subproof id premises body rest) (.subproof id premises' body' rest')
  | withoutStep (id : Int) (content : Step) {L rest : Lines} (hrest : Remains L rest) :
      Remains L (.step id content rest)
  | withoutSubproof (id : Int) (premises : List Premise) (body : Lines) {L rest : Lines}
      (hrest : Remains L rest) : Remains L (.subproof id premises body rest)

/-- The first scope is what is left of the second one. -/
structure Scope.Remains (s s' : Scope) : Prop where
  premises : s.premises.Sublist s'.premises
  lines : s.lines.Remains s'.lines

namespace Lines

variable {L M : Lines}

theorem Remains.refl (L : Lines) : L.Remains L := by
  induction L with
  | nil => exact .nil
  | step id content rest ih => exact .step id content ih
  | subproof id premises body rest ihbody ihrest =>
      exact .subproof id (List.Sublist.refl _) ihbody ihrest

theorem Remains.of_nil (L : Lines) : Lines.nil.Remains L := by
  induction L with
  | nil => exact .nil
  | step id content rest ih => exact .withoutStep id content ih
  | subproof id premises body rest _ ih => exact .withoutSubproof id premises body ih

/-! ### Edits -/

theorem remains_append (L M : Lines) : L.Remains (L.append M) := by
  induction L with
  | nil => exact .of_nil M
  | step id content rest ih => exact .step id content ih
  | subproof id premises body rest _ ih =>
      exact .subproof id (List.Sublist.refl _) (.refl body) ih

theorem remains_modifyScope {id : Int} {change : Scope → Scope}
    (hchange : ∀ s : Scope, s.Remains (change s)) (L : Lines) :
    L.Remains (L.modifyScope id change) := by
  induction L with
  | nil => exact .nil
  | step i content rest ih => exact .step i content ih
  | subproof i premises body rest ihbody ihrest =>
      have hscope := hchange ⟨premises, body⟩
      rw [modifyScope]
      split
      · exact .subproof i hscope.premises hscope.lines (.refl rest)
      · exact .subproof i (List.Sublist.refl _) ihbody ihrest

theorem remains_insertBeside {anchor : Ref} {after : Bool} {insert : Lines → Lines}
    (hinsert : ∀ M : Lines, M.Remains (insert M)) (L : Lines) :
    L.Remains (L.insertBeside anchor after insert) := by
  induction L with
  | nil => exact .nil
  | step i content rest ih =>
      rw [insertBeside]
      split
      · split
        · exact .step i content (hinsert rest)
        · exact hinsert _
      · exact .step i content ih
  | subproof i premises body rest ihbody ihrest =>
      rw [insertBeside]
      split
      · split
        · exact .subproof i (List.Sublist.refl _) (.refl body) (hinsert rest)
        · exact hinsert _
      · exact .subproof i (List.Sublist.refl _) ihbody ihrest

theorem remains_mapPremises {change : List Premise → List Premise}
    (hchange : ∀ premises : List Premise, premises.Sublist (change premises)) (L : Lines) :
    L.Remains (L.mapPremises change) := by
  induction L with
  | nil => exact .nil
  | step i content rest ih => exact .step i content ih
  | subproof i premises body rest ihbody ihrest =>
      exact .subproof i (hchange premises) ihbody ihrest

theorem erase_remains (r : Ref) (L : Lines) : (L.erase r).Remains L := by
  induction L with
  | nil => exact .nil
  | step i content rest ih =>
      rw [erase]
      split
      · exact .withoutStep i content (.refl rest)
      · exact .step i content ih
  | subproof i premises body rest ihbody ihrest =>
      rw [erase]
      split
      · exact .withoutSubproof i premises body (.refl rest)
      · exact .subproof i (List.Sublist.refl _) ihbody ihrest

/-! ### What is left is unchanged -/

theorem Remains.walk (h : L.Remains M) (depth : Nat) : (L.walk depth).Sublist (M.walk depth) := by
  induction h generalizing depth with
  | nil => exact List.Sublist.refl []
  | step id content _ ih => exact (ih depth).cons_cons _
  | subproof id hpremises _ _ ihbody ihrest =>
      exact (((hpremises.map _).cons_cons _).append (ihbody (depth + 1))).append (ihrest depth)
  | withoutStep id content _ ih => exact (ih depth).cons _
  | withoutSubproof id premises body _ ih =>
      exact (ih depth).trans (List.sublist_append_right _ _)

theorem Remains.parts (h : L.Remains M) : L.parts.Sublist M.parts := by
  rw [← walk_map_snd 0, ← walk_map_snd 0]
  exact (h.walk 0).map Prod.snd

theorem Remains.steps (h : L.Remains M) : L.steps.Sublist M.steps := by
  induction h with
  | nil => exact List.Sublist.refl []
  | step id content _ ih => exact ih.cons_cons _
  | subproof id _ _ _ ihbody ihrest => exact ihbody.append ihrest
  | withoutStep id content _ ih => exact ih.cons _
  | withoutSubproof id premises body _ ih => exact ih.trans (List.sublist_append_right _ _)

theorem Remains.premises (h : L.Remains M) : L.premises.Sublist M.premises := by
  induction h with
  | nil => exact List.Sublist.refl []
  | step id content _ ih => exact ih
  | subproof id hpremises _ _ ihbody ihrest => exact hpremises.append (ihbody.append ihrest)
  | withoutStep id content _ ih => exact ih
  | withoutSubproof id premises body _ ih =>
      exact (ih.trans (List.sublist_append_right _ _)).trans (List.sublist_append_right _ _)

theorem Remains.pathTo? (h : L.Remains M) (hM : M.parts.Nodup) {r : Ref} (hr : r ∈ L.parts) :
    M.pathTo? r = L.pathTo? r := by
  induction h with
  | nil => rfl
  | step id content _ ih =>
      rw [Lines.pathTo?, Lines.pathTo?]
      split
      · rfl
      · next hne => exact ih (nodup_parts_step hM).2 ((List.mem_cons.1 hr).resolve_left hne)
  | subproof id hpremises hbody hrest ihbody ihrest =>
      have hL := (Remains.subproof id hpremises hbody hrest).parts.nodup hM
      obtain ⟨-, -, -, hnodupBody, hnodupRest⟩ := nodup_parts_subproof hM
      rcases mem_parts_subproof.1 hr with rfl | hr | hr | hr
      · rw [Lines.pathTo?, Lines.pathTo?, if_pos rfl, if_pos rfl]
      · rw [pathTo?_subproof_of_mem_premises hr,
          pathTo?_subproof_of_mem_premises ((hpremises.map _).subset hr)]
      · rw [pathTo?_subproof_of_mem_body hL hr,
          pathTo?_subproof_of_mem_body hM (hbody.parts.subset hr), ihbody hnodupBody hr]
      · rw [pathTo?_subproof_of_mem_rest hL hr,
          pathTo?_subproof_of_mem_rest hM (hrest.parts.subset hr), ihrest hnodupRest hr]
  | withoutStep id content hrest ih =>
      rw [pathTo?_step_of_mem hM (hrest.parts.subset hr)]
      exact ih (nodup_parts_step hM).2 hr
  | withoutSubproof id premises body hrest ih =>
      obtain ⟨-, -, -, -, hnodupRest⟩ := nodup_parts_subproof hM
      rw [pathTo?_subproof_of_mem_rest hM (hrest.parts.subset hr)]
      exact ih hnodupRest hr

end Lines

theorem sublist_insertPremise (anchor : Int) (after : Bool) (new : Premise)
    (premises : List Premise) : premises.Sublist (insertPremise anchor after new premises) := by
  induction premises with
  | nil => exact List.Sublist.refl []
  | cons p ps ih =>
      rw [insertPremise]
      split
      · split
        · exact (List.sublist_cons_self new ps).cons_cons p
        · exact List.sublist_cons_self new _
      · exact ih.cons_cons p

namespace Derivation

variable {d d' : Derivation} {r k : Ref}

/-! ## Remainders of derivations -/

theorem walk_of_remains (h : d.root.Remains d'.root) : d.walk.Sublist d'.walk :=
  (h.premises.map _).append (h.lines.walk 0)

theorem refs_of_remains (h : d.root.Remains d'.root) : d.refs.Sublist d'.refs :=
  (walk_of_remains h).map Prod.snd

theorem pathTo?_of_remains (h : d.root.Remains d'.root) (hd' : d'.WellFormed) (hr : r ∈ d.refs) :
    d'.pathTo? r = d.pathTo? r := by
  by_cases hpremise : r ∈ d.root.premiseRefs
  · have hpremise' : r ∈ d'.root.premiseRefs := (h.premises.map _).subset hpremise
    rw [pathTo?, pathTo?, if_pos hpremise, if_pos hpremise']
  · have hpart := (mem_refs.1 hr).resolve_left hpremise
    rw [pathTo?_of_mem_parts hd' (h.lines.parts.subset hpart), pathTo?, if_neg hpremise]
    exact h.lines.pathTo? hd'.nodup_parts hpart

theorem step?_of_remains (h : d.root.Remains d'.root) (hd' : d'.WellFormed) (hr : r ∈ d.refs) :
    d'.step? r = d.step? r := by
  cases r with
  | step id =>
      obtain ⟨content, hcontent⟩ := Option.isSome_iff_exists.1 (step?_isSome.2 hr)
      rw [hcontent, step?_eq_some hd'.nodup_parts]
      exact h.lines.steps.subset (Lines.mem_steps_of_findStep? hcontent)
  | premise id => rfl
  | subproof id => rfl

theorem premise?_of_remains (h : d.root.Remains d'.root) (hd' : d'.WellFormed) (hr : r ∈ d.refs) :
    d'.premise? r = d.premise? r := by
  cases r with
  | premise id =>
      obtain ⟨p, hp⟩ := Option.isSome_iff_exists.1 (premise?_isSome.2 hr)
      obtain ⟨hmem, hid⟩ := mem_of_premise? hp
      rw [hp, ← hid]
      exact premise?_of_mem hd'.nodup ((h.premises.append h.lines.premises).subset hmem)
  | step id => rfl
  | subproof id => rfl

/-! ## Survivors -/

/-- The parts that two derivations have in common have the same place, the same content and the same
    order in both. -/
structure Agrees (d d' : Derivation) : Prop where
  path : ∀ r, r ∈ d.refs → r ∈ d'.refs → d'.pathTo? r = d.pathTo? r
  premise : ∀ r, r ∈ d.refs → r ∈ d'.refs → d'.premise? r = d.premise? r
  step : ∀ r, r ∈ d.refs → r ∈ d'.refs → d'.step? r = d.step? r
  walk : d'.walk.filter (fun entry => d.contains entry.2)
    = d.walk.filter fun entry => d'.contains entry.2

theorem Agrees.refl (d : Derivation) : d.Agrees d :=
  ⟨fun _ _ _ => rfl, fun _ _ _ => rfl, fun _ _ _ => rfl, rfl⟩

theorem Agrees.symm (h : d.Agrees d') : d'.Agrees d :=
  ⟨fun r hr hr' => (h.path r hr' hr).symm, fun r hr hr' => (h.premise r hr' hr).symm,
    fun r hr hr' => (h.step r hr' hr).symm, h.walk.symm⟩

/-- Of a list without repetition, two parts with the same elements are the same. -/
theorem eq_of_sublist_of_mem_iff {α : Type} {xs ys zs : List α} (hzs : zs.Nodup)
    (hxs : xs.Sublist zs) (hys : ys.Sublist zs) (h : ∀ a, a ∈ xs ↔ a ∈ ys) : xs = ys :=
  (List.Nodup.perm_iff_eq_of_sublist hzs hxs hys).1
    ((List.perm_ext_iff_of_nodup (hxs.nodup hzs) (hys.nodup hzs)).2 h)

theorem Agrees.of_remains (h : d.root.Remains d'.root) (hd' : d'.WellFormed) : d.Agrees d' := by
  have hwalk := walk_of_remains h
  have hrefs := refs_of_remains h
  refine ⟨fun r hr _ => pathTo?_of_remains h hd' hr, fun r hr _ => premise?_of_remains h hd' hr,
    fun r hr _ => step?_of_remains h hd' hr, ?_⟩
  have hnodup : (d'.walk.map Prod.snd).Nodup := hd'.nodup
  -- an entry of the larger walk is one of the smaller walk if its part is
  apply eq_of_sublist_of_mem_iff hnodup.of_map List.filter_sublist
    (List.filter_sublist.trans hwalk)
  intro entry
  simp only [List.mem_filter, contains_iff]
  constructor
  · rintro ⟨hentry, hr⟩
    obtain ⟨entry', hentry', hsame⟩ := List.mem_map.1 hr
    obtain rfl := List.inj_on_of_nodup_map hnodup (hwalk.subset hentry') hentry hsame
    exact ⟨hentry', hrefs.subset hr⟩
  · rintro ⟨hentry, -⟩
    exact ⟨hwalk.subset hentry, List.mem_map_of_mem hentry⟩

theorem Agrees.refs (h : d.Agrees d') : d'.refs.filter d.contains = d.refs.filter d'.contains := by
  have hmap := congrArg (List.map Prod.snd) h.walk
  rw [show (fun entry : Nat × Ref => d.contains entry.2) = d.contains ∘ Prod.snd from rfl,
    show (fun entry : Nat × Ref => d'.contains entry.2) = d'.contains ∘ Prod.snd from rfl,
    ← List.filter_map, ← List.filter_map] at hmap
  exact hmap

theorem precedes_filter {refs : List Ref} {p : Ref → Bool} (hk : p k = true) (hr : p r = true) :
    Precedes (refs.filter p) k r ↔ Precedes refs k r := by
  constructor
  · exact fun h => h.trans List.filter_sublist
  · intro h
    have hfilter := List.Sublist.filter p h
    rwa [show [k, r].filter p = [k, r] by simp [hk, hr]] at hfilter

theorem visibleFrom_sublist (d : Derivation) (r : Ref) : (d.visibleFrom r).Sublist d.refs := by
  cases hvisible : d.visibleFrom r with
  | nil => exact List.nil_sublist _
  | cons k rest =>
      obtain ⟨before, own, after, hrefs, hown, hsub⟩ :=
        sees_of_visible (show k ∈ d.visibleFrom r by simp [hvisible])
      rw [← hvisible, hown, hrefs]
      exact hsub.trans (List.sublist_append_left _ _)

/-- Of the parts that both derivations have, the same ones are visible from such a part. -/
theorem Agrees.mem_visibleFrom (h : d.Agrees d') (hd : d.WellFormed) (hd' : d'.WellFormed)
    (hr : r ∈ d.refs) (hr' : r ∈ d'.refs) (hk : k ∈ d.refs) (hk' : k ∈ d'.refs) :
    k ∈ d'.visibleFrom r ↔ k ∈ d.visibleFrom r := by
  have hbefore : Precedes d'.refs k r ↔ Precedes d.refs k r := by
    rw [← precedes_filter (contains_iff.2 hk) (contains_iff.2 hr), h.refs,
      precedes_filter (contains_iff.2 hk') (contains_iff.2 hr')]
  rw [mem_visibleFrom_iff_paths hd' hr', mem_visibleFrom_iff_paths hd hr, hbefore,
    h.path k hk hk', h.path r hr hr']

theorem Agrees.visibleFrom (h : d.Agrees d') (hd : d.WellFormed) (hd' : d'.WellFormed)
    (hr : r ∈ d.refs) (hr' : r ∈ d'.refs) :
    (d'.visibleFrom r).filter d.contains = (d.visibleFrom r).filter d'.contains := by
  have hsub := (d'.visibleFrom_sublist r).filter d.contains
  rw [h.refs] at hsub
  apply eq_of_sublist_of_mem_iff (List.filter_sublist.nodup hd.nodup) hsub
    ((d.visibleFrom_sublist r).filter d'.contains)
  intro k
  simp only [List.mem_filter, contains_iff]
  constructor
  · rintro ⟨hvisible, hk⟩
    have hk' := mem_refs_of_visible hvisible
    exact ⟨(h.mem_visibleFrom hd hd' hr hr' hk hk').1 hvisible, hk'⟩
  · rintro ⟨hvisible, hk'⟩
    have hk := mem_refs_of_visible hvisible
    exact ⟨(h.mem_visibleFrom hd hd' hr hr' hk hk').2 hvisible, hk⟩

/-! ## Insertions and removals -/

/-- The result of an insertion, with whether it took place. -/
def Edited.inserted (e : Edited (Option Ref)) : Edited Bool :=
  e.map fun result => (result.1.isSome, result.2)

/-- The result of an insertion or a removal, with whether it took place; none for an operation that is
    neither. -/
def restructured? (d : Derivation) : Operation → Option (Edited Bool)
  | .addPremise formula within => some (d.addPremise formula within).inserted
  | .addPremiseBeside formula anchor after =>
    some (d.addPremiseBeside formula anchor after).inserted
  | .prependStep content within => some (d.prependStep content within).inserted
  | .addStep content within => some (d.addStep content within).inserted
  | .addStepBeside content anchor after => some (d.addStepBeside content anchor after).inserted
  | .addSubproof within empty => some (d.addSubproof within empty).inserted
  | .addSubproofBeside anchor after => some (d.addSubproofBeside anchor after).inserted
  | .removeLine r => some (d.removeLine r)
  | .removeSubproof r => some (d.removeSubproof r)
  | .setPremise .. | .setConclusion .. | .setRule .. | .toggleDependency .. | .withPremise ..
  | .withStep .. | .assignFormula .. | .assignStep .. => none

/-- What an insertion or a removal can come to. -/
inductive Restructured (d : Derivation) : Edited Bool → Prop
  | held : Restructured d (.error .held)
  | refused : Restructured d (.ok (false, d))
  | inserted {d' : Derivation} (h : d.root.Remains d'.root) : Restructured d (.ok (true, d'))
  | removed {d' : Derivation} (h : d'.root.Remains d.root) : Restructured d (.ok (true, d'))

theorem Restructured.of_insertion {allowed : Bool} {new : Ref} (h : d.root.Remains d'.root) :
    d.Restructured (Edited.inserted
      (d.structural none (if allowed = true then some (some new, d') else none))) := by
  unfold structural
  split
  · exact .held
  · cases allowed with
    | true => exact .inserted h
    | false => exact .refused

theorem Restructured.of_removal {allowed : Bool} (h : d'.root.Remains d.root) :
    d.Restructured (d.structural false (if allowed = true then some (true, d') else none)) := by
  unfold structural
  split
  · exact .held
  · cases allowed with
    | true => exact .removed h
    | false => exact .refused

theorem remains_modifyScope {change : Scope → Scope}
    (hchange : ∀ s : Scope, s.Remains (change s)) (d : Derivation) (count : Int)
    (within : Option Ref) : d.root.Remains ((d.draw count).modifyScope within change).root := by
  cases within with
  | none => exact hchange d.root
  | some r => exact ⟨List.Sublist.refl _, Lines.remains_modifyScope hchange d.root.lines⟩

theorem remains_append (s : Scope) (more : Lines) :
    s.Remains { s with lines := s.lines.append more } :=
  ⟨List.Sublist.refl _, s.lines.remains_append more⟩

theorem remains_insertBeside {insert : Lines → Lines} (hinsert : ∀ M : Lines, M.Remains (insert M))
    (d : Derivation) (count : Int) (anchor : Ref) (after : Bool) :
    d.root.Remains ((d.draw count).insertBeside anchor after insert).root :=
  ⟨List.Sublist.refl _, Lines.remains_insertBeside hinsert d.root.lines⟩

/-- An insertion or a removal does nothing, or leads to a larger derivation, or to a smaller one. -/
theorem restructured {op : Operation} {e : Edited Bool} (h : d.restructured? op = some e) :
    d.Restructured e := by
  cases op with
  | addPremise formula within =>
      obtain rfl := Option.some.inj h
      refine .of_insertion (remains_modifyScope (fun s => ?_) d 1 within)
      exact ⟨List.sublist_append_left _ _, .refl s.lines⟩
  | addPremiseBeside formula anchor after =>
      obtain rfl := Option.some.inj h
      have hinsert := sublist_insertPremise anchor.id after ⟨d.nextId, formula⟩
      exact .of_insertion ⟨hinsert _, Lines.remains_mapPremises hinsert d.root.lines⟩
  | prependStep content within =>
      obtain rfl := Option.some.inj h
      refine .of_insertion (remains_modifyScope (fun s => ?_) d 1 within)
      exact ⟨List.Sublist.refl _, .withoutStep _ _ (.refl s.lines)⟩
  | addStep content within =>
      obtain rfl := Option.some.inj h
      exact .of_insertion (remains_modifyScope (fun s => remains_append s _) d 1 within)
  | addStepBeside content anchor after =>
      obtain rfl := Option.some.inj h
      exact .of_insertion
        (remains_insertBeside (fun M => .withoutStep _ _ (.refl M)) d 1 anchor after)
  | addSubproof within empty =>
      obtain rfl := Option.some.inj h
      exact .of_insertion (remains_modifyScope (fun s => remains_append s _) d _ within)
  | addSubproofBeside anchor after =>
      obtain rfl := Option.some.inj h
      exact .of_insertion
        (remains_insertBeside (fun M => .withoutSubproof _ _ _ (.refl M)) d 3 anchor after)
  | removeLine r =>
      obtain rfl := Option.some.inj h
      exact .of_removal ⟨List.filter_sublist, Lines.erase_remains r d.root.lines⟩
  | removeSubproof r =>
      obtain rfl := Option.some.inj h
      exact .of_removal ⟨List.Sublist.refl _, Lines.erase_remains r d.root.lines⟩
  | _ => exact absurd h (by simp [restructured?])

theorem after_inserted (d : Derivation) (e : Edited (Option Ref)) :
    e.inserted.after d = e.after d := by
  cases e with
  | error e => rfl
  | ok result => rfl

theorem perform_of_restructured? {op : Operation} {e : Edited Bool}
    (h : d.restructured? op = some e) : d.perform op = e.after d := by
  cases op <;> simp only [restructured?, Option.some.injEq, reduceCtorEq] at h <;> subst h <;>
    simp only [perform, after_inserted]

/-- The parts that are there before and after an insertion or removal agree. -/
theorem Agrees.perform (hd : d.WellFormed) {op : Operation} {e : Edited Bool}
    (h : d.restructured? op = some e) : d.Agrees (d.perform op) := by
  have hd' := hd.perform op
  rw [perform_of_restructured? h] at hd' ⊢
  cases restructured h with
  | held => exact .refl d
  | refused => exact .refl d
  | inserted hremains => exact .of_remains hremains hd'
  | removed hremains => exact (Agrees.of_remains hremains hd).symm

/-- Whatever operations led to a derivation, an insertion or removal that is refused, or not allowed
    because a line is held, leaves it as it is, and one that takes place keeps all parts that are
    there before and after it: they have the same parent, depth and content, come in the same order,
    and see the same of each other. -/
theorem survivors_unchanged (hd : Reachable d) {op : Operation} {e : Edited Bool}
    (h : d.restructured? op = some e) :
    let d' := d.perform op
    (e = .ok (true, d') ∨ (e = .ok (false, d') ∨ e = .error .held) ∧ d' = d) ∧
      d'.walk.filter (fun entry => d.contains entry.2)
        = d.walk.filter (fun entry => d'.contains entry.2) ∧
      ∀ r, d.contains r = true → d'.contains r = true →
        d'.parentOf r = d.parentOf r ∧ d'.depthOf r = d.depthOf r ∧
        d'.premise? r = d.premise? r ∧ d'.step? r = d.step? r ∧
        (d'.visibleFrom r).filter d.contains = (d.visibleFrom r).filter d'.contains := by
  intro d'
  have hagrees : d.Agrees d' := .perform hd.wellFormed h
  refine ⟨?_, hagrees.walk, ?_⟩
  · rw [show d' = e.after d from perform_of_restructured? h]
    cases restructured h with
    | held => exact .inr ⟨.inr rfl, rfl⟩
    | refused => exact .inr ⟨.inl rfl, rfl⟩
    | inserted _ => exact .inl rfl
    | removed _ => exact .inl rfl
  · intro r hr hr'
    rw [contains_iff] at hr hr'
    have hpath := hagrees.path r hr hr'
    refine ⟨?_, ?_, hagrees.premise r hr hr', hagrees.step r hr hr',
      hagrees.visibleFrom hd.wellFormed (hd.wellFormed.perform op) hr hr'⟩
    · rw [parentOf, parentOf, hpath]
    · rw [depthOf, depthOf, hpath]

/-- Removing a subproof, with what is nested in it, between two steps. -/
theorem survivors_unchanged_nested :
    let d := Derivation.blank.performAll [
      .addSubproof none false,
      .addSubproof (some (.subproof 3)) true,
      .addStep ⟨some (.var "P"), .text "ASSOCIATION", [.premise 1, .step 5], [.subproof 3]⟩ none]
    let d' := d.perform (.removeSubproof (.subproof 3))
    d.restructured? (.removeSubproof (.subproof 3)) = some (.ok (true, d')) ∧
      d'.refs = [.premise 1, .step 2, .step 7] ∧
      d'.walk.filter (fun entry => d.contains entry.2)
        = d.walk.filter (fun entry => d'.contains entry.2) ∧
      d'.step? (.step 7) = d.step? (.step 7) ∧
      (d'.visibleFrom (.step 7)).filter d.contains
        = (d.visibleFrom (.step 7)).filter d'.contains := by
  intro d d'
  have hremoved : d.restructured? (.removeSubproof (.subproof 3)) = some (.ok (true, d')) := rfl
  obtain ⟨-, hwalk, hkept⟩ :=
    survivors_unchanged (Reachable.blank.performAll _ : Reachable d) hremoved
  obtain ⟨-, -, -, hstep, hvisible⟩ := hkept (.step 7) (by decide) (by decide)
  exact ⟨hremoved, by decide, hwalk, hstep, hvisible⟩

end Derivation

end Deduction
