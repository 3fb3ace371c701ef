import Deduction.Proofs.VerdictLocality

set_option autoImplicit false

/-! # References are never used again

A run takes a derivation from one state to the next: by operations, and by the holds in which
callbacks see it. The number that the next part gets only grows, and a part that comes up in a run
takes its number from there. So a new part has a greater number than all parts that there ever
were, and a reference that leads nowhere any more will not lead anywhere again. A step that cites
one is wrong from then on, unless it is edited. -/

namespace Deduction

namespace Derivation

/-! ## Runs -/

/-- A run from one state of a derivation to a later one, by operations that are among the given
    ones. Holds may begin and end in it. -/
inductive Leads (among : Derivation → Operation → Prop) (d : Derivation) : Derivation → Prop
  | start : Leads among d d
  | performed {d' : Derivation} (h : Leads among d d') (op : Operation) (hop : among d' op) :
      Leads among d (d'.perform op)
  | holding {d' : Derivation} (h : Leads among d d') (held : Option Ref) :
      Leads among d { d' with held := held }

/-- A run by any operations. -/
def LeadsTo (d d' : Derivation) : Prop := d.Leads (fun _ _ => True) d'

/-- A run in which no operation is on the content of line `r`. -/
def LeadsSparing (r : Ref) (d d' : Derivation) : Prop :=
  d.Leads (fun d op => d.edited? op ≠ some r) d'

variable {among : Derivation → Operation → Prop} {d d' d'' : Derivation} {r x : Ref}
  {op : Operation}

theorem Leads.performAll (h : d.LeadsTo d') (ops : List Operation) :
    d.LeadsTo (d'.performAll ops) := by
  induction ops generalizing d' with
  | nil => exact h
  | cons op ops ih => exact ih (.performed h op trivial)

/-! ## Numbers -/

/-- The later derivation has the parts of the earlier one, or some of them, and parts with numbers
    that were not yet taken. -/
structure Grows (d d' : Derivation) : Prop where
  nextId : d.nextId ≤ d'.nextId
  fresh : ∀ x ∈ d'.refs, x ∈ d.refs ∨ d.nextId ≤ x.id

theorem Grows.refl (d : Derivation) : d.Grows d := ⟨Int.le_refl _, fun _ hx => .inl hx⟩

theorem Grows.trans (h : d.Grows d') (h' : d'.Grows d'') : d.Grows d'' := by
  refine ⟨Int.le_trans h.nextId h'.nextId, fun x hx => ?_⟩
  rcases h'.fresh x hx with hx | hx
  · exact h.fresh x hx
  · exact .inr (Int.le_trans h.nextId hx)

theorem Grows.of_evolves (h : d.Evolves d') : d.Grows d' := by
  obtain ⟨new, kept, hperm, hkept, hnew⟩ := h.parts
  refine ⟨hnew.le, fun x hx => ?_⟩
  rcases List.mem_append.1 (hperm.mem_iff.1 hx) with hx | hx
  · exact .inr (hnew.bounds hx).1
  · exact .inl (hkept.subset hx)

/-- An operation on the content of a line leaves the parts as they are. -/
theorem Grows.of_blanked (h : d'.blanked r = d.blanked r) : d.Grows d' := by
  have hrefs : d'.refs = d.refs := by
    simpa only [blanked, refs_mapContents] using congrArg refs h
  have hnext : (d'.blanked r).nextId = (d.blanked r).nextId := by rw [h]
  exact ⟨Int.le_of_eq hnext.symm, fun x hx => .inl (hrefs ▸ hx)⟩

/-- An insertion or removal. -/
theorem Evolves.perform (hd : d.WellFormed) {e : Edited Bool} (h : d.restructured? op = some e) :
    d.Evolves (d.perform op) := by
  cases op with
  | addPremise formula within => exact evolves_addPremise hd formula within
  | addPremiseBeside formula anchor after => exact evolves_addPremiseBeside hd formula anchor after
  | prependStep content within => exact evolves_prependStep hd content within
  | addStep content within => exact evolves_addStep hd content within
  | addStepBeside content anchor after => exact evolves_addStepBeside hd content anchor after
  | addSubproof within empty => exact evolves_addSubproof hd within empty
  | addSubproofBeside anchor after => exact evolves_addSubproofBeside hd anchor after
  | removeLine r => exact evolves_removeLine hd r
  | removeSubproof r => exact evolves_removeSubproof r
  | _ => cases h

/-- What an operation is about: the parts of the derivation, the content of one line, or nothing. -/
theorem perform_cases (d : Derivation) (op : Operation) :
    (∃ e, d.restructured? op = some e) ∨ (∃ r, d.edited? op = some r) ∨ d.perform op = d := by
  cases op with
  | assignFormula formula =>
      cases hheld : d.held with
      | none => exact .inr (.inr (by simp [perform, assignFormula, hheld]))
      | some r => exact .inr (.inl ⟨r, hheld⟩)
  | assignStep content =>
      cases hheld : d.held with
      | none => exact .inr (.inr (by simp [perform, modifyHeldStep, hheld]))
      | some r => exact .inr (.inl ⟨r, hheld⟩)
  | setPremise r formula => exact .inr (.inl ⟨r, rfl⟩)
  | setConclusion r formula => exact .inr (.inl ⟨r, rfl⟩)
  | setRule r rule => exact .inr (.inl ⟨r, rfl⟩)
  | toggleDependency r dep => exact .inr (.inl ⟨r, rfl⟩)
  | withPremise r body => exact .inr (.inl ⟨r, rfl⟩)
  | withStep r body => exact .inr (.inl ⟨r, rfl⟩)
  | _ => exact .inl ⟨_, rfl⟩

theorem Grows.perform (hd : d.WellFormed) (op : Operation) : d.Grows (d.perform op) := by
  rcases d.perform_cases op with ⟨e, hop⟩ | ⟨r, hop⟩ | hsame
  · exact .of_evolves (.perform hd hop)
  · exact .of_blanked (blanked_perform hop)
  · rw [hsame]
    exact .refl d

theorem Leads.wellFormed (h : d.Leads among d') (hd : d.WellFormed) : d'.WellFormed := by
  induction h with
  | start => exact hd
  | performed _ op _ ih => exact ih.perform op
  | holding _ held ih => exact ih.of_hold held

theorem Leads.grows (h : d.Leads among d') (hd : d.WellFormed) : d.Grows d' := by
  induction h with
  | start => exact .refl d
  | performed h op _ ih => exact ih.trans (.perform (h.wellFormed hd) op)
  | holding _ held ih => exact ⟨ih.nextId, ih.fresh⟩

/-- A part that is gone does not come back. -/
theorem Grows.not_mem (h : d.Grows d') (h' : d'.Grows d'') (hd : d.WellFormed) (hx : x ∈ d.refs)
    (hgone : x ∉ d'.refs) : x ∉ d''.refs := by
  intro hback
  have hlt := hd.ids_lt x hx
  have hle := h.nextId
  rcases h'.fresh x hback with hmem | hnew
  · exact hgone hmem
  · omega

/-- A part that is there before and after is there in between. -/
theorem Grows.mem (h : d.Grows d') (h' : d'.Grows d'') (hd : d.WellFormed) (hx : x ∈ d.refs)
    (hx'' : x ∈ d''.refs) : x ∈ d'.refs := by
  by_contra hgone
  exact h.not_mem h' hd hx hgone hx''

/-- The result of an insertion, with the reference that it answers; none for other operations. -/
def insertion? (d : Derivation) : Operation → Option (Edited (Option Ref))
  | .addPremise formula within => some (d.addPremise formula within)
  | .addPremiseBeside formula anchor after => some (d.addPremiseBeside formula anchor after)
  | .prependStep content within => some (d.prependStep content within)
  | .addStep content within => some (d.addStep content within)
  | .addStepBeside content anchor after => some (d.addStepBeside content anchor after)
  | .addSubproof within empty => some (d.addSubproof within empty)
  | .addSubproofBeside anchor after => some (d.addSubproofBeside anchor after)
  | .removeLine .. | .removeSubproof .. | .setPremise .. | .setConclusion .. | .setRule ..
  | .toggleDependency .. | .withPremise .. | .withStep .. | .assignFormula ..
  | .assignStep .. => none

/-- An insertion that answers with a reference was allowed and is done. -/
theorem eq_of_insertion {allowed : Bool} {new x : Ref} {changed d' : Derivation}
    (h : d.structural none (if allowed = true then some (some new, changed) else none)
      = .ok (some x, d')) : allowed = true ∧ x = new ∧ d' = changed := by
  unfold structural at h
  split at h
  · cases h
  · cases allowed with
    | true => cases h; exact ⟨rfl, rfl, rfl⟩
    | false => cases h

/-- An insertion answers with the number that comes next. -/
theorem id_of_insertion? (h : d.insertion? op = some (.ok (some x, d'))) : x.id = d.nextId := by
  cases op with
  | addPremise formula within => rw [(eq_of_insertion (Option.some.inj h)).2.1]; rfl
  | addPremiseBeside formula anchor after => rw [(eq_of_insertion (Option.some.inj h)).2.1]; rfl
  | prependStep content within => rw [(eq_of_insertion (Option.some.inj h)).2.1]; rfl
  | addStep content within => rw [(eq_of_insertion (Option.some.inj h)).2.1]; rfl
  | addStepBeside content anchor after => rw [(eq_of_insertion (Option.some.inj h)).2.1]; rfl
  | addSubproof within empty => rw [(eq_of_insertion (Option.some.inj h)).2.1]; rfl
  | addSubproofBeside anchor after => rw [(eq_of_insertion (Option.some.inj h)).2.1]; rfl
  | _ => cases h

/-! ## Contents -/

/-- An operation that is not on the content of a line leaves it as it is. -/
theorem step?_perform (hd : d.WellFormed) (hop : d.edited? op ≠ some x) (hx : x ∈ d.refs)
    (hx' : x ∈ (d.perform op).refs) : (d.perform op).step? x = d.step? x := by
  rcases d.perform_cases op with ⟨e, hrestructured⟩ | ⟨r, hedited⟩ | hsame
  · exact (Agrees.perform hd hrestructured).step x hx hx'
  · have hne : x ≠ r := by
      rintro rfl
      exact hop hedited
    rw [← step?_blanked hne, blanked_perform hedited, step?_blanked hne]
  · rw [hsame]

/-- A step keeps its content until an operation is on it. -/
theorem LeadsSparing.step? (h : d.LeadsSparing x d') (hd : d.WellFormed) (hx : x ∈ d.refs)
    (hx' : x ∈ d'.refs) : d'.step? x = d.step? x := by
  induction h with
  | start => rfl
  | performed h op hop ih =>
      have hwell := h.wellFormed hd
      have hmem := (h.grows hd).mem (.perform hwell op) hd hx hx'
      rw [step?_perform hwell hop hmem hx', ih hmem]
  | holding h held ih => exact ih hx'

/-! ## Verdicts -/

theorem badDependency?_of_gone {content : Step} {dep : Ref} (hcites : content.cites dep = true)
    (hgone : dep ∉ d.refs) : (d.badDependency? r content).isNone = false := by
  have hcite : d.canCite r dep = false := by
    have hcontains : d.contains dep = false := by rwa [← Bool.not_eq_true, contains_iff]
    simp [canCite, hcontains]
  rw [← Bool.not_eq_true, Option.isNone_iff_eq_none, badDependency?_eq_none_iff]
  rintro ⟨hlines, hsubproofs⟩
  rcases List.mem_append.1 (Step.mem_of_cites hcites) with hdep | hdep
  · rw [(hlines dep hdep).2] at hcite
    cases hcite
  · rw [(hsubproofs dep hdep).2] at hcite
    cases hcite

/-- A step that was verified and cites what is not there has a bad dependency. -/
theorem kindOf_verifyLine_of_gone {catalog : Catalog} {j : Int} {dep : Ref}
    (hverified : d.verifyLine catalog (some (.step j)) = .ok none) (hcites : d.Cites (.step j) dep)
    (hsame : d'.step? (.step j) = d.step? (.step j)) (hgone : dep ∉ d'.refs) :
    kindOf (d'.verifyLine catalog (some (.step j))) = .ok (some .badDependency) := by
  obtain ⟨content, hcontent, hdep⟩ := hcites
  have hkind := kindOf_verifyLine_step catalog hcontent
  have hkind' := kindOf_verifyLine_step catalog (hsame.trans hcontent)
  rw [hverified] at hkind
  -- all that is checked before the dependencies was in order, and has not changed
  cases hconclusion : content.conclusion with
  | none =>
      rw [hconclusion] at hkind
      cases hkind
  | some conclusion =>
      rw [hconclusion, Option.elim_some] at hkind hkind'
      rw [hkind']
      split at hkind
      · cases hkind
      · next hrule =>
          rw [if_neg hrule]
          cases hcited : catalog.cited? content.rule with
          | error e =>
              rw [hcited] at hkind
              cases hkind
          | ok found =>
              rw [hcited] at hkind
              cases found with
              | none => cases hkind
              | some rule =>
                  show kindOf (d'.verifyStep (.step j) content conclusion rule) = _
                  rw [kindOf_verifyStep, badDependency?_of_gone hdep hgone]
                  rfl

/-- Whatever operations led to a derivation and go on from there: A part that is new at some point,
    and the reference that an insertion answers, has a greater number than all parts that there
    were. A part that is gone does not come back. A step that was verified and has lost a part that
    it cites has a bad dependency at every later point at which its content is the same; and as long
    as it is there it is the same until an operation is on it. -/
theorem references_never_reused (hd : Reachable d) :
    (∀ d₁ op, d.LeadsTo d₁ → ∀ y, d.contains y = true →
      (∀ x d₂, d₁.insertion? op = some (.ok (some x, d₂)) → y.id < x.id) ∧
      ∀ x, (d₁.perform op).contains x = true → d₁.contains x = false → y.id < x.id) ∧
    (∀ d₁ d₂ x, d.LeadsTo d₁ → d₁.LeadsTo d₂ →
      d.contains x = true → d₁.contains x = false → d₂.contains x = false) ∧
    (∀ catalog j dep d₁ d₂, d.verifyLine catalog (some (.step j)) = .ok none →
      d.Cites (.step j) dep → d.LeadsTo d₁ → d₁.contains dep = false → d₁.LeadsTo d₂ →
      d₂.step? (.step j) = d.step? (.step j) →
      kindOf (d₂.verifyLine catalog (some (.step j))) = .ok (some .badDependency)) ∧
    ∀ j d₂, d.contains (.step j) = true → d.LeadsSparing (.step j) d₂ →
      d₂.contains (.step j) = true → d₂.step? (.step j) = d.step? (.step j) := by
  have hwell := hd.wellFormed
  have hgone : ∀ d₁ d₂ x, d.LeadsTo d₁ → d₁.LeadsTo d₂ → x ∈ d.refs → x ∉ d₁.refs → x ∉ d₂.refs :=
    fun d₁ d₂ x h₁ h₂ hx => (h₁.grows hwell).not_mem (h₂.grows (h₁.wellFormed hwell)) hwell hx
  refine ⟨?_, ?_, ?_, ?_⟩
  · intro d₁ op h y hy
    have hlt := hwell.ids_lt y (contains_iff.1 hy)
    have hle := (h.grows hwell).nextId
    refine ⟨fun x d₂ hx => ?_, fun x hx hx' => ?_⟩
    · have hid := id_of_insertion? hx
      omega
    · have hnot : x ∉ d₁.refs := by rw [← contains_iff, hx']; exact Bool.false_ne_true
      have hgrows : d₁.Grows (d₁.perform op) := .perform (h.wellFormed hwell) op
      have hnew := (hgrows.fresh x (contains_iff.1 hx)).resolve_left hnot
      omega
  · simpa only [← Bool.not_eq_true, contains_iff] using hgone
  · intro catalog j dep d₁ d₂ hverified hcites h₁ hlost h₂ hsame
    have hlive : dep ∈ d.refs := by
      by_contra hnot
      have hbad := kindOf_verifyLine_of_gone hverified hcites rfl hnot
      rw [hverified] at hbad
      cases hbad
    refine kindOf_verifyLine_of_gone hverified hcites hsame (hgone d₁ d₂ dep h₁ h₂ hlive ?_)
    rw [← contains_iff, hlost]
    exact Bool.false_ne_true
  · intro j d₂ hj h hj'
    exact h.step? hwell (contains_iff.1 hj) (contains_iff.1 hj')

/-- A step cites a line that is removed, and stays wrong when a line with the same content is put in
    the place of the removed one. -/
theorem references_never_reused_replaced :
    let p := Formula.var "P"
    let first : Step := ⟨some p, .text "DOUBLE_NEGATION", [.premise 1], []⟩
    let d := (Derivation.ofPremise (some (.neg (.neg p)))).performAll
      [.addStep first none,
        .addStep ⟨some (.neg (.neg p)), .text "DOUBLE_NEGATION", [.step 2], []⟩ none]
    let d₁ := d.perform (.removeLine (.step 2))
    let d₂ := d₁.performAll [.addStepBeside first (.step 3) false]
    d.verifyLine .builtin (some (.step 3)) = .ok none ∧
      d₂.refs = [.premise 1, .step 4, .step 3] ∧
      kindOf (d₂.verifyLine .builtin (some (.step 3))) = .ok (some .badDependency) := by
  intro p first d d₁ d₂
  have hd : Reachable d := (Reachable.ofPremise _).performAll _
  have hverified : d.verifyLine .builtin (some (.step 3)) = .ok none := by cbv
  have hcites : d.Cites (.step 3) (.step 2) := ⟨_, rfl, rfl⟩
  have hremoved : d.LeadsTo d₁ := .performed .start _ trivial
  have hgone : d₁.contains (.step 2) = false := by decide
  have hreplaced : d₁.LeadsTo d₂ := .performAll .start _
  have hsame : d₂.step? (.step 3) = d.step? (.step 3) := by decide
  have hrefs : d₂.refs = [.premise 1, .step 4, .step 3] := by decide
  have hbad := (references_never_reused hd).2.2.1 .builtin 3 (.step 2) d₁ d₂ hverified hcites
    hremoved hgone hreplaced hsame
  exact ⟨hverified, hrefs, hbad⟩

end Derivation

end Deduction
