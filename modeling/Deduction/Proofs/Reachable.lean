import Deduction.Proofs.WellFormed

set_option autoImplicit false

/-! # Reachable derivations

Operations as data, so that what holds of every derivation can be proved by going through the
sequences of operations that lead to it. An operation that is refused, or that is not allowed because
a line is held, leaves the derivation as it is. A line is held while a list of operations runs; of
these only assignments to the held line have an effect.

Every reachable derivation is well-formed. -/

namespace Deduction

/-- What can be done to a derivation. -/
inductive Operation where
  | addPremise (formula : Option Formula) (within : Option Ref)
  | addPremiseBeside (formula : Option Formula) (anchor : Ref) (after : Bool)
  | prependStep (content : Step) (within : Option Ref)
  | addStep (content : Step) (within : Option Ref)
  | addStepBeside (content : Step) (anchor : Ref) (after : Bool)
  | addSubproof (within : Option Ref) (empty : Bool)
  | addSubproofBeside (anchor : Ref) (after : Bool)
  | removeLine (r : Ref)
  | removeSubproof (r : Ref)
  | setPremise (r : Ref) (formula : Option Formula)
  | setConclusion (r : Ref) (formula : Option Formula)
  | setRule (r : Ref) (rule : Value)
  | toggleDependency (r dep : Ref)
  /-- Holds a premise while other operations run. -/
  | withPremise (r : Ref) (body : List Operation)
  /-- Holds a step while other operations run. -/
  | withStep (r : Ref) (body : List Operation)
  /-- Assigns a formula to the held line. -/
  | assignFormula (formula : Option Formula)
  /-- Assigns a whole content to the held step. -/
  | assignStep (content : Step)

namespace Derivation

/-- The derivation after an edit of `d`. -/
def Edited.after {α : Type} (d : Derivation) : Edited α → Derivation
  | .ok (_, d') => d'
  | .error _ => d

mutual

/-- The derivation after an operation. -/
def perform (d : Derivation) : Operation → Derivation
  | .addPremise formula within => (d.addPremise formula within).after d
  | .addPremiseBeside formula anchor after => (d.addPremiseBeside formula anchor after).after d
  | .prependStep content within => (d.prependStep content within).after d
  | .addStep content within => (d.addStep content within).after d
  | .addStepBeside content anchor after => (d.addStepBeside content anchor after).after d
  | .addSubproof within empty => (d.addSubproof within empty).after d
  | .addSubproofBeside anchor after => (d.addSubproofBeside anchor after).after d
  | .removeLine r => (d.removeLine r).after d
  | .removeSubproof r => (d.removeSubproof r).after d
  | .setPremise r formula => (d.setPremise r formula).after d
  | .setConclusion r formula => (d.setConclusion r formula).after d
  | .setRule r rule => (d.setRule r rule).after d
  | .toggleDependency r dep => (d.toggleDependency r dep).after d
  | .withPremise r body => (d.withPremise r fun d => ((), d.performAll body)).after d
  | .withStep r body => (d.withStep r fun d => ((), d.performAll body)).after d
  | .assignFormula formula => d.assignFormula formula
  | .assignStep content => d.modifyHeldStep fun _ => content

/-- The derivation after one operation after the other. -/
def performAll (d : Derivation) : List Operation → Derivation
  | [] => d
  | op :: ops => (d.perform op).performAll ops

end

/-- The derivations that operations lead to. Those that a line is held in, as they are seen while
    operations run on them, are among them. -/
inductive Reachable : Derivation → Prop
  | ofPremise (formula : Option Formula) : Reachable (.ofPremise formula)
  | blank : Reachable .blank
  | loaded {v : Value} {d : Derivation} (h : Document.loadValue v = .ok d) : Reachable d
  | held {d : Derivation} {r : Ref} (hd : Reachable d) (hfree : d.held = none)
      (hr : (d.premise? r).isSome = true ∨ (d.step? r).isSome = true) :
      Reachable { d with held := some r }
  | performed {d : Derivation} (op : Operation) (hd : Reachable d) : Reachable (d.perform op)

variable {α : Type} {d : Derivation}

theorem Reachable.performAll (hd : Reachable d) (ops : List Operation) :
    Reachable (d.performAll ops) := by
  induction ops generalizing d with
  | nil => exact hd
  | cons op ops ih => exact ih (hd.performed op)

/-! ## Every operation keeps derivations well-formed -/

theorem Evolves.after_structural {refused : α} {change : Option (α × Derivation)}
    (h : ∀ a d', change = some (a, d') → d.Evolves d') :
    d.Evolves ((d.structural refused change).after d) := by
  unfold structural
  split
  · exact .refl d
  · cases change with
    | none => exact .refl d
    | some result => exact h result.1 result.2 rfl

theorem WellFormed.of_hold (hd : d.WellFormed) (held : Option Ref) :
    { d with held := held }.WellFormed :=
  ⟨hd.ids_nodup, hd.ids_lt, hd.premised⟩

theorem WellFormed.after_hold (hd : d.WellFormed) {r : Ref} {body : Derivation → α × Derivation}
    (hbody : ∀ d' : Derivation, d'.WellFormed → (body d').2.WellFormed) :
    ((d.hold r body).after d).WellFormed := by
  unfold hold
  split
  · exact hd
  · exact (hbody _ (hd.of_hold (some r))).of_hold none

theorem WellFormed.after_withPremise (hd : d.WellFormed) {r : Ref}
    {body : Derivation → α × Derivation}
    (hbody : ∀ d' : Derivation, d'.WellFormed → (body d').2.WellFormed) :
    ((d.withPremise r body).after d).WellFormed := by
  unfold withPremise
  split
  · exact hd.after_hold hbody
  · exact hd

theorem WellFormed.after_withStep (hd : d.WellFormed) {r : Ref} {body : Derivation → α × Derivation}
    (hbody : ∀ d' : Derivation, d'.WellFormed → (body d').2.WellFormed) :
    ((d.withStep r body).after d).WellFormed := by
  unfold withStep
  split
  · exact hd.after_hold hbody
  · exact hd

theorem after_happened (d : Derivation) (e : Edited (Option Unit)) :
    (Edited.happened e).after d = e.after d := by
  cases e with
  | error e => rfl
  | ok result => rfl

theorem evolves_addPremise (hd : d.WellFormed) (formula : Option Formula) (within : Option Ref) :
    d.Evolves ((d.addPremise formula within).after d) := by
  refine .after_structural fun a d' h => ?_
  split at h
  · next hwithin =>
      obtain ⟨-, rfl⟩ := Prod.mk.inj (Option.some.inj h)
      have hnew : Numbered d.nextId (d.nextId + 1) [Ref.premise d.nextId] := ⟨rfl, rfl⟩
      refine .of_modifyScope hd hwithin hnew (fun s => ?_) (by simp)
      simp only [Scope.refs_eq, Scope.premiseRefs, List.map_append, List.append_assoc]
      exact List.perm_append_comm_assoc _ [Ref.premise d.nextId] _
  · exact absurd h (by simp)

theorem evolves_addPremiseBeside (hd : d.WellFormed) (formula : Option Formula) (anchor : Ref)
    (after : Bool) : d.Evolves ((d.addPremiseBeside formula anchor after).after d) := by
  refine .after_structural fun a d' h => ?_
  split at h
  · next hanchor =>
      obtain ⟨-, rfl⟩ := Prod.mk.inj (Option.some.inj h)
      exact .of_insertPremise hd hanchor after formula
  · exact absurd h (by simp)

theorem evolves_prependStep (hd : d.WellFormed) (content : Step) (within : Option Ref) :
    d.Evolves ((d.prependStep content within).after d) := by
  refine .after_structural fun a d' h => ?_
  split at h
  · next hwithin =>
      obtain ⟨-, rfl⟩ := Prod.mk.inj (Option.some.inj h)
      have hnew : Numbered d.nextId (d.nextId + 1) [Ref.step d.nextId] := ⟨rfl, rfl⟩
      refine .of_modifyScope hd hwithin hnew (fun s => ?_) fun s hs => hs
      simp only [Scope.refs_eq, Lines.parts]
      exact List.perm_append_comm_assoc _ [Ref.step d.nextId] _
  · exact absurd h (by simp)

/-- Lines put behind the lines of a scope are added to it. -/
theorem refs_append_perm (s : Scope) (more : Lines) :
    { s with lines := s.lines.append more }.refs.Perm (more.parts ++ s.refs) := by
  simp only [Scope.refs_eq, Lines.parts_append]
  rw [← List.append_assoc]
  exact List.perm_append_comm

theorem evolves_addStep (hd : d.WellFormed) (content : Step) (within : Option Ref) :
    d.Evolves ((d.addStep content within).after d) := by
  refine .after_structural fun a d' h => ?_
  split at h
  · next hwithin =>
      obtain ⟨-, rfl⟩ := Prod.mk.inj (Option.some.inj h)
      have hnew : Numbered d.nextId (d.nextId + 1) [Ref.step d.nextId] := ⟨rfl, rfl⟩
      exact .of_modifyScope hd hwithin hnew (fun s => refs_append_perm s _) fun s hs => hs
  · exact absurd h (by simp)

theorem evolves_addStepBeside (hd : d.WellFormed) (content : Step) (anchor : Ref) (after : Bool) :
    d.Evolves ((d.addStepBeside content anchor after).after d) := by
  refine .after_structural fun a d' h => ?_
  split at h
  · next hanchor =>
      obtain ⟨-, rfl⟩ := Prod.mk.inj (Option.some.inj h)
      have hnew : Numbered d.nextId (d.nextId + 1) [Ref.step d.nextId] := ⟨rfl, rfl⟩
      exact .of_insertBeside hd hanchor hnew fun M => List.Perm.refl _
  · exact absurd h (by simp)

/-- The three parts of a blank subproof. -/
theorem numbered_blankSubproof (id : Int) :
    Numbered id (id + 3) [Ref.subproof id, Ref.premise (id + 1), Ref.step (id + 2)] := by
  refine ⟨rfl, rfl, ?_, ?_⟩
  · simp only [Ref.id]
    omega
  · show id + 3 = id + 1 + 1 + 1
    omega

theorem evolves_addSubproof (hd : d.WellFormed) (within : Option Ref) (empty : Bool) :
    d.Evolves ((d.addSubproof within empty).after d) := by
  refine .after_structural fun a d' h => ?_
  split at h
  · next hwithin =>
      obtain ⟨-, rfl⟩ := Prod.mk.inj (Option.some.inj h)
      cases empty with
      | true =>
          have hnew : Numbered d.nextId (d.nextId + 1) [Ref.subproof d.nextId] := ⟨rfl, rfl⟩
          exact .of_modifyScope hd hwithin hnew (fun s => refs_append_perm s _) fun s hs => hs
      | false =>
          exact .of_modifyScope hd hwithin (numbered_blankSubproof d.nextId)
            (fun s => refs_append_perm s _) fun s hs => hs
  · exact absurd h (by simp)

theorem evolves_addSubproofBeside (hd : d.WellFormed) (anchor : Ref) (after : Bool) :
    d.Evolves ((d.addSubproofBeside anchor after).after d) := by
  refine .after_structural fun a d' h => ?_
  split at h
  · next hanchor =>
      obtain ⟨-, rfl⟩ := Prod.mk.inj (Option.some.inj h)
      exact .of_insertBeside hd hanchor (numbered_blankSubproof d.nextId) fun M => List.Perm.refl _
  · exact absurd h (by simp)

/-- A premise is left after a removal that is allowed. -/
theorem remaining_premises (hd : d.WellFormed) {r : Ref} (h : d.mayRemoveLine r = true) :
    d.root.premises.filter (fun p => p.ref ≠ r) ≠ [] := by
  intro hnil
  have hall : ∀ p ∈ d.root.premises, p.ref = r := by
    simpa using List.filter_eq_nil_iff.1 hnil
  have hne := hd.premised
  have hnodup := hd.nodup_premiseRefs
  rw [Scope.premiseRefs] at hnodup
  cases r with
  | subproof id => exact absurd h (by simp [mayRemoveLine])
  | step id =>
      obtain ⟨p, hp⟩ := List.exists_mem_of_ne_nil _ hne
      exact absurd (hall p hp) (by simp [Premise.ref])
  | premise id =>
      have hlength : 1 < d.root.premises.length := by
        simp only [mayRemoveLine, Bool.and_eq_true, decide_eq_true_eq] at h
        exact h.2
      -- the first two premises would have one reference
      rcases hpremises : d.root.premises with _ | ⟨p, _ | ⟨p', rest⟩⟩
      · exact hne hpremises
      · exact absurd hlength (by simp [hpremises])
      · rw [hpremises] at hall hnodup
        have heq : p.ref = p'.ref := (hall p (by simp)).trans (hall p' (by simp)).symm
        exact absurd hnodup (by simp [heq])

theorem evolves_removeLine (hd : d.WellFormed) (r : Ref) :
    d.Evolves ((d.removeLine r).after d) := by
  refine .after_structural fun a d' h => ?_
  split at h
  · next hmay =>
      obtain ⟨-, rfl⟩ := Prod.mk.inj (Option.some.inj h)
      exact .of_erase List.filter_sublist (fun _ => remaining_premises hd hmay) r
  · exact absurd h (by simp)

theorem evolves_removeSubproof (r : Ref) : d.Evolves ((d.removeSubproof r).after d) := by
  refine .after_structural fun a d' h => ?_
  split at h
  · obtain ⟨-, rfl⟩ := Prod.mk.inj (Option.some.inj h)
    exact .of_erase (List.Sublist.refl _) (fun hne => hne) r
  · exact absurd h (by simp)

mutual

theorem WellFormed.perform {d : Derivation} (hd : d.WellFormed) :
    ∀ op : Operation, (d.perform op).WellFormed
  | .addPremise formula within => hd.evolves (evolves_addPremise hd formula within)
  | .addPremiseBeside formula anchor after =>
      hd.evolves (evolves_addPremiseBeside hd formula anchor after)
  | .prependStep content within => hd.evolves (evolves_prependStep hd content within)
  | .addStep content within => hd.evolves (evolves_addStep hd content within)
  | .addStepBeside content anchor after =>
      hd.evolves (evolves_addStepBeside hd content anchor after)
  | .addSubproof within empty => hd.evolves (evolves_addSubproof hd within empty)
  | .addSubproofBeside anchor after => hd.evolves (evolves_addSubproofBeside hd anchor after)
  | .removeLine r => hd.evolves (evolves_removeLine hd r)
  | .removeSubproof r => hd.evolves (evolves_removeSubproof r)
  | .setPremise r formula => by
      rw [Derivation.perform, setPremise, after_happened]
      exact hd.after_withPremise fun d' hd' => hd'.evolves (evolves_assignFormula d' formula)
  | .setConclusion r formula => by
      rw [Derivation.perform, setConclusion, after_happened]
      exact hd.after_withStep fun d' hd' => hd'.evolves (evolves_assignFormula d' formula)
  | .setRule r rule => by
      rw [Derivation.perform, setRule, after_happened]
      exact hd.after_withStep fun d' hd' => hd'.evolves (evolves_modifyHeldStep d' _)
  | .toggleDependency r dep =>
      hd.after_withStep fun d' hd' => hd'.evolves (evolves_modifyHeldStep d' _)
  | .withPremise r body => hd.after_withPremise fun d' hd' => hd'.performAll body
  | .withStep r body => hd.after_withStep fun d' hd' => hd'.performAll body
  | .assignFormula formula => hd.evolves (evolves_assignFormula d formula)
  | .assignStep content => hd.evolves (evolves_modifyHeldStep d _)

theorem WellFormed.performAll {d : Derivation} (hd : d.WellFormed) :
    ∀ ops : List Operation, (d.performAll ops).WellFormed
  | [] => hd
  | op :: ops => (hd.perform op).performAll ops

end

/-- Every reachable derivation is well-formed. -/
theorem Reachable.wellFormed (h : Reachable d) : d.WellFormed := by
  induction h with
  | ofPremise formula => exact .of_numbered 1 ⟨rfl, rfl⟩ (List.cons_ne_nil _ _)
  | blank => exact .of_numbered 1 ⟨rfl, rfl, rfl⟩ (List.cons_ne_nil _ _)
  | loaded h =>
      obtain ⟨doc, -, hload⟩ := bind_eq_ok.1 h
      exact Document.load_wellFormed hload
  | held hd _ _ ih => exact ih.of_hold _
  | performed op _ ih => exact ih.perform op

end Derivation

end Deduction
