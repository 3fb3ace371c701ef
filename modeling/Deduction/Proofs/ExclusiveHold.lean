import Deduction.Proofs.ContentChanges
import Deduction.Session

set_option autoImplicit false

/-! # Holding a line is exclusive

A line is held while a callback runs. The callback may look at the derivation, try any operation,
hold lines for callbacks of its own and assign to the held line, and what it does next may depend on
how all that went. It ends by itself or by an exception.

Whatever it does, the operations that a hold does not allow have no effect. So the derivation is the
same afterwards but for the content of the held line, which is what the assignments made of it. -/

namespace Deduction

/-! ## Contents -/

/-- The content of the held line after an operation. -/
def Content.assigned : Content → Operation → Content
  | c, .assignFormula formula => c.assignFormula formula
  | .step _, .assignStep content => .step content
  | c, _ => c

theorem Content.assigned_of_not_assigns {op : Operation} (h : op.assigns = false) (c : Content) :
    c.assigned op = c := by
  cases op with
  | assignFormula formula => cases h
  | assignStep content => cases h
  | _ => cases c <;> rfl

namespace Derivation

variable {d : Derivation} {r : Ref}

/-- The content of a line: what can be assigned to when it is held. -/
def contentOf (d : Derivation) (r : Ref) : Option Content := { d with held := some r }.heldContent?

theorem contentOf_premise (d : Derivation) (id : Int) :
    d.contentOf (.premise id) = (d.premise? (.premise id)).map fun p => .premise p.formula := rfl

theorem contentOf_step (d : Derivation) (id : Int) :
    d.contentOf (.step id) = (d.step? (.step id)).map .step := rfl

theorem contentOf_of_premise? {p : Premise} (h : d.premise? r = some p) :
    d.contentOf r = some (.premise p.formula) := by
  cases r with
  | premise id => rw [contentOf_premise, h, Option.map_some]
  | step id => cases h
  | subproof id => cases h

theorem contentOf_of_step? {content : Step} (h : d.step? r = some content) :
    d.contentOf r = some (.step content) := by
  cases r with
  | premise id => cases h
  | step id => rw [contentOf_step, h, Option.map_some]
  | subproof id => cases h

theorem step?_modifyStep (d : Derivation) (id : Int) (change : Step → Step) :
    (d.modifyStep id change).step? (.step id) = (d.step? (.step id)).map change := by
  rw [modifyStep_eq_mapContents, step?_mapContents]
  simp

theorem premise?_setFormula (d : Derivation) (id : Int) (formula : Option Formula) :
    (d.setFormula id formula).premise? (.premise id) =
      (d.premise? (.premise id)).map fun p => { p with formula } := by
  rw [setFormula_eq_mapContents, premise?_mapContents]
  cases hp : d.premise? (.premise id) with
  | none => rfl
  | some p =>
      have hid : p.id = id := Ref.premise.inj (mem_of_premise? hp).2
      simp [Premise.mapFormula, hid]

theorem contentOf_assignFormula (hheld : d.held = some r) {c : Content} (h : d.contentOf r = some c)
    (formula : Option Formula) :
    (d.assignFormula formula).contentOf r = some (c.assignFormula formula) := by
  unfold assignFormula
  rw [hheld]
  cases r with
  | premise id =>
      obtain ⟨p, hp, rfl⟩ := Option.map_eq_some_iff.1 (contentOf_premise d id ▸ h)
      rw [contentOf_premise, premise?_setFormula, hp]
      rfl
  | step id =>
      obtain ⟨content, hcontent, rfl⟩ := Option.map_eq_some_iff.1 (contentOf_step d id ▸ h)
      rw [contentOf_step, step?_modifyStep, hcontent]
      rfl
  | subproof id => cases h

theorem contentOf_assignStep (hheld : d.held = some r) {c : Content} (h : d.contentOf r = some c)
    (content : Step) :
    (d.modifyHeldStep fun _ => content).contentOf r = some (c.assigned (.assignStep content)) := by
  unfold modifyHeldStep
  rw [hheld]
  cases r with
  | premise id =>
      obtain ⟨p, -, rfl⟩ := Option.map_eq_some_iff.1 (contentOf_premise d id ▸ h)
      exact h
  | step id =>
      obtain ⟨old, hold, rfl⟩ := Option.map_eq_some_iff.1 (contentOf_step d id ▸ h)
      rw [contentOf_step, step?_modifyStep, hold]
      rfl
  | subproof id => cases h

/-- An operation leaves the content of the held line as it is, or assigns to it. -/
theorem contentOf_perform (hheld : d.held = some r) {c : Content} (h : d.contentOf r = some c)
    (op : Operation) : (d.perform op).contentOf r = some (c.assigned op) := by
  cases hop : op.assigns with
  | false => rw [perform_of_held hheld hop, c.assigned_of_not_assigns hop, h]
  | true =>
      cases op with
      | assignFormula formula => exact contentOf_assignFormula hheld h formula
      | assignStep content => exact contentOf_assignStep hheld h content
      | _ => cases hop

/-! ## Operations that a hold does not allow -/

/-- Is an operation one that only a derivation that is not held allows? Insertions and removals are,
    and changes of lines that there are. -/
def guards (d : Derivation) : Operation → Bool
  | .addPremise .. | .addPremiseBeside .. | .prependStep .. | .addStep .. | .addStepBeside ..
  | .addSubproof .. | .addSubproofBeside .. | .removeLine .. | .removeSubproof .. => true
  | .setPremise r _ | .withPremise r _ => (d.premise? r).isSome
  | .setConclusion r _ | .setRule r _ | .toggleDependency r _ | .withStep r _ => (d.step? r).isSome
  | .assignFormula _ | .assignStep _ => false

/-- The result of an edit without its answer. -/
def Edited.silent {α : Type} (e : Edited α) : Edited Unit := e.map fun result => ((), result.2)

/-- Tries an operation. -/
def attempt (d : Derivation) : Operation → Edited Unit
  | .addPremise formula within => (d.addPremise formula within).silent
  | .addPremiseBeside formula anchor after => (d.addPremiseBeside formula anchor after).silent
  | .prependStep content within => (d.prependStep content within).silent
  | .addStep content within => (d.addStep content within).silent
  | .addStepBeside content anchor after => (d.addStepBeside content anchor after).silent
  | .addSubproof within empty => (d.addSubproof within empty).silent
  | .addSubproofBeside anchor after => (d.addSubproofBeside anchor after).silent
  | .removeLine r => (d.removeLine r).silent
  | .removeSubproof r => (d.removeSubproof r).silent
  | .setPremise r formula => (d.setPremise r formula).silent
  | .setConclusion r formula => (d.setConclusion r formula).silent
  | .setRule r rule => (d.setRule r rule).silent
  | .toggleDependency r dep => (d.toggleDependency r dep).silent
  | .withPremise r body => (d.withPremise r fun d => ((), d.performAll body)).silent
  | .withStep r body => (d.withStep r fun d => ((), d.performAll body)).silent
  | .assignFormula formula => .ok ((), d.assignFormula formula)
  | .assignStep content => .ok ((), d.modifyHeldStep fun _ => content)

theorem after_silent {α : Type} (d : Derivation) (e : Edited α) : e.silent.after d = e.after d := by
  cases e with
  | error e => rfl
  | ok result => rfl

theorem after_attempt (d : Derivation) (op : Operation) :
    (d.attempt op).after d = d.perform op := by
  cases op with
  | assignFormula formula => rfl
  | assignStep content => rfl
  | _ => exact after_silent d _

section

variable {α : Type} (hheld : d.held = some r)

include hheld

theorem structural_of_held (refused : α) (change : Option (α × Derivation)) :
    d.structural refused change = .error .held := by
  simp [structural, hheld]

theorem withPremise_of_held {p : Ref} (hp : (d.premise? p).isSome = true)
    (body : Derivation → α × Derivation) : d.withPremise p body = .error .held := by
  simp [withPremise, hp, hold, hheld]

theorem withStep_of_held {s : Ref} (hs : (d.step? s).isSome = true)
    (body : Derivation → α × Derivation) : d.withStep s body = .error .held := by
  simp [withStep, hs, hold, hheld]

theorem attempt_of_held {op : Operation} (hop : d.guards op = true) :
    d.attempt op = .error .held := by
  cases op with
  | setPremise p formula => rw [attempt, setPremise, withPremise_of_held hheld hop]; rfl
  | setConclusion s formula => rw [attempt, setConclusion, withStep_of_held hheld hop]; rfl
  | setRule s rule => rw [attempt, setRule, withStep_of_held hheld hop]; rfl
  | toggleDependency s dep => rw [attempt, toggleDependency, withStep_of_held hheld hop]; rfl
  | withPremise p body => rw [attempt, withPremise_of_held hheld hop]; rfl
  | withStep s body => rw [attempt, withStep_of_held hheld hop]; rfl
  | assignFormula formula => cases hop
  | assignStep content => cases hop
  | _ => exact congrArg Edited.silent (structural_of_held hheld _ _)

end

end Derivation

/-! ## Callbacks -/

/-- How a callback comes to its end. -/
inductive Ending where
  | returned
  | raised
deriving DecidableEq

/-- What runs while a line is held. -/
inductive Callback where
  | finish (ending : Ending)
  /-- Looks at the derivation. -/
  | inspect (next : Derivation → Callback)
  /-- Tries an operation; an error may be caught or end the callback. -/
  | attempt (op : Operation) (next : Except Derivation.AccessError Unit → Callback)
  /-- Holds a premise for a callback. -/
  | withPremise (r : Ref) (body : Callback)
      (next : Except Derivation.AccessError (Option Ending) → Callback)
  /-- Holds a step for a callback. -/
  | withStep (r : Ref) (body : Callback)
      (next : Except Derivation.AccessError (Option Ending) → Callback)

/-- An operation that was tried, and the derivation before and after it. -/
structure Call where
  before : Derivation
  operation : Operation
  outcome : Except Derivation.AccessError Unit
  after : Derivation

/-- How a callback ended, and what it had tried until then, in order. -/
structure Transcript where
  ending : Ending
  calls : List Call

namespace Transcript

/-- The transcript with one more call in front. -/
def logged (call : Call) (log : Transcript) : Transcript := { log with calls := call :: log.calls }

def operations (log : Transcript) : List Operation := log.calls.map Call.operation

end Transcript

/-- The operations of a callback that ran, if it did. -/
def Derivation.Edited.nested (e : Derivation.Edited (Option Transcript)) : List Operation :=
  match e with
  | .ok (some log, _) => log.operations
  | .ok (none, _) | .error _ => []

/-- Runs a callback. -/
def Callback.run : Callback → Derivation → Transcript × Derivation
  | .finish ending, d => (⟨ending, []⟩, d)
  | .inspect next, d => (next d).run d
  | .attempt op next, d =>
    let outcome := (d.attempt op).map Prod.fst
    let after := (d.attempt op).after d
    let rest := (next outcome).run after
    (rest.1.logged ⟨d, op, outcome, after⟩, rest.2)
  | .withPremise r body next, d =>
    let held := d.withPremise r body.run
    let rest := (next (held.map fun result => result.1.map Transcript.ending)).run (held.after d)
    (rest.1.logged ⟨d, .withPremise r held.nested, held.map fun _ => (), held.after d⟩, rest.2)
  | .withStep r body next, d =>
    let held := d.withStep r body.run
    let rest := (next (held.map fun result => result.1.map Transcript.ending)).run (held.after d)
    (rest.1.logged ⟨d, .withStep r held.nested, held.map fun _ => (), held.after d⟩, rest.2)

namespace Derivation

/-! ## What a callback can do -/

/-- What there is to say about a callback that line `r` was held for: all that a hold does not allow
    was refused, and nothing but the content of `r` is different, which is what the assignments made
    of it. -/
structure Exclusive (d : Derivation) (r : Ref) (content : Content) (log : Transcript)
    (d' : Derivation) : Prop where
  refused : ∀ call ∈ log.calls, call.before.guards call.operation = true →
    call.outcome = .error .held ∧ call.after = call.before
  unchanged : d'.blanked r = d.blanked r
  content : d'.contentOf r = some (log.operations.foldl Content.assigned content)

variable {d d' : Derivation} {r : Ref} {c : Content}

/-- A callback that is at its end, or only looks. -/
theorem Exclusive.finish (hcontent : d.contentOf r = some c) (ending : Ending) :
    d.Exclusive r c ⟨ending, []⟩ d :=
  ⟨by simp, rfl, hcontent⟩

/-- One operation, and then the rest. -/
theorem Exclusive.logged {op : Operation} {outcome : Except AccessError Unit} {log : Transcript}
    (hheld : d.held = some r)
    (hrefused : d.guards op = true → outcome = .error .held ∧ d.perform op = d)
    (hrest : (d.perform op).Exclusive r (c.assigned op) log d') :
    d.Exclusive r c (log.logged ⟨d, op, outcome, d.perform op⟩) d' where
  refused := List.forall_mem_cons.2 ⟨hrefused, hrest.refused⟩
  unchanged := hrest.unchanged.trans (blanked_perform_of_held hheld op)
  content := hrest.content

/-- One operation that is no assignment, and then the rest. -/
theorem Exclusive.idle {op : Operation} {outcome : Except AccessError Unit} {log : Transcript}
    (hheld : d.held = some r) (hop : op.assigns = false)
    (hrefused : d.guards op = true → outcome = .error .held)
    (hrest : d.Exclusive r c log d') :
    d.Exclusive r c (log.logged ⟨d, op, outcome, d⟩) d' := by
  have hperform : d.perform op = d := perform_of_held hheld hop
  have hlogged : d.Exclusive r c (log.logged ⟨d, op, outcome, d.perform op⟩) d' := by
    refine .logged hheld (fun hguards => ⟨hrefused hguards, hperform⟩) ?_
    rwa [hperform, c.assigned_of_not_assigns hop]
  rwa [hperform] at hlogged

theorem guards_of_attempt (hheld : d.held = some r) {op : Operation} (hop : d.guards op = true) :
    (d.attempt op).map Prod.fst = .error .held ∧ d.perform op = d := by
  rw [← after_attempt, attempt_of_held hheld hop]
  exact ⟨rfl, rfl⟩

/-- A callback that runs while a line is held changes nothing but the content of this line. -/
theorem exclusive_run (cb : Callback) (hheld : d.held = some r)
    (hcontent : d.contentOf r = some c) : d.Exclusive r c (cb.run d).1 (cb.run d).2 := by
  induction cb generalizing d c with
  | finish ending => exact .finish hcontent ending
  | inspect next ih => exact ih d hheld hcontent
  | attempt op next ih =>
      have hheld' : (d.perform op).held = some r :=
        (congrArg held (blanked_perform_of_held hheld op)).trans hheld
      have hrest := ih ((d.attempt op).map Prod.fst) hheld' (contentOf_perform hheld hcontent op)
      rw [Callback.run]
      dsimp only
      rw [after_attempt]
      exact .logged hheld (guards_of_attempt hheld) hrest
  | withPremise p body next _ ih =>
      -- the callback of the inner hold does not run, whether the line is there or not
      rw [Callback.run]
      dsimp only
      rw [after_withPremise_of_held hheld]
      refine .idle hheld rfl (fun hp => ?_) (ih _ hheld hcontent)
      rw [withPremise_of_held hheld hp]
      rfl
  | withStep s body next _ ih =>
      rw [Callback.run]
      dsimp only
      rw [after_withStep_of_held hheld]
      refine .idle hheld rfl (fun hs => ?_) (ih _ hheld hcontent)
      rw [withStep_of_held hheld hs]
      rfl

theorem exclusive_hold (cb : Callback) (hfree : d.held = none) (hcontent : d.contentOf r = some c) :
    ∃ log d', d.hold r cb.run = .ok (some log, d') ∧ d'.held = none ∧
      d.Exclusive r c log d' := by
  have hinside : { d with held := some r }.Exclusive r c _ _ := exclusive_run cb rfl hcontent
  refine ⟨(cb.run { d with held := some r }).1,
    { (cb.run { d with held := some r }).2 with held := none }, ?_, rfl, hinside.refused,
    blanked_release hfree hinside.unchanged, hinside.content⟩
  simp [hold, hfree]

/-- While a premise or a step is held, whatever callback it is held for, every insertion and removal
    and every change of a line that there is, by a hold or otherwise, is refused and changes
    nothing. When the callback is at its end, by itself or by an exception, the line is released,
    and the derivation is the one from before but for the content of the line, which is what the
    assignments until then made of it. -/
theorem exclusive_while_held (hfree : d.held = none) (r : Ref) (cb : Callback) :
    (∀ p, d.premise? r = some p → ∃ log d', d.withPremise r cb.run = .ok (some log, d') ∧
      d'.held = none ∧ d.Exclusive r (.premise p.formula) log d') ∧
    ∀ content, d.step? r = some content → ∃ log d',
      d.withStep r cb.run = .ok (some log, d') ∧
      d'.held = none ∧ d.Exclusive r (.step content) log d' := by
  constructor
  · intro p hp
    rw [withPremise, if_pos (by rw [hp]; rfl)]
    exact exclusive_hold cb hfree (contentOf_of_premise? hp)
  · intro content hcontent
    rw [withStep, if_pos (by rw [hcontent]; rfl)]
    exact exclusive_hold cb hfree (contentOf_of_step? hcontent)

/-- A callback that assigns a formula, tries to add a subproof and to hold a premise, goes on after
    both errors, assigns a whole content, and gives up when it may not remove its own line. -/
theorem exclusive_while_held_until_raised :
    let q := Formula.var "Q"
    let d := (Derivation.ofPremise (some (.var "P"))).perform (.addStep .blank none)
    let inner := Callback.attempt (.assignFormula none) fun _ => .finish .returned
    let cb : Callback :=
      .attempt (.assignFormula (some q)) fun _ =>
      .attempt (.addSubproof none false) fun _ =>
      .withPremise (.premise 1) inner fun _ =>
      .inspect fun d =>
      .attempt (.assignStep ⟨d.formulaOf (.step 2), .text "R", [.premise 1], []⟩) fun _ =>
      .attempt (.removeLine (.step 2)) fun outcome =>
      .finish (if outcome = .error .held then .raised else .returned)
    ∃ log d', d.withStep (.step 2) cb.run = .ok (some log, d') ∧ log.ending = .raised ∧
      log.calls.map Call.outcome = [.ok (), .error .held, .error .held, .ok (), .error .held] ∧
      d'.held = none ∧ d'.blanked (.step 2) = d.blanked (.step 2) ∧
      d'.contentOf (.step 2) = some (.step ⟨some q, .text "R", [.premise 1], []⟩) := by
  intro q d inner cb
  obtain ⟨log, d', hrun, hreleased, hexclusive⟩ :=
    (exclusive_while_held (d := d) rfl (.step 2) cb).2 .blank rfl
  have hlog : log = (cb.run { d with held := some (.step 2) }).1 := by
    have hresult := Except.ok.inj hrun
    exact (Option.some.inj (congrArg Prod.fst hresult)).symm
  subst hlog
  exact ⟨_, d', hrun, rfl, rfl, hreleased, hexclusive.unchanged, hexclusive.content⟩

end Derivation

end Deduction
