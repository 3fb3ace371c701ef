import Deduction.Proofs.Parts
import Mathlib.Data.Set.Function

set_option autoImplicit false

/-! # Renumbering

Two derivations correspond when their parts do, one to one: what the references of the one lead to is
the same as in the other, up to the references themselves. Giving the parts of a derivation other
numbers makes a derivation that corresponds to it, if different parts get different numbers. What a
step cites may be no part at all; the numbers of such references do not matter. -/

namespace Deduction

/-! ## Correspondence -/

/-- Both are premises, both are steps or both are subproofs. -/
inductive Ref.SameKind : Ref → Ref → Prop where
  | premise (id id' : Int) : SameKind (.premise id) (.premise id')
  | step (id id' : Int) : SameKind (.step id) (.step id')
  | subproof (id id' : Int) : SameKind (.subproof id) (.subproof id')

/-- The parts of `d` are those of `d'`, the references to them being translated by `σ`. -/
structure Derivation.Corresponds (σ : Ref → Ref) (d d' : Derivation) : Prop where
  bijective : Set.BijOn σ {r | r ∈ d.refs} {r | r ∈ d'.refs}
  kind : ∀ r ∈ d.refs, r.SameKind (σ r)
  walk : d'.walk = d.walk.map fun (depth, r) => (depth, σ r)
  depth : ∀ r ∈ d.refs, d'.depthOf (σ r) = d.depthOf r
  parent : ∀ r ∈ d.refs, d'.parentOf (σ r) = (d.parentOf r).map σ
  formula : ∀ r ∈ d.refs, d'.formulaOf (σ r) = d.formulaOf r
  rule : ∀ r ∈ d.refs, (d'.step? (σ r)).map Step.rule = (d.step? r).map Step.rule
  lineDeps : ∀ r ∈ d.refs, ∀ dep, (∃ content' ∈ d'.step? (σ r), dep ∈ content'.lineDeps) ↔
    ∃ content ∈ d.step? r, dep ∈ content.lineDeps.map σ
  subproofDeps : ∀ r ∈ d.refs, ∀ dep, (∃ content' ∈ d'.step? (σ r), dep ∈ content'.subproofDeps) ↔
    ∃ content ∈ d.step? r, dep ∈ content.subproofDeps.map σ

/-! ## Other numbers -/

/-- The reference with its number changed. -/
def Ref.renumber (f : Int → Int) : Ref → Ref
  | .premise id => .premise (f id)
  | .step id => .step (f id)
  | .subproof id => .subproof (f id)

@[simp] theorem Ref.id_renumber (f : Int → Int) (r : Ref) : (r.renumber f).id = f r.id := by
  cases r <;> rfl

@[simp] theorem Ref.isLine_renumber (f : Int → Int) (r : Ref) :
    (r.renumber f).isLine = r.isLine := by
  cases r <;> rfl

@[simp] theorem Ref.isSubproof_renumber (f : Int → Int) (r : Ref) :
    (r.renumber f).isSubproof = r.isSubproof := by
  cases r <;> rfl

theorem Ref.sameKind_renumber (f : Int → Int) (r : Ref) : r.SameKind (r.renumber f) := by
  cases r with
  | premise id => exact .premise id (f id)
  | step id => exact .step id (f id)
  | subproof id => exact .subproof id (f id)

def Premise.renumber (f : Int → Int) (p : Premise) : Premise := { p with id := f p.id }

theorem Premise.map_ref_renumber (f : Int → Int) (premises : List Premise) :
    (premises.map (Premise.renumber f)).map Premise.ref =
      (premises.map Premise.ref).map (Ref.renumber f) := by
  rw [List.map_map, List.map_map]
  rfl

/-- The step with the numbers changed of what it cites, in the order of the old numbers. -/
def Step.renumber (f : Int → Int) (s : Step) : Step :=
  .citing s.conclusion s.rule ((Ref.sorted s.lineDeps).map (Ref.renumber f))
    ((Ref.sorted s.subproofDeps).map (Ref.renumber f))

theorem Step.mem_lineDeps_renumber {f : Int → Int} {s : Step} {dep : Ref} :
    dep ∈ (s.renumber f).lineDeps ↔ dep ∈ s.lineDeps.map (Ref.renumber f) := by
  simp [Step.renumber, Step.citing, Ref.mem_sorted]

theorem Step.mem_subproofDeps_renumber {f : Int → Int} {s : Step} {dep : Ref} :
    dep ∈ (s.renumber f).subproofDeps ↔ dep ∈ s.subproofDeps.map (Ref.renumber f) := by
  simp [Step.renumber, Step.citing, Ref.mem_sorted]

namespace Lines

def renumber (f : Int → Int) : Lines → Lines
  | .nil => .nil
  | .step id content rest => .step (f id) (content.renumber f) (rest.renumber f)
  | .subproof id premises body rest =>
    .subproof (f id) (premises.map (Premise.renumber f)) (body.renumber f) (rest.renumber f)

theorem walk_renumber (f : Int → Int) (depth : Nat) (L : Lines) :
    (L.renumber f).walk depth = (L.walk depth).map fun (depth, r) => (depth, r.renumber f) := by
  induction L generalizing depth with
  | nil => rfl
  | step id content rest ih =>
      simp only [renumber, walk, List.map_cons]
      rw [ih]
      rfl
  | subproof id premises body rest ihbody ihrest =>
      simp only [renumber, walk, List.map_cons, List.map_append, List.map_map]
      rw [ihbody, ihrest]
      rfl

end Lines

/-! ## Look-up after renumbering

A part is found under its new number, provided that no other part that is passed has got the same. -/

theorem find?_premise_renumber {f : Int → Int} {id : Int} {premises : List Premise}
    (h : ∀ x ∈ premises.map Premise.ref, x.renumber f = .premise (f id) → x = .premise id) :
    (premises.map (Premise.renumber f)).find? (·.id == f id) =
      (premises.find? (·.id == id)).map (Premise.renumber f) := by
  induction premises with
  | nil => rfl
  | cons p premises ih =>
      obtain ⟨hp, hpremises⟩ := List.forall_mem_cons.1 h
      have hid : ((p.renumber f).id == f id) = (p.id == id) := by
        rw [Bool.eq_iff_iff, beq_iff_eq, beq_iff_eq]
        exact ⟨fun heq => Ref.premise.inj (hp (congrArg _ heq)), congrArg f⟩
      rw [List.map_cons, List.find?_cons, List.find?_cons, ih hpremises, hid]
      cases p.id == id <;> rfl

namespace Lines

theorem findStep?_renumber {f : Int → Int} {id : Int} {L : Lines}
    (h : ∀ x ∈ L.parts, x.renumber f = .step (f id) → x = .step id) :
    (L.renumber f).findStep? (f id) = (L.findStep? id).map (Step.renumber f) := by
  induction L with
  | nil => rfl
  | step i content rest ih =>
      have ih := ih fun x hx => h x (List.mem_cons_of_mem _ hx)
      have hi : f i = f id ↔ i = id :=
        ⟨fun heq => Ref.step.inj (h (.step i) (List.mem_cons_self ..) (congrArg _ heq)), congrArg f⟩
      simp only [renumber, findStep?, hi, ih]
      split <;> rfl
  | subproof i premises body rest ihbody ihrest =>
      simp only [mem_parts_subproof] at h
      rw [renumber, findStep?, findStep?, ihbody fun x hx => h x (.inr (.inr (.inl hx))),
        ihrest fun x hx => h x (.inr (.inr (.inr hx)))]
      cases body.findStep? id <;> rfl

theorem findPremise?_renumber {f : Int → Int} {id : Int} {L : Lines}
    (h : ∀ x ∈ L.parts, x.renumber f = .premise (f id) → x = .premise id) :
    (L.renumber f).findPremise? (f id) = (L.findPremise? id).map (Premise.renumber f) := by
  induction L with
  | nil => rfl
  | step i content rest ih => exact ih fun x hx => h x (List.mem_cons_of_mem _ hx)
  | subproof i premises body rest ihbody ihrest =>
      simp only [mem_parts_subproof] at h
      rw [renumber, findPremise?, findPremise?,
        find?_premise_renumber fun x hx => h x (.inr (.inl hx)),
        ihbody fun x hx => h x (.inr (.inr (.inl hx))),
        ihrest fun x hx => h x (.inr (.inr (.inr hx)))]
      cases premises.find? (·.id == id) <;> cases body.findPremise? id <;> rfl

theorem mem_premises_renumber {f : Int → Int} {r : Ref} {premises : List Premise}
    (h : ∀ x ∈ premises.map Premise.ref, x.renumber f = r.renumber f → x = r) :
    r.renumber f ∈ (premises.map (Premise.renumber f)).map Premise.ref ↔
      r ∈ premises.map Premise.ref := by
  rw [Premise.map_ref_renumber, List.mem_map]
  refine ⟨fun ⟨x, hx, heq⟩ => h x hx heq ▸ hx, fun hr => ⟨r, hr, rfl⟩⟩

theorem pathTo?_renumber {f : Int → Int} {r : Ref} {L : Lines}
    (h : ∀ x ∈ L.parts, x.renumber f = r.renumber f → x = r) :
    (L.renumber f).pathTo? (r.renumber f) = (L.pathTo? r).map (List.map (Ref.renumber f)) := by
  induction L with
  | nil => rfl
  | step i content rest ih =>
      have ih := ih fun x hx => h x (List.mem_cons_of_mem _ hx)
      have hi : r.renumber f = .step (f i) ↔ r = .step i :=
        ⟨fun heq => (h (.step i) (List.mem_cons_self ..) heq.symm).symm, congrArg _⟩
      simp only [renumber, pathTo?, hi, ih]
      split <;> rfl
  | subproof i premises body rest ihbody ihrest =>
      simp only [mem_parts_subproof] at h
      have hi : r.renumber f = .subproof (f i) ↔ r = .subproof i :=
        ⟨fun heq => (h (.subproof i) (.inl rfl) heq.symm).symm, congrArg _⟩
      have hpremises := mem_premises_renumber fun x hx => h x (.inr (.inl hx))
      have ihbody := ihbody fun x hx => h x (.inr (.inr (.inl hx)))
      have ihrest := ihrest fun x hx => h x (.inr (.inr (.inr hx)))
      simp only [renumber, pathTo?, hi, hpremises, ihbody, ihrest]
      split
      · rfl
      · split
        · rfl
        · cases body.pathTo? r <;> rfl

end Lines

namespace Derivation

/-- The derivation with the numbers of its parts changed, as if they had all been drawn anew. -/
def renumber (f : Int → Int) (d : Derivation) : Derivation :=
  ⟨⟨d.root.premises.map (Premise.renumber f), d.root.lines.renumber f⟩, d.refs.length + 1, none⟩

variable {d : Derivation} {f : Int → Int}

theorem walk_renumber (f : Int → Int) (d : Derivation) :
    (d.renumber f).walk = d.walk.map fun (depth, r) => (depth, r.renumber f) := by
  simp only [walk, Scope.walk, renumber, List.map_append, Lines.walk_renumber, List.map_map]
  rfl

theorem refs_renumber (f : Int → Int) (d : Derivation) :
    (d.renumber f).refs = d.refs.map (Ref.renumber f) := by
  show (d.renumber f).walk.map Prod.snd = (d.walk.map Prod.snd).map (Ref.renumber f)
  rw [walk_renumber, List.map_map, List.map_map]
  rfl

theorem pathTo?_renumber {r : Ref} (h : ∀ x ∈ d.refs, x.renumber f = r.renumber f → x = r) :
    (d.renumber f).pathTo? (r.renumber f) = (d.pathTo? r).map (List.map (Ref.renumber f)) := by
  have hpremises : r.renumber f ∈ (d.renumber f).root.premiseRefs ↔ r ∈ d.root.premiseRefs :=
    Lines.mem_premises_renumber fun x hx => h x (mem_refs.2 (.inl hx))
  have hlines := Lines.pathTo?_renumber fun x hx => h x (mem_refs.2 (.inr hx))
  by_cases hr : r ∈ d.root.premiseRefs
  · rw [pathTo?, if_pos (hpremises.2 hr), pathTo?, if_pos hr]
    rfl
  · rw [pathTo?, if_neg fun hr' => hr (hpremises.1 hr'), pathTo?, if_neg hr]
    exact hlines

theorem step?_renumber {r : Ref} (h : ∀ x ∈ d.refs, x.renumber f = r.renumber f → x = r) :
    (d.renumber f).step? (r.renumber f) = (d.step? r).map (Step.renumber f) := by
  cases r with
  | step id => exact Lines.findStep?_renumber fun x hx => h x (mem_refs.2 (.inr hx))
  | premise id => rfl
  | subproof id => rfl

theorem formulaOf_renumber {r : Ref} (h : ∀ x ∈ d.refs, x.renumber f = r.renumber f → x = r) :
    (d.renumber f).formulaOf (r.renumber f) = d.formulaOf r := by
  cases r with
  | step id =>
      have hstep := step?_renumber h
      simp only [Ref.renumber] at hstep ⊢
      rw [formulaOf, formulaOf, hstep]
      cases d.step? (.step id) <;> rfl
  | premise id =>
      have hroot := find?_premise_renumber fun x hx => h x (mem_refs.2 (.inl hx))
      have hlines := Lines.findPremise?_renumber fun x hx => h x (mem_refs.2 (.inr hx))
      simp only [Ref.renumber, formulaOf, premise?, renumber, hroot, hlines]
      cases d.root.premises.find? (·.id == id) <;> cases d.root.lines.findPremise? id <;> rfl
  | subproof id => rfl

/-- Different numbers for different parts make a derivation that corresponds to the one before. -/
theorem corresponds_renumber (hinj : Set.InjOn (Ref.renumber f) {r | r ∈ d.refs}) :
    d.Corresponds (Ref.renumber f) (d.renumber f) := by
  have happly : ∀ r ∈ d.refs, ∀ x ∈ d.refs, x.renumber f = r.renumber f → x = r :=
    fun r hr x hx heq => hinj hx hr heq
  constructor
  case bijective =>
    refine ⟨fun r hr => ?_, hinj, fun r hr => ?_⟩
    · rw [Set.mem_ofPred_eq, refs_renumber]
      exact List.mem_map_of_mem hr
    · rw [Set.mem_ofPred_eq, refs_renumber] at hr
      exact List.mem_map.1 hr
  case kind => exact fun r _ => r.sameKind_renumber f
  case walk => exact walk_renumber f d
  case depth =>
    intro r hr
    rw [depthOf, depthOf, pathTo?_renumber (happly r hr), Option.map_map]
    congr 1
    exact funext fun path => List.length_map _
  case parent =>
    intro r hr
    rw [parentOf, parentOf, pathTo?_renumber (happly r hr)]
    cases d.pathTo? r with
    | none => rfl
    | some path => exact List.getLast?_map
  case formula => exact fun r hr => formulaOf_renumber (happly r hr)
  case rule =>
    intro r hr
    rw [step?_renumber (happly r hr), Option.map_map]
    rfl
  case lineDeps =>
    intro r hr dep
    simp [step?_renumber (happly r hr), Step.mem_lineDeps_renumber]
  case subproofDeps =>
    intro r hr dep
    simp [step?_renumber (happly r hr), Step.mem_subproofDeps_renumber]

end Derivation

end Deduction
