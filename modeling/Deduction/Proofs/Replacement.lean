import Deduction.Proofs.Abstraction
import Mathlib.Data.List.Forall2

set_option autoImplicit false

/-! # Replacing one formula by another

`f.replace? old new` is `f` with `new` in place of `old` at every occurrence whose names no
quantifier around it binds. It is undefined where a name of `new` would come under a quantifier that
binds it. This is what becomes of a context when `old` is abstracted from a formula and `new` is
filled in.

A replacement can be undone by the opposite one unless `new` stood somewhere in the formula already:
then both kinds of its occurrences look the same afterwards. Nor does it undo itself, unless it
changed nothing.

All of this goes from a formula to its direct parts in the same way for every connective. So a
replacement, like the abstraction that it comes from, is described by what it does at a root over a
list of parts. -/

namespace Deduction

theorem forall₂_imp_of_mem {α β : Type} {R S : α → β → Prop} {as : List α} {bs : List β}
    (h : List.Forall₂ R as bs) (himp : ∀ a ∈ as, ∀ b, R a b → S a b) : List.Forall₂ S as bs :=
  ((List.forall₂_and_left as bs).2 ⟨himp, h⟩).imp fun _ b hab => hab.1 b hab.2

theorem forall₂_and_flip {α β : Type} {R : α → β → Prop} {S : β → α → Prop} {as : List α}
    {bs : List β} (h : List.Forall₂ R as bs) (h' : List.Forall₂ S bs as) :
    List.Forall₂ (fun a b => R a b ∧ S b a) as bs :=
  h.mp (fun _ _ => And.intro) h'.flip

theorem forall₂_or_exists {α β : Type} {R S : α → β → Prop} {as : List α} {bs : List β}
    (h : List.Forall₂ (fun a b => R a b ∨ S a b) as bs) :
    List.Forall₂ R as bs ∨ ∃ a ∈ as, ∃ b ∈ bs, S a b := by
  induction h with
  | nil => exact .inl .nil
  | @cons a b as bs hab _ ih =>
      rcases hab with hR | hS
      · rcases ih with hall | ⟨a', ha', b', hb', hS⟩
        · exact .inl (.cons hR hall)
        · exact .inr ⟨a', List.mem_cons_of_mem _ ha', b', List.mem_cons_of_mem _ hb', hS⟩
      · exact .inr ⟨a, List.mem_cons_self .., b, List.mem_cons_self .., hS⟩

namespace Formula

/-! ## Other parts under the same root -/

/-- The number of places in a formula. -/
def size (f : Formula) : Nat := f.subformulas.length

/-- The formula with other formulas as its direct parts, if they are as many. -/
def withChildren : Formula → List Formula → Formula
  | .app name _, as => .app name as
  | .neg _, [g] => .neg g
  | .binary op _ _, [l, r] => .binary op l r
  | .quant q name _, [body] => .quant q name body
  | f, _ => f

theorem eq_withChildren_iff {f g : Formula} {as : List Formula}
    (h : as.length = f.children.length) :
    g = f.withChildren as ↔ g.root = f.root ∧ g.children = as := by
  cases f with
  | top =>
      obtain rfl := List.length_eq_zero_iff.1 h
      cases g <;> simp [withChildren, root, mapChildren, children]
  | bottom =>
      obtain rfl := List.length_eq_zero_iff.1 h
      cases g <;> simp [withChildren, root, mapChildren, children]
  | app name args =>
      have hlength : as.length = args.length := h
      cases g <;> simp +contextual [withChildren, root, mapChildren, children, hlength]
  | neg f =>
      obtain ⟨a, rfl⟩ := List.length_eq_one_iff.1 h
      cases g <;> simp [withChildren, root, mapChildren, children]
  | binary op l r =>
      obtain ⟨a, b, rfl⟩ := List.length_eq_two.1 h
      cases g <;> simp [withChildren, root, mapChildren, children]
  | quant q name body =>
      obtain ⟨a, rfl⟩ := List.length_eq_one_iff.1 h
      cases g <;> simp [withChildren, root, mapChildren, children, and_assoc]
  | hole i =>
      obtain rfl := List.length_eq_zero_iff.1 h
      cases g <;> simp [withChildren, root, mapChildren, children]

theorem size_lt_of_mem_children {f a : Formula} (h : a ∈ f.children) : a.size < f.size := by
  cases f with
  | top => simp [children] at h
  | bottom => simp [children] at h
  | app name args =>
      obtain ⟨front, back, rfl⟩ := List.append_of_mem h
      simp only [size, subformulas, subformulasList_eq, List.flatMap_append, List.flatMap_cons,
        List.length_cons, List.length_append]
      omega
  | neg f =>
      obtain rfl := List.mem_singleton.1 h
      simp [size, subformulas]
  | binary op l r =>
      simp only [size, subformulas, List.length_cons, List.length_append]
      rcases List.mem_pair.1 h with rfl | rfl
      · omega
      · omega
  | quant q name body =>
      obtain rfl := List.mem_singleton.1 h
      simp [size, subformulas]
  | hole i => simp [children] at h

/-! ## Replacement -/

mutual

/-- The formula with `new` in place of each occurrence of `old` at which none of the names of `old`
    is bound, the outermost first. It is undefined if a name of `new` is bound at such a place. The
    names in `bound` are bound around the formula. -/
def replace? (f old new : Formula) (bound : List String) : Option Formula :=
  if old.Stands bound f then
    if new.mentions bound then none else some new
  else
    match f with
    | .app name args => do
      let args ← replaceList? args old new bound
      return .app name args
    | .neg g => do
      let g ← g.replace? old new bound
      return .neg g
    | .binary op l r => do
      let l ← l.replace? old new bound
      let r ← r.replace? old new bound
      return .binary op l r
    | .quant q name body => do
      let body ← body.replace? old new (name :: bound)
      return .quant q name body
    | .top => some .top
    | .bottom => some .bottom
    | .hole i => some (.hole i)

def replaceList? (as : List Formula) (old new : Formula) (bound : List String) :
    Option (List Formula) :=
  match as with
  | [] => some []
  | a :: as => do
    let a ← a.replace? old new bound
    let as ← replaceList? as old new bound
    return a :: as

end

variable {old new target : Formula} {bound : List String} {f g : Formula}

theorem replaceList?_eq_some {as bs : List Formula} :
    replaceList? as old new bound = some bs ↔
      List.Forall₂ (fun a b => a.replace? old new bound = some b) as bs := by
  induction as generalizing bs with
  | nil => simp [replaceList?, eq_comm]
  | cons a as ih =>
      simp only [replaceList?, Option.bind_eq_bind, Option.bind_eq_some_iff, ih,
        List.forall₂_cons_left_iff, Option.pure_def, Option.some.injEq]
      constructor
      · rintro ⟨b, hb, bs', hbs', rfl⟩
        exact ⟨b, bs', hb, hbs', rfl⟩
      · rintro ⟨b, bs', hb, hbs', rfl⟩
        exact ⟨b, hb, bs', hbs', rfl⟩

theorem replace?_of_stands (h : old.Stands bound f) :
    f.replace? old new bound = some g ↔ new.mentions bound = false ∧ g = new := by
  unfold replace?
  rw [if_pos h]
  cases new.mentions bound <;> simp [eq_comm]

theorem replace?_eq_withChildren (h : ¬ old.Stands bound f) :
    f.replace? old new bound =
      (replaceList? f.children old new (f.scope bound)).map f.withChildren := by
  unfold replace?
  rw [if_neg h]
  cases f with
  | top => rfl
  | bottom => rfl
  | app name args => exact (Option.map_eq_bind ..).symm
  | neg f =>
      simp only [children, scope, replaceList?]
      cases f.replace? old new bound <;> rfl
  | binary op l r =>
      simp only [children, scope, replaceList?]
      cases l.replace? old new bound <;> cases r.replace? old new bound <;> rfl
  | quant q name body =>
      simp only [children, scope, replaceList?]
      cases body.replace? old new (name :: bound) <;> rfl
  | hole i => rfl

/-- Away from an occurrence a replacement keeps the root and goes on in the parts. -/
theorem replace?_of_not_stands (h : ¬ old.Stands bound f) :
    f.replace? old new bound = some g ↔ g.root = f.root ∧
      List.Forall₂ (fun a b => a.replace? old new (f.scope bound) = some b)
        f.children g.children := by
  rw [replace?_eq_withChildren h, Option.map_eq_some_iff]
  constructor
  · rintro ⟨bs, hbs, hg⟩
    have hall := replaceList?_eq_some.1 hbs
    obtain ⟨hroot, rfl⟩ := (eq_withChildren_iff hall.length_eq.symm).1 hg.symm
    exact ⟨hroot, hall⟩
  · rintro ⟨hroot, hall⟩
    refine ⟨g.children, replaceList?_eq_some.2 hall, ?_⟩
    exact ((eq_withChildren_iff hall.length_eq.symm).2 ⟨hroot, rfl⟩).symm

/-! ## Abstraction of one target -/

theorem targetIndex?_singleton :
    targetIndex? [target] bound f = if target.Stands bound f then some 0 else none := by
  by_cases h : target.Stands bound f
  · rw [if_pos h]
    obtain ⟨rfl, hmentions⟩ := h
    simp [targetIndex?, hmentions]
  · rw [if_neg h]
    simp only [Stands, not_and, Bool.not_eq_false] at h
    simpa [targetIndex?] using h

theorem abstract_of_stands (h : target.Stands bound f) :
    f.abstract [target] bound = .hole 0 := by
  unfold abstract
  rw [targetIndex?_singleton, if_pos h]
  rfl

theorem abstract_of_not_stands (h : ¬ target.Stands bound f) :
    (f.abstract [target] bound).root = f.root ∧
      (f.abstract [target] bound).children =
        f.children.map (abstract [target] (f.scope bound)) :=
  abstract_of_none_stands (List.forall_mem_singleton.2 h)

/-! ## Replacement as a filled context -/

theorem fillsTo_hole {args : List Formula} {i : Int} :
    FillsTo args bound g (.hole i) ↔ elementAt? args i = some g ∧ g.mentions bound = false := by
  simp only [FillsTo, captures, fillHoles, Option.map_eq_some_iff]
  constructor
  · rintro ⟨⟨a, ha, hmentions⟩, hg⟩
    obtain rfl : a = g := Option.some.inj (ha.symm.trans hg)
    exact ⟨hg, hmentions⟩
  · rintro ⟨hg, hmentions⟩
    exact ⟨⟨g, hg, hmentions⟩, hg⟩

theorem forall₂_fillsTo_iff {args as gs : List Formula} :
    capturesAny args bound as = some false ∧ fillHolesList args as = some gs ↔
      List.Forall₂ (fun a g => FillsTo args bound g a) as gs := by
  induction as generalizing gs with
  | nil => simp [capturesAny, fillHolesList, eq_comm]
  | cons a as ih =>
      rw [List.forall₂_cons_left_iff]
      constructor
      · rintro ⟨hcaptures, hfill⟩
        obtain ⟨g, hg, hfill⟩ := Option.bind_eq_some_iff.1 hfill
        obtain ⟨gs', hgs', hfill⟩ := Option.bind_eq_some_iff.1 hfill
        rw [capturesAny] at hcaptures
        split at hcaptures
        · next hfirst =>
            exact ⟨g, gs', ⟨hfirst, hg⟩, ih.1 ⟨hcaptures, hgs'⟩, by simpa using hfill.symm⟩
        · next hfirst => exact absurd hcaptures hfirst
      · rintro ⟨g, gs', ⟨hcaptures, hg⟩, hrest, rfl⟩
        obtain ⟨hcaptures', hgs'⟩ := ih.2 hrest
        simp [capturesAny, fillHolesList, hcaptures, hcaptures', hg, hgs']

theorem captures_of_not_hole {args : List Formula} (h : f.isHole = false) :
    f.captures args bound = capturesAny args (f.scope bound) f.children := by
  cases f with
  | top => rfl
  | bottom => rfl
  | app name as => rfl
  | neg f =>
      simp only [captures, children, scope, capturesAny]
      rcases f.captures args bound with _ | _ | _ <;> rfl
  | binary op l r =>
      simp only [captures, children, scope, capturesAny]
      rcases r.captures args bound with _ | _ | _ <;> rfl
  | quant q name body =>
      simp only [captures, children, scope, capturesAny]
      rcases body.captures args (name :: bound) with _ | _ | _ <;> rfl
  | hole i => exact absurd h (by simp [isHole])

theorem fillHoles_of_not_hole {args : List Formula} (h : f.isHole = false) :
    f.fillHoles args = (fillHolesList args f.children).map f.withChildren := by
  cases f with
  | top => rfl
  | bottom => rfl
  | app name as => exact (Option.map_eq_bind ..).symm
  | neg f =>
      simp only [fillHoles, children, fillHolesList]
      cases f.fillHoles args <;> rfl
  | binary op l r =>
      simp only [fillHoles, children, fillHolesList]
      cases l.fillHoles args <;> cases r.fillHoles args <;> rfl
  | quant q name body =>
      simp only [fillHoles, children, fillHolesList]
      cases body.fillHoles args <;> rfl
  | hole i => exact absurd h (by simp [isHole])

/-- Away from a hole filling keeps the root and goes on in the parts. -/
theorem fillsTo_of_not_hole {args : List Formula} {body : Formula} (h : body.isHole = false) :
    FillsTo args bound g body ↔ g.root = body.root ∧
      List.Forall₂ (fun a b => FillsTo args (body.scope bound) b a) body.children g.children := by
  rw [FillsTo, captures_of_not_hole h, fillHoles_of_not_hole h, Option.map_eq_some_iff]
  constructor
  · rintro ⟨hnone, gs, hgs, hg⟩
    have hall := forall₂_fillsTo_iff.1 ⟨hnone, hgs⟩
    obtain ⟨hroot, rfl⟩ := (eq_withChildren_iff hall.length_eq.symm).1 hg.symm
    exact ⟨hroot, hall⟩
  · rintro ⟨hroot, hall⟩
    obtain ⟨hnone, hgs⟩ := forall₂_fillsTo_iff.2 hall
    refine ⟨hnone, g.children, hgs, ?_⟩
    exact ((eq_withChildren_iff hall.length_eq.symm).2 ⟨hroot, rfl⟩).symm

/-- Taking `old` out of a formula and filling the context with `new` is replacing `old` by `new`. -/
theorem fillsTo_abstract_iff_replace? (hf : f.hasHoles = false) :
    FillsTo [new] bound g (f.abstract [old] bound) ↔ f.replace? old new bound = some g := by
  induction f using induct_children generalizing bound g with
  | step f ih =>
      by_cases hstands : old.Stands bound f
      · rw [abstract_of_stands hstands, fillsTo_hole, replace?_of_stands hstands]
        have helement : elementAt? [new] 0 = some new := rfl
        rw [helement, Option.some.injEq]
        constructor
        · rintro ⟨rfl, hmentions⟩
          exact ⟨hmentions, rfl⟩
        · rintro ⟨hmentions, rfl⟩
          exact ⟨rfl, hmentions⟩
      · obtain ⟨hroot, hparts⟩ := abstract_of_not_stands hstands
        simp only [hasHoles_eq f, Bool.or_eq_false_iff, List.any_eq_false, Bool.not_eq_true] at hf
        have hhole : (f.abstract [old] bound).isHole = false := by
          rw [isHole_eq_of_root_eq hroot, hf.1]
        rw [replace?_of_not_stands hstands, fillsTo_of_not_hole hhole, hroot, hparts,
          scope_eq_of_root_eq hroot, List.forall₂_map_left_iff]
        refine and_congr_right fun _ => ⟨fun h => ?_, fun h => ?_⟩
        · exact forall₂_imp_of_mem h fun a ha b => (ih a ha (hf.2 a ha)).1
        · exact forall₂_imp_of_mem h fun a ha b => (ih a ha (hf.2 a ha)).2

/-! ## Replacing back -/

/-- What a replacement comes to: nothing stood there to be replaced, or the whole formula did, or
    proper parts of it. -/
theorem replace?_cases (h : f.replace? old new bound = some g) :
    (f.abstract [old] bound = f ∧ f = g) ∨ (old.Stands bound f ∧ g = new) ∨
      (old.size < f.size ∧ new.size < g.size) := by
  induction f using induct_children generalizing bound g with
  | step f ih =>
      by_cases hstands : old.Stands bound f
      · exact .inr (.inl ⟨hstands, ((replace?_of_stands hstands).1 h).2⟩)
      · obtain ⟨hroot, hall⟩ := (replace?_of_not_stands hstands).1 h
        have hparts : List.Forall₂ (fun a b => (a.abstract [old] (f.scope bound) = a ∧ a = b) ∨
            (old.size ≤ a.size ∧ new.size ≤ b.size)) f.children g.children := by
          refine forall₂_imp_of_mem hall fun a ha b hab => ?_
          rcases ih a ha hab with hsame | ⟨⟨rfl, -⟩, rfl⟩ | ⟨hold, hnew⟩
          · exact .inl hsame
          · exact .inr ⟨Nat.le_refl _, Nat.le_refl _⟩
          · exact .inr ⟨Nat.le_of_lt hold, Nat.le_of_lt hnew⟩
        rcases forall₂_or_exists hparts with hsame | ⟨a, ha, b, hb, hold, hnew⟩
        · obtain ⟨habstract, heq⟩ := (List.forall₂_and_left _ _).1 hsame
          rw [List.forall₂_eq_eq_eq] at heq
          exact .inl ⟨abstract_eq_self (List.forall_mem_singleton.2 hstands) habstract, eq_of_root_eq hroot.symm heq⟩
        · have hlt := size_lt_of_mem_children ha
          have hlt' := size_lt_of_mem_children hb
          exact .inr (.inr ⟨by omega, by omega⟩)

/-- A replacement can be undone if `new` did not occur apart from what was replaced. -/
theorem replace?_undo (h : f.replace? old new bound = some g)
    (hnew : (f.abstract [old] bound).occursFree new bound = false) :
    g.replace? new old bound = some f := by
  induction f using induct_children generalizing bound g with
  | step f ih =>
      by_cases hstands : old.Stands bound f
      · obtain ⟨hmentions, rfl⟩ := (replace?_of_stands hstands).1 h
        obtain ⟨rfl, hfree⟩ := hstands
        exact (replace?_of_stands ⟨rfl, hmentions⟩).2 ⟨hfree, rfl⟩
      · obtain ⟨hroot, hall⟩ := (replace?_of_not_stands hstands).1 h
        obtain ⟨hroot', hparts⟩ := abstract_of_not_stands hstands
        rw [Bool.eq_false_iff, Ne, occursFree_iff, not_or, hparts, scope_eq_of_root_eq hroot'] at hnew
        obtain ⟨hhere, hbelow⟩ := hnew
        have hstands' : ¬ new.Stands bound g := by
          -- `new` would have stood here before, or would be a proper part of itself
          rintro ⟨hg, hmentions⟩
          rcases replace?_cases h with ⟨hself, rfl⟩ | ⟨hold, -⟩ | ⟨-, hlt⟩
          · exact hhere ⟨hself.trans hg, hmentions⟩
          · exact hstands hold
          · exact absurd hlt (by rw [hg]; exact Nat.lt_irrefl _)
        refine (replace?_of_not_stands hstands').2 ⟨hroot.symm, ?_⟩
        rw [scope_eq_of_root_eq hroot]
        refine List.Forall₂.flip (forall₂_imp_of_mem hall fun a ha b hab => ih a ha hab ?_)
        rw [Bool.eq_false_iff]
        exact fun hoccurs => hbelow ⟨_, List.mem_map_of_mem ha, hoccurs⟩

/-- Two replacements that undo each other take out the same context. -/
theorem abstract_eq_of_replace?_undo (h : f.replace? old new bound = some g)
    (hback : g.replace? new old bound = some f) :
    f.abstract [old] bound = g.abstract [new] bound := by
  induction f using induct_children generalizing bound g with
  | step f ih =>
      by_cases hstands : old.Stands bound f
      · obtain ⟨hmentions, rfl⟩ := (replace?_of_stands hstands).1 h
        rw [abstract_of_stands hstands, abstract_of_stands ⟨rfl, hmentions⟩]
      · have hstands' : ¬ new.Stands bound g := by
          intro hg
          obtain ⟨hfree, rfl⟩ := (replace?_of_stands hg).1 hback
          exact hstands ⟨rfl, hfree⟩
        obtain ⟨hroot, hall⟩ := (replace?_of_not_stands hstands).1 h
        obtain ⟨-, hall'⟩ := (replace?_of_not_stands hstands').1 hback
        obtain ⟨hroot₁, hparts₁⟩ := abstract_of_not_stands hstands
        obtain ⟨hroot₂, hparts₂⟩ := abstract_of_not_stands hstands'
        refine eq_of_root_eq (hroot₁.trans (hroot.symm.trans hroot₂.symm)) ?_
        rw [scope_eq_of_root_eq hroot] at hall' hparts₂
        rw [hparts₁, hparts₂, ← List.forall₂_eq_eq_eq, List.forall₂_map_left_iff,
          List.forall₂_map_right_iff]
        exact forall₂_imp_of_mem (forall₂_and_flip hall hall') fun a ha b hab => ih a ha hab.1 hab.2

theorem eq_of_replace?_swap (h : new.replace? old new bound = some old) : new = old := by
  rcases replace?_cases h with ⟨-, heq⟩ | ⟨-, heq⟩ | ⟨hlt, hlt'⟩
  · exact heq
  · exact heq.symm
  · omega

/-- A replacement does not undo itself, unless it changes nothing. -/
theorem eq_of_replace?_again (h : f.replace? old new bound = some g)
    (hagain : g.replace? old new bound = some f) : f = g := by
  induction f using induct_children generalizing bound g with
  | step f ih =>
      by_cases hstands : old.Stands bound f
      · obtain ⟨-, rfl⟩ := (replace?_of_stands hstands).1 h
        obtain ⟨rfl, -⟩ := hstands
        exact (eq_of_replace?_swap hagain).symm
      · by_cases hstands' : old.Stands bound g
        · obtain ⟨-, rfl⟩ := (replace?_of_stands hstands').1 hagain
          obtain ⟨rfl, -⟩ := hstands'
          exact eq_of_replace?_swap h
        · obtain ⟨hroot, hall⟩ := (replace?_of_not_stands hstands).1 h
          obtain ⟨-, hall'⟩ := (replace?_of_not_stands hstands').1 hagain
          rw [scope_eq_of_root_eq hroot] at hall'
          refine eq_of_root_eq hroot.symm ?_
          rw [← List.forall₂_eq_eq_eq]
          exact forall₂_imp_of_mem (forall₂_and_flip hall hall') fun a ha b hab =>
            ih a ha hab.1 hab.2

/-- When a replacement can be undone, by the opposite one or by itself: if it changed nothing, or
    `new` did not occur apart from what was replaced. -/
theorem replaced_back_iff (hnew : new.hasHoles = false) (h : f.replace? old new bound = some g) :
    (g.replace? new old bound = some f ∨ g.replace? old new bound = some f) ↔
      f = g ∨ (f.abstract [old] bound).occursFree new bound = false := by
  constructor
  · rintro (hback | hagain)
    · rw [abstract_eq_of_replace?_undo h hback]
      exact .inr (occursFree_abstract (List.mem_singleton_self new) hnew)
    · exact .inl (eq_of_replace?_again h hagain)
  · rintro (rfl | hfree)
    · exact .inr h
    · exact .inl (replace?_undo h hfree)

end Formula

theorem Context.fill_eq_ok_iff {c : Context} {args : List Formula} {g : Formula} :
    c.fill args = .ok g ↔ Formula.FillsTo args [] g c.body := by
  unfold Context.fill Context.captures Formula.FillsTo
  rcases c.body.captures args [] with _ | _ | _
  · simp
  · cases c.body.fillHoles args <;> simp
  · simp

/-- The context of `old` in a formula gives, filled with `new`, the formula with `old` replaced. -/
theorem Context.fill_ofTargets_iff_replace? {f g old new : Formula} (hf : f.hasHoles = false) :
    (Context.ofTargets f [old]).fill [new] = .ok g ↔ f.replace? old new [] = some g := by
  rw [Context.fill_eq_ok_iff]
  exact Formula.fillsTo_abstract_iff_replace? hf

end Deduction
