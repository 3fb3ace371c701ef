import Deduction.Proofs.Handles
import Deduction.Proofs.Nesting

set_option autoImplicit false

/-! # Where insertions go

An insertion leaves the document as it is, except that at one place of it there is something new: in
front of or behind a part, behind the premises of a scope, or behind all lines of a scope. What is
new is a premise, a step, or a subproof, and a subproof that is not to be empty comes with a blank
premise and a blank step. -/

namespace Deduction

/-! ## Contents of lines -/

theorem Lines.walk_append (depth : Nat) (L M : Lines) :
    (L.append M).walk depth = L.walk depth ++ M.walk depth := by
  induction L with
  | nil => rfl
  | step id content rest ih => rw [append, walk, walk, ih, List.cons_append]
  | subproof id premises body rest _ ih => simp [append, walk, ih]

theorem Lines.premises_append (L M : Lines) :
    (L.append M).premises = L.premises ++ M.premises := by
  induction L with
  | nil => rfl
  | step id content rest ih => exact ih
  | subproof id premises body rest _ ih => simp [append, Lines.premises, ih]

theorem Lines.steps_append (L M : Lines) : (L.append M).steps = L.steps ++ M.steps := by
  induction L with
  | nil => rfl
  | step id content rest ih => rw [append, steps, steps, ih, List.cons_append]
  | subproof id premises body rest _ ih => simp [append, steps, ih]

theorem Frame.premises_subset_fill (F : Frame) (M : Lines) :
    M.premises ⊆ (F.fill M).premises := by
  induction F with
  | gap => exact List.Subset.refl _
  | step id content rest ih => exact ih
  | inside id premises body rest ih =>
      exact fun p hp => List.mem_append_right _ (List.mem_append_left _ (ih hp))
  | behind id premises body rest ih =>
      exact fun p hp => List.mem_append_right _ (List.mem_append_right _ (ih hp))

theorem Frame.steps_subset_fill (F : Frame) (M : Lines) : M.steps ⊆ (F.fill M).steps := by
  induction F with
  | gap => exact List.Subset.refl _
  | step id content rest ih => exact fun s hs => List.mem_cons_of_mem _ (ih hs)
  | inside id premises body rest ih => exact fun s hs => List.mem_append_left _ (ih hs)
  | behind id premises body rest ih => exact fun s hs => List.mem_append_right _ (ih hs)

/-- The premises and steps of a scope, at any depth, are with their contents among those of another
    one. -/
structure Scope.Among (scope whole : Scope) : Prop where
  premises : scope.premises ++ scope.lines.premises ⊆ whole.premises ++ whole.lines.premises
  steps : scope.lines.steps ⊆ whole.lines.steps

theorem Scope.Among.trans {scope whole wider : Scope} (h : scope.Among whole)
    (h' : whole.Among wider) : scope.Among wider :=
  ⟨List.Subset.trans h.premises h'.premises, List.Subset.trans h.steps h'.steps⟩

/-! ## Places in the document -/

/-- A place that an insertion names: beside a part, or in a scope; none stands for the outermost
    one. -/
inductive Spot where
  | beside (anchor : Ref) (after : Bool)
  | behindPremises (within : Option Ref)
  | behindLines (within : Option Ref)

namespace Derivation

/-- Of two pieces of the walk through a derivation, the first one ends with a part, at a depth, and
    all that is nested in it. -/
def DividesBehind (d : Derivation) (r : Ref) (front : List (Nat × Ref)) (depth : Nat)
    (back : List (Nat × Ref)) : Prop :=
  ∃ before nested, front = before ++ (depth, r) :: nested ∧
    (∀ entry ∈ nested, d.Encloses r entry.2) ∧ ∀ entry ∈ back, ¬ d.Encloses r entry.2

/-- The walk up to where a scope begins, and the depth of what is listed in the scope. -/
def Opens (front : List (Nat × Ref)) (depth : Nat) : Option Ref → Prop
  | none => front = [] ∧ depth = 0
  | some s => ∃ before k, front = before ++ [(k, s)] ∧ depth = k + 1

end Derivation

/-- The walk through a derivation comes to the spot, at a depth, between two pieces. -/
def Spot.Divides (d : Derivation) (front : List (Nat × Ref)) (depth : Nat)
    (back : List (Nat × Ref)) : Spot → Prop
  | .beside anchor false => back.head? = some (depth, anchor)
  | .beside anchor true => d.DividesBehind anchor front depth back
  | .behindPremises within => ∃ scope start rest, d.scopeAt within = some scope ∧
      Derivation.Opens start depth within ∧
      front = start ++ scope.premises.map (fun p => (depth, p.ref)) ∧
      back = scope.lines.walk depth ++ rest
  | .behindLines none => depth = 0 ∧ back = []
  | .behindLines (some s) => ∃ k, depth = k + 1 ∧ d.DividesBehind s front k back

/-- The spot is there. Premises go beside a premise, and all else beside a step or a subproof. -/
def Spot.Available (d : Derivation) (new : Scope) : Spot → Prop
  | .beside anchor _ => d.contains anchor = true ∧ (anchor.followsPremises = true ↔ new.premises = [])
  | .behindPremises within | .behindLines within => (d.scopeAt within).isSome = true

/-- The spot that an insertion names, and the new parts, with numbers from `id` on. -/
def Operation.inserts? (id : Int) : Operation → Option (Spot × Scope)
  | .addPremise formula within => some (.behindPremises within, ⟨[⟨id, formula⟩], .nil⟩)
  | .addPremiseBeside formula anchor after => some (.beside anchor after, ⟨[⟨id, formula⟩], .nil⟩)
  | .prependStep content within => some (.behindPremises within, ⟨[], .step id content .nil⟩)
  | .addStep content within => some (.behindLines within, ⟨[], .step id content .nil⟩)
  | .addStepBeside content anchor after => some (.beside anchor after, ⟨[], .step id content .nil⟩)
  | .addSubproof within true => some (.behindLines within, ⟨[], .subproof id [] .nil .nil⟩)
  | .addSubproof within false => some (.behindLines within, ⟨[], .blankSubproof id .nil⟩)
  | .addSubproofBeside anchor after => some (.beside anchor after, ⟨[], .blankSubproof id .nil⟩)
  | .removeLine .. | .removeSubproof .. | .setPremise .. | .setConclusion .. | .setRule ..
  | .toggleDependency .. | .withPremise .. | .withStep .. | .assignFormula ..
  | .assignStep .. => none

namespace Derivation

variable {d d' : Derivation} {r s : Ref} {scope new : Scope} {within : Option Ref}

/-- The outermost scope `root` is that of `d` with something new at the spot: the walk through it is
    the same up to the spot and from there on, and what is new has its contents. -/
structure Lands (d : Derivation) (root : Scope) (spot : Spot) (new : Scope) : Prop where
  place : ∃ front depth back, spot.Divides d front depth back ∧ d.walk = front ++ back ∧
    root.walk 0 = front ++ (new.walk depth ++ back)
  among : new.Among root

/-! ## Behind a part -/

theorem scope?_isSome_of_encloses (hd : d.WellFormed) (h : d.Encloses s r) :
    (d.scope? s).isSome = true := by
  obtain ⟨child, -, hparent⟩ := Relation.TransGen.tail'_iff.1 h
  have hchild : d.contains child = true := by
    by_contra hnot
    rw [contains_iff] at hnot
    rw [parentOf_eq_none fun hmem => hnot (mem_refs.2 (.inr hmem))] at hparent
    cases hparent
  have hscope := scopeAt_parentOf hd hchild
  rwa [hparent] at hscope

theorem dividesBehind_of_scope? (hd : d.WellFormed) (hs : d.scope? s = some scope)
    {before back : List (Nat × Ref)} {depth : Nat}
    (hwalk : d.walk = (before ++ (depth, s) :: scope.walk (depth + 1)) ++ back) :
    d.DividesBehind s (before ++ (depth, s) :: scope.walk (depth + 1)) depth back := by
  refine ⟨before, scope.walk (depth + 1), rfl, fun entry hentry => ?_, fun entry hentry => ?_⟩
  · rw [encloses_iff_mem_refs hd hs, ← Scope.walk_map_snd scope (depth + 1)]
    exact List.mem_map_of_mem hentry
  · rw [encloses_iff_mem_refs hd hs, ← Scope.walk_map_snd scope (depth + 1)]
    intro hinside
    -- what is nested is passed in the first piece, and nothing is passed twice
    have hnodup : (d.walk.map Prod.snd).Nodup := hd.nodup
    rw [hwalk, List.map_append] at hnodup
    refine (List.nodup_append.1 hnodup).2.2 entry.2 ?_ entry.2 (List.mem_map_of_mem hentry) rfl
    rw [List.map_append, List.map_cons]
    exact List.mem_append_right _ (List.mem_cons_of_mem _ hinside)

theorem dividesBehind_of_line (hd : d.WellFormed) (hr : d.scope? r = none)
    (before back : List (Nat × Ref)) (depth : Nat) :
    d.DividesBehind r (before ++ [(depth, r)]) depth back := by
  refine ⟨before, [], rfl, by simp, fun entry _ hencloses => ?_⟩
  have hscope := scope?_isSome_of_encloses hd hencloses
  rw [hr] at hscope
  cases hscope

/-! ## In a scope -/

theorem scopeAt_isSome (d : Derivation) (within : Option Ref) :
    (d.scopeAt within).isSome = d.hasScope within := by
  cases within <;> rfl

theorem root_modifyScope_draw (d : Derivation) (count : Int) (within : Option Ref)
    (change : Scope → Scope) :
    ((d.draw count).modifyScope within change).root = (d.modifyScope within change).root := by
  cases within <;> rfl

section

variable (hd : d.WellFormed) (hs : d.scopeAt within = some scope)

include hd hs

/-- A scope is one piece of the walk, and an edit of the scope changes this piece. -/
theorem exists_walk_of_scopeAt :
    ∃ start depth rest, Opens start depth within ∧ d.walk = start ++ (scope.walk depth ++ rest) ∧
      ∀ change, (d.modifyScope within change).root.walk 0
        = start ++ ((change scope).walk depth ++ rest) := by
  cases within with
  | none =>
      obtain rfl := Option.some.inj hs
      exact ⟨[], 0, [], ⟨rfl, rfl⟩, (List.append_nil _).symm, fun change => (List.append_nil _).symm⟩
  | some s =>
      obtain ⟨front, depth, back, hwalk, -, hchange⟩ := exists_walk_of_scope? hd hs
      refine ⟨front ++ [(depth, s)], depth + 1, back, ⟨front, depth, rfl, rfl⟩, ?_, fun change => ?_⟩
      · rw [hwalk, List.append_assoc, List.singleton_append]
      · rw [List.append_assoc, List.singleton_append]
        exact hchange change

theorem among_modifyScope (change : Scope → Scope) :
    (change scope).Among (d.modifyScope within change).root := by
  cases within with
  | none =>
      obtain rfl := Option.some.inj hs
      exact ⟨List.Subset.refl _, List.Subset.refl _⟩
  | some s =>
      obtain ⟨id, F, rest, rfl, hlines, hF⟩ := exists_frame_of_scope? hd hs
      have hedited : (d.modifyScope (some (.subproof id)) change).root.lines
          = F.fill (.subproof id (change scope).premises (change scope).lines rest) := by
        show d.root.lines.modifyScope id change = _
        rw [hlines, (Lines.editsAt_modifyScope id change).fill hF, Lines.modifyScope, if_pos rfl]
      constructor
      · rw [hedited]
        intro p hp
        refine List.mem_append_right _ (F.premises_subset_fill _ ?_)
        rw [Lines.premises, ← List.append_assoc]
        exact List.mem_append_left _ hp
      · rw [hedited]
        exact fun step hstep => F.steps_subset_fill _ (List.mem_append_left _ hstep)

theorem lands_behindPremises (new : Scope) :
    d.Lands (d.modifyScope within fun scope =>
      ⟨scope.premises ++ new.premises, new.lines.append scope.lines⟩).root
      (.behindPremises within) new := by
  obtain ⟨start, depth, rest, hopens, hwalk, hchange⟩ := exists_walk_of_scopeAt hd hs
  constructor
  case place =>
    refine ⟨start ++ scope.premises.map (fun p => (depth, p.ref)), depth,
      scope.lines.walk depth ++ rest, ⟨scope, start, rest, hs, hopens, rfl, rfl⟩, ?_, ?_⟩
    · rw [hwalk, Scope.walk, List.append_assoc, List.append_assoc]
    · rw [hchange]
      simp only [Scope.walk, Lines.walk_append, List.map_append, List.append_assoc]
  case among =>
    refine Scope.Among.trans ⟨fun p hp => ?_, fun step hstep => ?_⟩ (among_modifyScope hd hs _)
    · simp only [Lines.premises_append, List.mem_append] at hp ⊢
      exact hp.imp .inr .inl
    · rw [Lines.steps_append]
      exact List.mem_append_left _ hstep

theorem lands_behindLines (new : Lines) :
    d.Lands (d.modifyScope within fun scope =>
      { scope with lines := scope.lines.append new }).root (.behindLines within) ⟨[], new⟩ := by
  obtain ⟨start, depth, rest, hopens, hwalk, hchange⟩ := exists_walk_of_scopeAt hd hs
  constructor
  case place =>
    refine ⟨start ++ scope.walk depth, depth, rest, ?_, ?_, ?_⟩
    · cases within with
      | none =>
          obtain ⟨rfl, rfl⟩ := hopens
          obtain rfl := Option.some.inj hs
          refine ⟨rfl, ?_⟩
          rw [List.nil_append] at hwalk
          exact List.append_right_eq_self.1 hwalk.symm
      | some s =>
          obtain ⟨before, k, rfl, rfl⟩ := hopens
          refine ⟨k, rfl, ?_⟩
          rw [List.append_assoc, List.singleton_append] at hwalk ⊢
          exact dividesBehind_of_scope? hd hs (by rw [hwalk, List.append_assoc, List.cons_append])
    · rw [hwalk, List.append_assoc]
    · rw [hchange]
      simp only [Scope.walk, Lines.walk_append, List.map_nil, List.nil_append, List.append_assoc]
  case among =>
    refine Scope.Among.trans ⟨fun p hp => ?_, fun step hstep => ?_⟩ (among_modifyScope hd hs _)
    · rw [Lines.premises_append, ← List.append_assoc]
      exact List.mem_append_right _ hp
    · rw [Lines.steps_append]
      exact List.mem_append_right _ hstep

end

/-! ## Beside a premise -/

/-- Inserting beside a premise is an edit of the scope that it is a premise of. -/
theorem exists_scopeAt_of_premise (hd : d.WellFormed) {id : Int} (h : .premise id ∈ d.refs) :
    ∃ within scope, d.scopeAt within = some scope ∧ .premise id ∈ scope.premises.map Premise.ref ∧
      ∀ after new, Scope.mk (insertPremise id after new d.root.premises)
          (d.root.lines.mapPremises (insertPremise id after new))
        = (d.modifyScope within fun scope =>
            { scope with premises := insertPremise id after new scope.premises }).root := by
  rcases mem_refs.1 h with hroot | hlines
  · refine ⟨none, d.root, rfl, hroot, fun after new => ?_⟩
    rw [(Lines.editsAt_insertPremise id after new).eq_self (hd.disjoint hroot)]
    rfl
  · obtain ⟨F, i, premises, body, rest, hfill, hpremise⟩ := Lines.exists_frame_of_premise hlines
    have hnodup := hd.nodup_parts
    rw [hfill] at hnodup
    obtain ⟨hi, hscope⟩ := scope?_of_frame hd hfill
    have hid := Frame.not_mem_of_nodup hnodup (Lines.mem_parts_subproof.2 (.inr (.inl hpremise)))
    obtain ⟨-, hpremises, -⟩ := Lines.nodup_parts_subproof (Frame.nodup_of_fill hnodup)
    obtain ⟨hbody, hrest⟩ := hpremises _ hpremise
    refine ⟨some (.subproof i), ⟨premises, body⟩, hscope, hpremise, fun after new => ?_⟩
    have hedits := Lines.editsAt_insertPremise id after new
    have hroot : .premise id ∉ d.root.premiseRefs := fun hroot => hd.disjoint hroot hlines
    show _ = Scope.mk d.root.premises (d.root.lines.modifyScope i _)
    rw [insertPremise_of_not_mem hroot, hfill, hedits.fill hid,
      (Lines.editsAt_modifyScope i _).fill hi, Lines.mapPremises, hedits.eq_self hbody,
      hedits.eq_self hrest, Lines.modifyScope, if_pos rfl]

theorem lands_beside_premise (hd : d.WellFormed) {id : Int} (h : .premise id ∈ d.refs)
    (after : Bool) (new : Premise) :
    d.Lands ⟨insertPremise id after new d.root.premises,
      d.root.lines.mapPremises (insertPremise id after new)⟩ (.beside (.premise id) after)
      ⟨[new], .nil⟩ := by
  obtain ⟨within, scope, hs, hpremise, hroot⟩ := exists_scopeAt_of_premise hd h
  obtain ⟨start, depth, rest, -, hwalk, hchange⟩ := exists_walk_of_scopeAt hd hs
  obtain ⟨before, p, behind, hsplit, hp, hinsert⟩ := exists_insertPremise hpremise
  obtain ⟨A, B, hpremises, hinserted, hdivides⟩ : ∃ A B, scope.premises = A ++ B ∧
      insertPremise id after new scope.premises = A ++ new :: B ∧
      (Spot.beside (.premise id) after).Divides d (start ++ A.map fun p => (depth, p.ref)) depth
        (B.map (fun p => (depth, p.ref)) ++ (scope.lines.walk depth ++ rest)) := by
    cases after with
    | true =>
        refine ⟨before ++ [p], behind, by simp [hsplit], by simp [hinsert], ?_⟩
        rw [List.map_append, List.map_singleton, hp, ← List.append_assoc]
        exact dividesBehind_of_line hd rfl _ _ depth
    | false =>
        refine ⟨before, p :: behind, hsplit, hinsert false new, ?_⟩
        rw [List.map_cons, hp]
        rfl
  rw [hroot]
  constructor
  case place =>
    refine ⟨_, depth, _, hdivides, ?_, ?_⟩
    · simp [hwalk, Scope.walk, hpremises]
    · rw [hchange]
      simp [Scope.walk, hinserted, Lines.walk]
  case among =>
    refine Scope.Among.trans ⟨fun q hq => ?_, by simp [Lines.steps]⟩ (among_modifyScope hd hs _)
    obtain rfl : q = new := by simpa [Lines.premises] using hq
    simp [hinserted]

/-! ## Beside a line -/

/-- The lines in the gap of a frame fall into two pieces, and what is inserted beside the first of the
    lines comes between them. -/
theorem exists_pieces_of_insertBeside (hd : d.WellFormed) {F : Frame} {M new : Lines}
    {anchor : Ref} {front rest : List (Nat × Ref)} {depth : Nat} (hlines : d.root.lines = F.fill M)
    (hM : M.refs.head? = some anchor) (hwalk : d.walk = front ++ (M.walk depth ++ rest))
    (after : Bool) {insert : Lines → Lines} (hinsert : ∀ N, insert N = new.append N) :
    ∃ A B : Lines, M = A.append B ∧
      M.insertBeside anchor after insert = A.append (new.append B) ∧
      (Spot.beside anchor after).Divides d (front ++ A.walk depth) depth (B.walk depth ++ rest) := by
  cases M with
  | nil => exact absurd hM (by simp [Lines.refs])
  | step i content tail =>
      obtain rfl : .step i = anchor := Option.some.inj hM
      rw [Lines.insertBeside, if_pos rfl, hinsert, hinsert]
      cases after with
      | true => exact ⟨.step i content .nil, tail, rfl, rfl, dividesBehind_of_line hd rfl _ _ depth⟩
      | false => exact ⟨.nil, .step i content tail, rfl, rfl, rfl⟩
  | subproof i premises body tail =>
      obtain rfl : .subproof i = anchor := Option.some.inj hM
      rw [Lines.insertBeside, if_pos rfl, hinsert, hinsert]
      cases after with
      | true =>
          obtain ⟨-, hscope⟩ := scope?_of_frame hd hlines
          have hhead : (Lines.subproof i premises body .nil).walk depth
              = (depth, .subproof i) :: (Scope.mk premises body).walk (depth + 1) := by
            simp [Lines.walk, Scope.walk]
          refine ⟨.subproof i premises body .nil, tail, rfl, rfl, ?_⟩
          rw [hhead]
          refine dividesBehind_of_scope? hd hscope ?_
          rw [hwalk]
          simp [Lines.walk, Scope.walk]
      | false => exact ⟨.nil, .subproof i premises body tail, rfl, rfl, rfl⟩

theorem lands_beside_line (hd : d.WellFormed) {anchor : Ref} (h : d.hasLine anchor = true)
    (after : Bool) {insert : Lines → Lines} {new : Lines}
    (hinsert : ∀ N, insert N = new.append N) :
    d.Lands (d.insertBeside anchor after insert).root (.beside anchor after) ⟨[], new⟩ := by
  obtain ⟨hkind, hmem⟩ := mem_parts_of_hasLine h
  obtain ⟨F, M, hlines, hM⟩ := Lines.exists_frame_of_line hkind hmem
  obtain ⟨front, depth, rest, hfill⟩ := exists_walk_of_frame d.root.premises F
  have hwalk : d.walk = front ++ (M.walk depth ++ rest) := by
    rw [← hfill, ← hlines]
    rfl
  obtain ⟨A, B, hpieces, hinserted, hdivides⟩ :=
    exists_pieces_of_insertBeside hd hlines hM hwalk after hinsert
  have hroot : (d.insertBeside anchor after insert).root
      = ⟨d.root.premises, F.fill (A.append (new.append B))⟩ := by
    have hnodup := hd.nodup_parts
    rw [hlines] at hnodup
    have hF := Frame.not_mem_of_nodup hnodup (M.refs_sublist_parts.subset (List.mem_of_head? hM))
    rw [← hinserted, ← (Lines.editsAt_insertBeside anchor after insert).fill hF, ← hlines]
    rfl
  rw [hroot]
  constructor
  case place =>
    refine ⟨_, depth, _, hdivides, ?_, ?_⟩
    · rw [hwalk, hpieces, Lines.walk_append, List.append_assoc, List.append_assoc]
    · rw [hfill, Lines.walk_append, Lines.walk_append]
      simp [Scope.walk]
  case among =>
    constructor
    · intro p hp
      refine List.mem_append_right _ (F.premises_subset_fill _ ?_)
      rw [Lines.premises_append, Lines.premises_append]
      exact List.mem_append_right _ (List.mem_append_left _ hp)
    · intro step hstep
      refine F.steps_subset_fill _ ?_
      rw [Lines.steps_append, Lines.steps_append]
      exact List.mem_append_right _ (List.mem_append_left _ hstep)

/-! ## Insertions -/

theorem perform_of_insertion? {op : Operation} {x : Option Ref}
    (h : d.insertion? op = some (.ok (x, d'))) : d.perform op = d' := by
  cases op with
  | addPremise formula within => rw [perform, Option.some.inj h]; rfl
  | addPremiseBeside formula anchor after => rw [perform, Option.some.inj h]; rfl
  | prependStep content within => rw [perform, Option.some.inj h]; rfl
  | addStep content within => rw [perform, Option.some.inj h]; rfl
  | addStepBeside content anchor after => rw [perform, Option.some.inj h]; rfl
  | addSubproof within empty => rw [perform, Option.some.inj h]; rfl
  | addSubproofBeside anchor after => rw [perform, Option.some.inj h]; rfl
  | _ => cases h

/-- Every insertion that is done puts its new parts, the first of which it answers with, at the spot
    that it names. -/
theorem lands_of_insertion? (hd : d.WellFormed) {op : Operation} {spot : Spot} {x : Ref}
    (h : op.inserts? d.nextId = some (spot, new))
    (hdone : d.insertion? op = some (.ok (some x, d'))) :
    new.refs.head? = some x ∧ d.Lands d'.root spot new := by
  have hscopeAt {within : Option Ref} (hwithin : d.hasScope within = true) :
      ∃ scope, d.scopeAt within = some scope :=
    Option.isSome_iff_exists.1 ((scopeAt_isSome d within).trans hwithin)
  cases op with
  | addPremise formula within =>
      cases h
      obtain ⟨hwithin, rfl, rfl⟩ := eq_of_insertion (Option.some.inj hdone)
      obtain ⟨scope, hs⟩ := hscopeAt hwithin
      rw [root_modifyScope_draw]
      exact ⟨rfl, lands_behindPremises hd hs ⟨[⟨d.nextId, formula⟩], .nil⟩⟩
  | addPremiseBeside formula anchor after =>
      cases h
      obtain ⟨hanchor, rfl, rfl⟩ := eq_of_insertion (Option.some.inj hdone)
      cases anchor with
      | premise id => exact ⟨rfl, lands_beside_premise hd (premise?_isSome.1 hanchor) after _⟩
      | step id => cases hanchor
      | subproof id => cases hanchor
  | prependStep content within =>
      cases h
      obtain ⟨hwithin, rfl, rfl⟩ := eq_of_insertion (Option.some.inj hdone)
      obtain ⟨scope, hs⟩ := hscopeAt hwithin
      rw [root_modifyScope_draw]
      have hlands := lands_behindPremises hd hs ⟨[], .step d.nextId content .nil⟩
      simp only [List.append_nil, Lines.append] at hlands
      exact ⟨rfl, hlands⟩
  | addStep content within =>
      cases h
      obtain ⟨hwithin, rfl, rfl⟩ := eq_of_insertion (Option.some.inj hdone)
      obtain ⟨scope, hs⟩ := hscopeAt hwithin
      rw [root_modifyScope_draw]
      exact ⟨rfl, lands_behindLines hd hs _⟩
  | addStepBeside content anchor after =>
      cases h
      obtain ⟨hanchor, rfl, rfl⟩ := eq_of_insertion (Option.some.inj hdone)
      exact ⟨rfl, lands_beside_line hd hanchor after fun _ => rfl⟩
  | addSubproof within empty =>
      obtain ⟨hwithin, rfl, rfl⟩ := eq_of_insertion (Option.some.inj hdone)
      obtain ⟨scope, hs⟩ := hscopeAt hwithin
      rw [root_modifyScope_draw]
      cases empty <;> cases h <;> exact ⟨rfl, lands_behindLines hd hs _⟩
  | addSubproofBeside anchor after =>
      cases h
      obtain ⟨hanchor, rfl, rfl⟩ := eq_of_insertion (Option.some.inj hdone)
      exact ⟨rfl, lands_beside_line hd hanchor after fun _ => rfl⟩
  | _ => cases h

theorem exists_ok_iff {allowed : Bool} {x : Ref} {changed : Derivation} :
    (∃ y d', some (d.structural none (if allowed = true then some (some x, changed) else none))
      = some (.ok (some y, d'))) ↔ d.held = none ∧ allowed = true := by
  constructor
  · rintro ⟨y, d', h⟩
    have hfree : d.held = none := by
      by_contra hheld
      rw [structural, if_pos (Option.isSome_iff_ne_none.2 hheld)] at h
      cases h
    exact ⟨hfree, (eq_of_insertion (Option.some.inj h)).1⟩
  · rintro ⟨hfree, hallowed⟩
    exact ⟨x, changed, by rw [structural, if_neg (by simp [hfree]), if_pos hallowed]; rfl⟩

/-- An insertion is done exactly if no line is held and the spot is there. -/
theorem exists_insertion_iff {op : Operation} {spot : Spot}
    (h : op.inserts? d.nextId = some (spot, new)) :
    (∃ x d', d.insertion? op = some (.ok (some x, d'))) ↔ d.held = none ∧ spot.Available d new := by
  have hscope (within : Option Ref) : d.hasScope within = true ↔ (d.scopeAt within).isSome = true := by
    rw [scopeAt_isSome]
  have hline (anchor : Ref) : d.hasLine anchor = true ↔
      d.contains anchor = true ∧ (anchor.followsPremises = true ↔ ([] : List Premise) = []) := by
    simp [hasLine, and_comm]
  cases op with
  | addPremise formula within =>
      cases h
      exact exists_ok_iff.trans (and_congr_right fun _ => hscope within)
  | addPremiseBeside formula anchor after =>
      cases h
      refine exists_ok_iff.trans (and_congr_right fun _ => ?_)
      cases anchor with
      | premise id => simp [Spot.Available, premise?_isSome, contains_iff, Ref.followsPremises]
      | step id => simp [Spot.Available, premise?, Ref.followsPremises]
      | subproof id => simp [Spot.Available, premise?, Ref.followsPremises]
  | prependStep content within =>
      cases h
      exact exists_ok_iff.trans (and_congr_right fun _ => hscope within)
  | addStep content within =>
      cases h
      exact exists_ok_iff.trans (and_congr_right fun _ => hscope within)
  | addStepBeside content anchor after =>
      cases h
      exact exists_ok_iff.trans (and_congr_right fun _ => hline anchor)
  | addSubproof within empty =>
      cases empty <;> cases h <;>
        exact exists_ok_iff.trans (and_congr_right fun _ => hscope within)
  | addSubproofBeside anchor after =>
      cases h
      exact exists_ok_iff.trans (and_congr_right fun _ => hline anchor)
  | _ => cases h

/-- Whatever operations led to a derivation, an insertion is done exactly if no line is held and the
    spot that it names is there. It leaves the walk through the derivation as it is, except for one
    piece at this spot. The piece consists of the new parts, the first of which is the answer, and
    they have the contents they are inserted with. -/
theorem insertion_lands_at_spot (hd : Reachable d) {op : Operation} {spot : Spot}
    (h : op.inserts? d.nextId = some (spot, new)) :
    ((∃ x d', d.insertion? op = some (.ok (some x, d'))) ↔
      d.held = none ∧ spot.Available d new) ∧
    ∀ x d', d.insertion? op = some (.ok (some x, d')) →
      new.refs.head? = some x ∧
      (∃ front depth back, spot.Divides d front depth back ∧ d.walk = front ++ back ∧
        d'.walk = front ++ (new.walk depth ++ back)) ∧
      (∀ p ∈ new.premises ++ new.lines.premises, d'.premise? p.ref = some p) ∧
      ∀ id content, (id, content) ∈ new.lines.steps → d'.step? (.step id) = some content := by
  refine ⟨exists_insertion_iff h, fun x d' hdone => ?_⟩
  obtain ⟨hx, hlands⟩ := lands_of_insertion? hd.wellFormed h hdone
  have hwell : d'.WellFormed := by
    rw [← perform_of_insertion? hdone]
    exact (hd.performed op).wellFormed
  refine ⟨hx, hlands.place, fun p hp => ?_, fun id content hstep => ?_⟩
  · exact premise?_of_mem hwell.nodup (hlands.among.premises hp)
  · exact (step?_eq_some hwell.nodup_parts).2 (hlands.among.steps hstep)

/-- A subproof is inserted behind another one with a subproof nested in it, and comes behind all of
    this. -/
theorem insertion_lands_at_spot_nested :
    let d := Derivation.blank.performAll [
      .addSubproof none false,
      .addSubproof (some (.subproof 3)) false,
      .addStep .blank none]
    ∃ (d' : Derivation) (front : List (Nat × Ref)) (depth : Nat) (back : List (Nat × Ref)),
      d.addSubproofBeside (.subproof 3) true = .ok (some (.subproof 10), d') ∧
      d.DividesBehind (.subproof 3) front depth back ∧ d.walk = front ++ back ∧
      d'.walk = front ++ (depth, .subproof 10) :: (depth + 1, .premise 11) :: (depth + 1, .step 12) ::
        back ∧
      d'.refs = [.premise 1, .step 2, .subproof 3, .premise 4, .step 5, .subproof 6, .premise 7,
        .step 8, .subproof 10, .premise 11, .step 12, .step 9] ∧
      d'.premise? (.premise 11) = some ⟨11, none⟩ ∧ d'.step? (.step 12) = some .blank := by
  intro d
  obtain ⟨hdone, hlands⟩ := insertion_lands_at_spot (Reachable.blank.performAll _ : Reachable d)
    (show Operation.inserts? d.nextId (.addSubproofBeside (.subproof 3) true)
      = some (.beside (.subproof 3) true, ⟨[], .blankSubproof 10 .nil⟩) by rfl)
  obtain ⟨x, d', hinserted⟩ := hdone.2 ⟨by decide, by decide, by decide⟩
  obtain ⟨hx, ⟨front, depth, back, hdivides, hwalk, hwalk'⟩, hpremises, hsteps⟩ :=
    hlands x d' hinserted
  obtain rfl : .subproof 10 = x := Option.some.inj hx
  obtain rfl := perform_of_insertion? hinserted
  refine ⟨_, front, depth, back, Option.some.inj hinserted, hdivides, hwalk, hwalk', by decide,
    ?_, ?_⟩
  · exact hpremises ⟨11, none⟩ (by decide)
  · exact hsteps 12 .blank (by decide)

end Derivation

end Deduction
