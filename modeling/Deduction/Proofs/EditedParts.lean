import Deduction.Derivation.Hold
import Deduction.Proofs.Frames

set_option autoImplicit false

/-! # What edits do to the parts

An insertion adds its new parts and leaves the others; a removal takes some away; a change of contents
leaves the parts as they are. Where an insertion goes by a number or a reference, this takes that no
part occurs twice: otherwise it would happen in several places. -/

namespace Deduction

namespace Lines

variable {L : Lines}

theorem parts_append (L M : Lines) : (L.append M).parts = L.parts ++ M.parts := by
  induction L with
  | nil => rfl
  | step id content rest ih => simp [append, parts, ih]
  | subproof id premises body rest _ ih => simp [append, parts, ih]

/-! ## Insertions -/

/-- Adding to the scope of a subproof adds to the lines. -/
theorem parts_modifyScope {id : Int} {change : Scope → Scope} {new : List Ref} (hL : L.parts.Nodup)
    (h : Ref.subproof id ∈ L.parts) (hchange : ∀ s : Scope, (change s).refs.Perm (new ++ s.refs)) :
    (L.modifyScope id change).parts.Perm (new ++ L.parts) := by
  obtain ⟨F, premises, body, rest, rfl⟩ := exists_frame_of_subproof h
  have hF := Frame.not_mem_of_nodup hL (mem_parts_subproof.2 (.inl rfl))
  rw [(editsAt_modifyScope id change).fill hF]
  refine Frame.perm_fill (List.perm_iff_count.2 fun a => ?_)
  have hscope := (hchange ⟨premises, body⟩).count_eq a
  simp only [Scope.refs_eq, Scope.premiseRefs, List.count_append] at hscope
  simp only [modifyScope, if_true, parts, List.count_append, List.count_cons]
  omega

/-- Inserting beside a line adds to the lines. -/
theorem parts_insertBeside {anchor : Ref} (after : Bool) {insert : Lines → Lines} {new : List Ref}
    (hL : L.parts.Nodup) (hkind : anchor.followsPremises = true) (h : anchor ∈ L.parts)
    (hinsert : ∀ M : Lines, (insert M).parts.Perm (new ++ M.parts)) :
    (L.insertBeside anchor after insert).parts.Perm (new ++ L.parts) := by
  obtain ⟨F, M, rfl, hM⟩ := exists_frame_of_line hkind h
  have hF := Frame.not_mem_of_nodup hL (M.refs_sublist_parts.subset (List.mem_of_head? hM))
  rw [(editsAt_insertBeside anchor after insert).fill hF]
  refine Frame.perm_fill (List.perm_iff_count.2 fun a => ?_)
  have hcount : ∀ N : Lines, (insert N).parts.count a = new.count a + N.parts.count a := by
    intro N
    rw [(hinsert N).count_eq a, List.count_append]
  cases M with
  | nil => exact absurd hM (by simp [refs])
  | step i content rest =>
      obtain rfl : .step i = anchor := Option.some.inj hM
      rw [insertBeside, if_pos rfl]
      split
      · simp only [parts, List.count_append, List.count_cons, hcount]
        omega
      · rw [hcount, List.count_append]
  | subproof i premises body rest =>
      obtain rfl : .subproof i = anchor := Option.some.inj hM
      rw [insertBeside, if_pos rfl]
      split
      · simp only [parts, List.count_append, List.count_cons, hcount]
        omega
      · rw [hcount, List.count_append]

end Lines

theorem exists_insertPremise {anchor : Int} {premises : List Premise}
    (h : Ref.premise anchor ∈ premises.map Premise.ref) :
    ∃ front p back, premises = front ++ p :: back ∧ p.ref = .premise anchor ∧
      ∀ after new, insertPremise anchor after new premises
        = front ++ if after then p :: new :: back else new :: p :: back := by
  induction premises with
  | nil => exact absurd h (by simp)
  | cons p ps ih =>
      by_cases hp : p.id = anchor
      · exact ⟨[], p, ps, rfl, congrArg Ref.premise hp, fun after new => if_pos hp⟩
      · have hrest : Ref.premise anchor ∈ ps.map Premise.ref :=
          (List.mem_cons.1 h).resolve_left fun he => hp (Ref.premise.inj he).symm
        obtain ⟨front, q, back, rfl, hq, hinsert⟩ := ih hrest
        refine ⟨p :: front, q, back, rfl, hq, fun after new => ?_⟩
        rw [insertPremise, if_neg hp, hinsert, List.cons_append]

theorem refs_insertPremise {anchor : Int} (after : Bool) (new : Premise) {premises : List Premise}
    (h : Ref.premise anchor ∈ premises.map Premise.ref) :
    ((insertPremise anchor after new premises).map Premise.ref).Perm
      (new.ref :: premises.map Premise.ref) := by
  obtain ⟨front, p, back, rfl, -, hinsert⟩ := exists_insertPremise h
  rw [hinsert, ← List.map_cons]
  refine List.Perm.map _ ?_
  cases after with
  | true =>
      exact ((List.Perm.swap new p back).append_left front).trans List.perm_middle
  | false => exact List.perm_middle

namespace Lines

variable {L : Lines}

/-- Inserting beside a premise adds to the lines. -/
theorem parts_mapPremises_insert {anchor : Int} (after : Bool) (new : Premise) (hL : L.parts.Nodup)
    (h : Ref.premise anchor ∈ L.parts) :
    (L.mapPremises (insertPremise anchor after new)).parts.Perm (new.ref :: L.parts) := by
  obtain ⟨F, i, premises, body, rest, rfl, hpremise⟩ := exists_frame_of_premise h
  have hedits := editsAt_insertPremise anchor after new
  have hF := Frame.not_mem_of_nodup hL (mem_parts_subproof.2 (.inr (.inl hpremise)))
  obtain ⟨-, hpremises, -⟩ := nodup_parts_subproof (Frame.nodup_of_fill hL)
  obtain ⟨hbody, hrest⟩ := hpremises _ hpremise
  rw [hedits.fill hF, mapPremises, hedits.eq_self hbody, hedits.eq_self hrest]
  have hgap : (Lines.subproof i (insertPremise anchor after new premises) body rest).parts.Perm
      ([new.ref] ++ (Lines.subproof i premises body rest).parts) := by
    refine List.perm_iff_count.2 fun a => ?_
    have hcount := (refs_insertPremise after new hpremise).count_eq a
    simp only [parts, List.count_append, List.count_cons, List.count_nil] at hcount ⊢
    omega
  exact Frame.perm_fill hgap

/-! ## Removals and changes of contents -/

theorem parts_erase_sublist (r : Ref) (L : Lines) : (L.erase r).parts.Sublist L.parts := by
  induction L with
  | nil => exact List.Sublist.refl []
  | step i content rest ih =>
      rw [erase]
      split
      · exact List.sublist_cons_self ..
      · exact ih.cons_cons _
  | subproof i premises body rest ihbody ihrest =>
      rw [erase]
      split
      · simp only [parts]
        rw [← List.append_assoc]
        exact (List.sublist_append_right _ _).cons _
      · exact ((List.Sublist.refl _).append (ihbody.append ihrest)).cons_cons _

theorem parts_modifyStep (id : Int) (change : Step → Step) (L : Lines) :
    (L.modifyStep id change).parts = L.parts := by
  induction L with
  | nil => rfl
  | step i content rest ih => rw [modifyStep, parts, parts, ih]
  | subproof i premises body rest ihbody ihrest => rw [modifyStep, parts, parts, ihbody, ihrest]

theorem parts_mapPremises {change : List Premise → List Premise}
    (h : ∀ premises, (change premises).map Premise.ref = premises.map Premise.ref) (L : Lines) :
    (L.mapPremises change).parts = L.parts := by
  induction L with
  | nil => rfl
  | step i content rest ih => rw [mapPremises, parts, parts, ih]
  | subproof i premises body rest ihbody ihrest =>
      rw [mapPremises, parts, parts, h, ihbody, ihrest]

end Lines

end Deduction
