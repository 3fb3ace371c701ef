import Deduction.Derivation.Edit
import Deduction.Proofs.Parts

set_option autoImplicit false

/-! # The place of a part

A frame is lines with a gap, at any depth. Every part of a derivation is at the head of lines that
stand in the gap of a frame. An edit that is about this part takes place in the gap and leaves the
frame as it is, and walking through the whole passes the front of the frame, then what is in the gap,
and then the back of the frame. -/

namespace Deduction

/-! ## Frames -/

/-- Lines with a gap, in which other lines may stand. -/
inductive Frame where
  | gap
  | step (id : Int) (content : Step) (rest : Frame)
  /-- The gap is among the lines of a subproof. -/
  | inside (id : Int) (premises : List Premise) (body : Frame) (rest : Lines)
  /-- The gap is behind a subproof. -/
  | behind (id : Int) (premises : List Premise) (body : Lines) (rest : Frame)

namespace Frame

/-- The frame with lines in its gap. -/
def fill : Frame → Lines → Lines
  | .gap, M => M
  | .step id content rest, M => .step id content (rest.fill M)
  | .inside id premises body rest, M => .subproof id premises (body.fill M) rest
  | .behind id premises body rest, M => .subproof id premises body (rest.fill M)

/-- Walking through a filled frame passes what is in the gap in one piece. -/
theorem exists_walk_fill (F : Frame) (depth : Nat) :
    ∃ front k back, ∀ M : Lines, (F.fill M).walk depth = front ++ (M.walk k ++ back) := by
  induction F generalizing depth with
  | gap => exact ⟨[], depth, [], by simp [fill]⟩
  | step id content rest ih =>
      obtain ⟨front, k, back, h⟩ := ih depth
      refine ⟨(depth, .step id) :: front, k, back, fun M => ?_⟩
      rw [fill, Lines.walk, h, List.cons_append]
  | inside id premises body rest ih =>
      obtain ⟨front, k, back, h⟩ := ih (depth + 1)
      refine ⟨(depth, .subproof id) :: (premises.map fun p => (depth + 1, p.ref)) ++ front, k,
        back ++ rest.walk depth, fun M => ?_⟩
      simp only [fill, Lines.walk, h, List.append_assoc]
  | behind id premises body rest ih =>
      obtain ⟨front, k, back, h⟩ := ih depth
      refine ⟨(depth, .subproof id) :: (premises.map fun p => (depth + 1, p.ref)) ++
        body.walk (depth + 1) ++ front, k, back, fun M => ?_⟩
      simp only [fill, Lines.walk, h, List.append_assoc]

theorem exists_parts_fill (F : Frame) :
    ∃ front back, ∀ M : Lines, (F.fill M).parts = front ++ (M.parts ++ back) := by
  obtain ⟨front, k, back, h⟩ := F.exists_walk_fill 0
  refine ⟨front.map Prod.snd, back.map Prod.snd, fun M => ?_⟩
  rw [← Lines.walk_map_snd 0, h, List.map_append, List.map_append, Lines.walk_map_snd]

variable {F : Frame} {M : Lines} {r : Ref}

theorem mem_parts_fill : r ∈ (F.fill M).parts ↔ r ∈ M.parts ∨ r ∈ (F.fill .nil).parts := by
  obtain ⟨front, back, h⟩ := F.exists_parts_fill
  simp only [h, Lines.parts, List.nil_append, List.mem_append]
  exact or_left_comm

/-- If nothing occurs twice, what is in the gap is not in the frame. -/
theorem not_mem_of_nodup (h : (F.fill M).parts.Nodup) (hr : r ∈ M.parts) :
    r ∉ (F.fill .nil).parts := by
  obtain ⟨front, back, hparts⟩ := F.exists_parts_fill
  rw [hparts, List.nodup_append] at h
  obtain ⟨-, hrest, hfront⟩ := h
  obtain ⟨-, -, hback⟩ := List.nodup_append.1 hrest
  rw [hparts, Lines.parts, List.nil_append, List.mem_append]
  rintro (hr' | hr')
  · exact hfront r hr' r (List.mem_append_left _ hr) rfl
  · exact hback r hr r hr' rfl

theorem nodup_of_fill (h : (F.fill M).parts.Nodup) : M.parts.Nodup := by
  obtain ⟨front, back, hparts⟩ := F.exists_parts_fill
  rw [hparts] at h
  exact (List.nodup_append.1 (List.nodup_append.1 h).2.1).1

/-- What is added in the gap is added to the whole. -/
theorem perm_fill {N : Lines} {new : List Ref} (h : M.parts.Perm (new ++ N.parts)) :
    (F.fill M).parts.Perm (new ++ (F.fill N).parts) := by
  obtain ⟨front, back, hparts⟩ := F.exists_parts_fill
  rw [hparts, hparts]
  have hgap : (M.parts ++ back).Perm (new ++ (N.parts ++ back)) := by
    rw [← List.append_assoc]
    exact h.append_right back
  exact (hgap.append_left front).trans (List.perm_append_comm_assoc ..)

end Frame

theorem insertPremise_of_not_mem {anchor : Int} {after : Bool} {new : Premise}
    {premises : List Premise} (h : Ref.premise anchor ∉ premises.map Premise.ref) :
    insertPremise anchor after new premises = premises := by
  induction premises with
  | nil => rfl
  | cons p ps ih =>
      simp only [List.map_cons, List.mem_cons, not_or] at h
      rw [insertPremise, if_neg, ih h.2]
      intro hp
      exact h.1 (by rw [Premise.ref, hp])

namespace Lines

variable {F : Frame} {L M : Lines} {r : Ref}

/-! ## The frame of a part -/

/-- The reference is that of the first of the lines, or of a premise of it. -/
def HeadedBy : Lines → Ref → Prop
  | .nil, _ => False
  | .step id _ _, r => r = .step id
  | .subproof id premises _ _, r => r = .subproof id ∨ r ∈ premises.map Premise.ref

/-- Every part is at the head of lines in a frame. -/
theorem exists_frame (h : r ∈ L.parts) : ∃ F M, L = Frame.fill F M ∧ M.HeadedBy r := by
  induction L with
  | nil => exact absurd h (by simp [parts])
  | step id content rest ih =>
      by_cases hr : r = .step id
      · exact ⟨.gap, .step id content rest, rfl, hr⟩
      · obtain ⟨F, M, rfl, hM⟩ := ih ((List.mem_cons.1 h).resolve_left hr)
        exact ⟨.step id content F, M, rfl, hM⟩
  | subproof id premises body rest ihbody ihrest =>
      rcases mem_parts_subproof.1 h with hr | hr | hr | hr
      · exact ⟨.gap, .subproof id premises body rest, rfl, .inl hr⟩
      · exact ⟨.gap, .subproof id premises body rest, rfl, .inr hr⟩
      · obtain ⟨F, M, rfl, hM⟩ := ihbody hr
        exact ⟨.inside id premises F rest, M, rfl, hM⟩
      · obtain ⟨F, M, rfl, hM⟩ := ihrest hr
        exact ⟨.behind id premises body F, M, rfl, hM⟩

theorem exists_frame_of_subproof {id : Int} (h : .subproof id ∈ L.parts) :
    ∃ F premises body rest, L = Frame.fill F (.subproof id premises body rest) := by
  obtain ⟨F, M, rfl, hM⟩ := exists_frame h
  cases M with
  | nil => exact hM.elim
  | step i content rest => exact absurd hM (by simp [HeadedBy])
  | subproof i premises body rest =>
      obtain rfl : id = i := by simpa [HeadedBy, Premise.ref] using hM
      exact ⟨F, premises, body, rest, rfl⟩

theorem exists_frame_of_premise {id : Int} (h : .premise id ∈ L.parts) :
    ∃ F i premises body rest, L = Frame.fill F (.subproof i premises body rest) ∧
      .premise id ∈ premises.map Premise.ref := by
  obtain ⟨F, M, rfl, hM⟩ := exists_frame h
  cases M with
  | nil => exact hM.elim
  | step i content rest => exact absurd hM (by simp [HeadedBy])
  | subproof i premises body rest =>
      exact ⟨F, i, premises, body, rest, rfl, hM.resolve_left (by simp)⟩

/-- A step or subproof is the first of lines in a frame. -/
theorem exists_frame_of_line (hkind : r.followsPremises = true) (h : r ∈ L.parts) :
    ∃ F M, L = Frame.fill F M ∧ M.refs.head? = some r := by
  obtain ⟨F, M, rfl, hM⟩ := exists_frame h
  refine ⟨F, M, rfl, ?_⟩
  cases M with
  | nil => exact hM.elim
  | step i content rest => exact congrArg some (Eq.symm hM)
  | subproof i premises body rest =>
      rcases hM with rfl | hM
      · rfl
      · obtain ⟨p, -, rfl⟩ := List.mem_map.1 hM
        exact absurd hkind (by simp [Premise.ref, Ref.followsPremises])

/-! ## Edits in a frame -/

/-- An edit that is about one part: it passes over lines that are not headed by the part. -/
structure EditsAt (r : Ref) (edit : Lines → Lines) : Prop where
  nil : edit .nil = .nil
  step : ∀ id content rest, r ≠ .step id →
    edit (.step id content rest) = .step id content (edit rest)
  subproof : ∀ id premises body rest, r ≠ .subproof id → r ∉ premises.map Premise.ref →
    edit (.subproof id premises body rest) = .subproof id premises (edit body) (edit rest)

variable {edit : Lines → Lines}

theorem EditsAt.eq_self (h : EditsAt r edit) (hr : r ∉ L.parts) : edit L = L := by
  induction L with
  | nil => exact h.nil
  | step id content rest ih =>
      obtain ⟨hid, hrest⟩ := not_or.1 (mt List.mem_cons.2 hr)
      rw [h.step id content rest hid, ih hrest]
  | subproof id premises body rest ihbody ihrest =>
      simp only [mem_parts_subproof, not_or] at hr
      obtain ⟨hid, hpremises, hbody, hrest⟩ := hr
      rw [h.subproof id premises body rest hid hpremises, ihbody hbody, ihrest hrest]

/-- An edit about a part that is not in the frame takes place in the gap. -/
theorem EditsAt.fill (h : EditsAt r edit) (hF : r ∉ (F.fill .nil).parts) :
    edit (F.fill M) = F.fill (edit M) := by
  induction F with
  | gap => rfl
  | step id content rest ih =>
      obtain ⟨hid, hrest⟩ := not_or.1 (mt List.mem_cons.2 hF)
      rw [Frame.fill, h.step id content _ hid, ih hrest, Frame.fill]
  | inside id premises body rest ih =>
      simp only [Frame.fill, mem_parts_subproof, not_or] at hF
      obtain ⟨hid, hpremises, hbody, hrest⟩ := hF
      rw [Frame.fill, h.subproof id premises _ rest hid hpremises, ih hbody, h.eq_self hrest,
        Frame.fill]
  | behind id premises body rest ih =>
      simp only [Frame.fill, mem_parts_subproof, not_or] at hF
      obtain ⟨hid, hpremises, hbody, hrest⟩ := hF
      rw [Frame.fill, h.subproof id premises body _ hid hpremises, ih hrest, h.eq_self hbody,
        Frame.fill]

theorem editsAt_erase (r : Ref) : EditsAt r (erase r) where
  nil := rfl
  step _ _ _ hr := if_neg hr
  subproof _ _ _ _ hr _ := if_neg hr

theorem editsAt_modifyScope (id : Int) (change : Scope → Scope) :
    EditsAt (.subproof id) (modifyScope id change) where
  nil := rfl
  step _ _ _ _ := rfl
  subproof _ _ _ _ hr _ := if_neg fun h => hr (congrArg Ref.subproof h.symm)

theorem editsAt_insertBeside (anchor : Ref) (after : Bool) (new : Lines → Lines) :
    EditsAt anchor (insertBeside anchor after new) where
  nil := rfl
  step _ _ _ hr := if_neg hr
  subproof _ _ _ _ hr _ := if_neg hr

theorem editsAt_insertPremise (anchor : Int) (after : Bool) (new : Premise) :
    EditsAt (.premise anchor) (mapPremises (insertPremise anchor after new)) where
  nil := rfl
  step _ _ _ _ := rfl
  subproof _ _ _ _ _ hpremises := by rw [mapPremises, insertPremise_of_not_mem hpremises]

end Lines

end Deduction
