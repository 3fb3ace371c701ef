import Deduction.Derivation.Visibility
import Deduction.Proofs.WellFormed

set_option autoImplicit false

/-! # Visible parts come before

What is visible from a part stands before it in the document, and what is visible from there is
visible from the part as well. So citations cannot go round in a circle, and whatever the lines behind
a step rely on, the step may rely on too. -/

namespace Deduction

/-- `visible` is what is visible from `r`, which is one of the parts: what is seen in front of them,
    and some of the parts before `r`. -/
def Sees (parts seen : List Ref) (r : Ref) (visible : List Ref) : Prop :=
  ∃ before own after, parts = before ++ r :: after ∧ visible = seen ++ own ∧ own.Sublist before

namespace Sees

variable {parts seen visible : List Ref} {r : Ref}

theorem here (after seen : List Ref) (r : Ref) : Sees (r :: after) seen r seen :=
  ⟨[], [], after, rfl, (List.append_nil seen).symm, List.Sublist.refl []⟩

/-- More parts behind. -/
theorem extend (h : Sees parts seen r visible) (more : List Ref) :
    Sees (parts ++ more) seen r visible := by
  obtain ⟨before, own, after, rfl, hvisible, hsub⟩ := h
  exact ⟨before, own, after ++ more, by simp, hvisible, hsub⟩

/-- More parts in front, of which some are seen. -/
theorem shift {front shown : List Ref} (h : Sees parts (seen ++ shown) r visible)
    (hshown : shown.Sublist front) : Sees (front ++ parts) seen r visible := by
  obtain ⟨before, own, after, rfl, rfl, hsub⟩ := h
  exact ⟨front ++ before, shown ++ own, after, by simp, by simp, hshown.append hsub⟩

theorem mem (h : Sees parts seen r visible) : r ∈ parts := by
  obtain ⟨before, own, after, rfl, -, -⟩ := h
  simp

theorem subset (h : Sees parts seen r visible) : seen ⊆ visible := by
  obtain ⟨before, own, after, -, rfl, -⟩ := h
  exact List.subset_append_left _ _

/-- What was not seen in front of the parts is one of them. -/
theorem mem_of_not_mem (h : Sees parts seen r visible) {k : Ref} (hk : k ∈ visible)
    (hseen : k ∉ seen) : k ∈ parts := by
  obtain ⟨before, own, after, rfl, rfl, hsub⟩ := h
  have hown := (List.mem_append.1 hk).resolve_left hseen
  exact List.mem_append.2 (Or.inl (hsub.subset hown))

end Sees

/-! ## What the premises and the lines see -/

theorem premisesVisibleFrom?_sees {premises : List Premise} {seen visible : List Ref} {r : Ref}
    (h : premisesVisibleFrom? r seen premises = some visible) :
    Sees (premises.map Premise.ref) seen r visible := by
  induction premises generalizing seen with
  | nil => exact absurd h (by simp [premisesVisibleFrom?])
  | cons p ps ih =>
      rw [premisesVisibleFrom?] at h
      split at h
      · next hr =>
          obtain rfl := Option.some.inj h
          rw [List.map_cons, ← hr]
          exact .here _ seen r
      · exact (ih h).shift (List.Sublist.refl [p.ref])

theorem premisesVisibleFrom?_eq_none {premises : List Premise} {seen : List Ref} {r : Ref}
    (hr : r ∉ premises.map Premise.ref) : premisesVisibleFrom? r seen premises = none := by
  cases h : premisesVisibleFrom? r seen premises with
  | none => rfl
  | some visible => exact absurd (premisesVisibleFrom?_sees h).mem hr

/-- Every premise sees something. -/
theorem premisesVisibleFrom?_of_mem {premises : List Premise} {k : Ref} (seen : List Ref)
    (hk : k ∈ premises.map Premise.ref) :
    ∃ visible, premisesVisibleFrom? k seen premises = some visible ∧
      visible ⊆ seen ++ premises.map Premise.ref := by
  induction premises generalizing seen with
  | nil => exact absurd hk (by simp)
  | cons p ps ih =>
      by_cases hkp : k = p.ref
      · exact ⟨seen, by rw [premisesVisibleFrom?, if_pos hkp], List.subset_append_left _ _⟩
      · obtain ⟨visible, hvisible, hsub⟩ :=
          ih (seen ++ [p.ref]) ((List.mem_cons.1 hk).resolve_left hkp)
        refine ⟨visible, by rw [premisesVisibleFrom?, if_neg hkp, hvisible], ?_⟩
        simpa using hsub

/-- A premise that is visible from another one sees no more than that one. -/
theorem premisesVisibleFrom?_trans {premises : List Premise} {seen visible : List Ref} {r k : Ref}
    (h : premisesVisibleFrom? r seen premises = some visible) (hk : k ∈ visible) (hseen : k ∉ seen) :
    ∃ visible', premisesVisibleFrom? k seen premises = some visible' ∧ visible' ⊆ visible := by
  have hsees := premisesVisibleFrom?_sees h
  induction premises generalizing seen with
  | nil => exact absurd h (by simp [premisesVisibleFrom?])
  | cons p ps ih =>
      rw [premisesVisibleFrom?] at h
      split at h
      · exact absurd (Option.some.inj h ▸ hk) hseen
      · by_cases hkp : k = p.ref
        · exact ⟨seen, by rw [premisesVisibleFrom?, if_pos hkp], hsees.subset⟩
        · have hseen' : k ∉ seen ++ [p.ref] := by simp [hseen, hkp]
          obtain ⟨visible', hvisible', hsub⟩ := ih h hseen' (premisesVisibleFrom?_sees h)
          exact ⟨visible', by rw [premisesVisibleFrom?, if_neg hkp, hvisible'], hsub⟩

namespace Lines

variable {L : Lines} {seen visible : List Ref} {r k : Ref}

theorem visibleFrom?_sees (h : L.visibleFrom? r seen = some visible) :
    Sees L.parts seen r visible := by
  induction L generalizing seen with
  | nil => exact absurd h (by simp [visibleFrom?])
  | step id content rest ih =>
      rw [visibleFrom?] at h
      split at h
      · next hr =>
          obtain rfl := Option.some.inj h
          rw [parts, ← hr]
          exact .here _ seen r
      · exact (ih h).shift (List.Sublist.refl [Ref.step id])
  | subproof id premises body rest ihbody ihrest =>
      rw [visibleFrom?] at h
      split at h
      · next hr =>
          obtain rfl := Option.some.inj h
          rw [parts, ← hr]
          exact .here _ seen r
      · split at h
        · next hpremises =>
            obtain rfl := Option.some.inj h
            have hsees := (premisesVisibleFrom?_sees hpremises).extend (body.parts ++ rest.parts)
            rw [← List.append_nil seen] at hsees
            exact hsees.shift (List.nil_sublist [Ref.subproof id])
        · split at h
          · next hbody =>
              obtain rfl := Option.some.inj h
              have hsees := ((ihbody hbody).extend rest.parts).shift
                ((List.Sublist.refl (premises.map Premise.ref)).cons (Ref.subproof id))
              simpa [parts] using hsees
          · have hsees := (ihrest h).shift
              ((List.nil_sublist (premises.map Premise.ref ++ body.parts)).cons_cons
                (Ref.subproof id))
            simpa [parts] using hsees

theorem visibleFrom?_eq_none (hr : r ∉ L.parts) : L.visibleFrom? r seen = none := by
  cases h : L.visibleFrom? r seen with
  | none => rfl
  | some visible => exact absurd (visibleFrom?_sees h).mem hr

/-- A part that is visible from another one sees no more than that one. -/
theorem visibleFrom?_trans (hL : L.parts.Nodup) (h : L.visibleFrom? r seen = some visible)
    (hk : k ∈ visible) (hseen : k ∉ seen) :
    ∃ visible', L.visibleFrom? k seen = some visible' ∧ visible' ⊆ visible := by
  have hsees := visibleFrom?_sees h
  induction L generalizing seen with
  | nil => exact absurd h (by simp [visibleFrom?])
  | step id content rest ih =>
      rw [visibleFrom?] at h
      split at h
      · exact absurd (Option.some.inj h ▸ hk) hseen
      · by_cases hkid : k = .step id
        · exact ⟨seen, by rw [visibleFrom?, if_pos hkid], hsees.subset⟩
        · have hseen' : k ∉ seen ++ [Ref.step id] := by simp [hseen, hkid]
          obtain ⟨visible', hvisible', hsub⟩ :=
            ih (nodup_parts_step hL).2 h hseen' (visibleFrom?_sees h)
          exact ⟨visible', by rw [visibleFrom?, if_neg hkid, hvisible'], hsub⟩
  | subproof id premises body rest ihbody ihrest =>
      obtain ⟨-, hpremises, hdisjoint, hbody, hrest⟩ := nodup_parts_subproof hL
      by_cases hkid : k = .subproof id
      · exact ⟨seen, by rw [visibleFrom?, if_pos hkid], hsees.subset⟩
      · rw [visibleFrom?] at h
        rw [visibleFrom?, if_neg hkid]
        split at h
        · exact absurd (Option.some.inj h ▸ hk) hseen
        · split at h
          · next hfound =>
              -- `r` is one of the premises, and so is `k`
              obtain rfl := Option.some.inj h
              obtain ⟨visible', hvisible', hsub⟩ := premisesVisibleFrom?_trans hfound hk hseen
              exact ⟨visible', by rw [hvisible'], hsub⟩
          · split at h
            · next hfound =>
                obtain rfl := Option.some.inj h
                have hinner := visibleFrom?_sees hfound
                -- `r` is inside the subproof; `k` is one of its premises or inside, too
                by_cases hkp : k ∈ premises.map Premise.ref
                · obtain ⟨visible', hvisible', hsub⟩ := premisesVisibleFrom?_of_mem seen hkp
                  exact ⟨visible', by rw [hvisible'], fun x hx => hinner.subset (hsub hx)⟩
                · have hseen' : k ∉ seen ++ premises.map Premise.ref := by simp [hseen, hkp]
                  obtain ⟨visible', hvisible', hsub⟩ := ihbody hbody hfound hseen' hinner
                  exact ⟨visible', by rw [premisesVisibleFrom?_eq_none hkp, hvisible'], hsub⟩
            · -- `r` comes behind the subproof, from where nothing inside it is visible
              have hseen' : k ∉ seen ++ [Ref.subproof id] := by simp [hseen, hkid]
              have hinner := visibleFrom?_sees h
              have hkrest := hinner.mem_of_not_mem hk hseen'
              obtain ⟨visible', hvisible', hsub⟩ := ihrest hrest h hseen' hinner
              refine ⟨visible', ?_, hsub⟩
              rw [premisesVisibleFrom?_eq_none fun hkp => (hpremises k hkp).2 hkrest,
                visibleFrom?_eq_none fun hkb => hdisjoint k hkb hkrest]
              exact hvisible'

end Lines

/-! ## Derivations -/

namespace Derivation

variable {d : Derivation} {r k : Ref}

/-- What is visible from a part stands before it in the document. -/
theorem sees_of_visible (h : k ∈ d.visibleFrom r) : Sees d.refs [] r (d.visibleFrom r) := by
  rw [refs, Scope.refs_eq]
  unfold visibleFrom at h ⊢
  split at h
  · next hfound => exact (premisesVisibleFrom?_sees hfound).extend d.root.lines.parts
  · cases hfound : d.root.lines.visibleFrom? r d.root.premiseRefs with
    | none => exact absurd h (by simp [hfound])
    | some visible =>
        have hsees : Sees d.root.lines.parts ([] ++ d.root.premiseRefs) r visible :=
          Lines.visibleFrom?_sees hfound
        exact hsees.shift (List.Sublist.refl d.root.premiseRefs)

theorem mem_refs_of_visible (h : k ∈ d.visibleFrom r) : k ∈ d.refs := by
  obtain ⟨before, own, after, hrefs, hvisible, hsub⟩ := sees_of_visible h
  rw [hvisible] at h
  rw [hrefs]
  exact List.mem_append.2 (.inl (hsub.subset h))

theorem idxOf_lt_of_visible (hd : d.WellFormed) (h : k ∈ d.visibleFrom r) :
    d.refs.idxOf k < d.refs.idxOf r := by
  obtain ⟨before, own, after, hrefs, hvisible, hsub⟩ := sees_of_visible h
  have hnodup := hd.nodup
  rw [hrefs] at hnodup ⊢
  rw [hvisible] at h
  have hbefore : k ∈ before := hsub.subset h
  have hr : r ∉ before := by
    intro hr
    exact (List.nodup_append.1 hnodup).2.2 r hr r (List.mem_cons_self ..) rfl
  rw [List.idxOf_append_of_mem hbefore, List.idxOf_append_of_notMem hr]
  have hlt := List.idxOf_lt_length_of_mem hbefore
  omega

/-- Visibility is transitive. -/
theorem visibleFrom_subset (hd : d.WellFormed) (h : k ∈ d.visibleFrom r) :
    d.visibleFrom k ⊆ d.visibleFrom r := by
  unfold visibleFrom at h
  split at h
  · next visible hfound =>
      obtain ⟨visible', hvisible', hsub⟩ := premisesVisibleFrom?_trans hfound h (by simp)
      simpa [visibleFrom, hvisible', hfound] using hsub
  · next hnone =>
      cases hfound : d.root.lines.visibleFrom? r d.root.premiseRefs with
      | none => exact absurd h (by simp [hfound])
      | some visible =>
          rw [hfound] at h
          have hr : d.visibleFrom r = visible := by simp [visibleFrom, hnone, hfound]
          have hsees := Lines.visibleFrom?_sees hfound
          rw [hr]
          by_cases hkp : k ∈ d.root.premiseRefs
          · obtain ⟨visible', hvisible', hsub⟩ := premisesVisibleFrom?_of_mem [] hkp
            have hk : d.visibleFrom k = visible' := by simp [visibleFrom, hvisible']
            rw [hk]
            exact fun x hx => hsees.subset (hsub hx)
          · obtain ⟨visible', hvisible', hsub⟩ :=
              Lines.visibleFrom?_trans hd.nodup_parts hfound h hkp
            have hk : d.visibleFrom k = visible' := by
              simp [visibleFrom, premisesVisibleFrom?_eq_none hkp, hvisible']
            rw [hk]
            exact hsub

end Derivation

end Deduction
