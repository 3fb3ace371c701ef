import Deduction.Proofs.Coherence
import Deduction.Proofs.Visibility
import Mathlib.Logic.Relation

set_option autoImplicit false

/-! # Visibility is scoping

What is visible from a part is said by three things: the order of the document, the scope that a part
stands in, and the subproofs that are around a part. A part sees what comes before it in its own scope
and in the scopes around it, but not the subproofs that it is in, as they have not ended.

Among lines the scope of a part is given by the path to it: it is a scope around another part, or that
part's own, if the one path is where the other begins.

Citations follow visibility, so a chain of them always goes towards the front of the document and never
leads to anything that its first line could not cite itself. -/

namespace Deduction

/-! ## One reference before another -/

/-- `k` comes before `r` in the list. -/
def Precedes (refs : List Ref) (k r : Ref) : Prop := [k, r].Sublist refs

section

variable {refs more : List Ref} {k r x : Ref}

theorem Precedes.mem (h : Precedes refs k r) : k ∈ refs ∧ r ∈ refs :=
  ⟨h.subset (by simp), h.subset (by simp)⟩

theorem precedes_cons : Precedes (x :: refs) k r ↔ (k = x ∧ r ∈ refs) ∨ Precedes refs k r := by
  unfold Precedes
  rw [List.cons_sublist_cons', List.singleton_sublist, or_comm]

theorem precedes_append : Precedes (refs ++ more) k r ↔
    Precedes refs k r ∨ (k ∈ refs ∧ r ∈ more) ∨ Precedes more k r := by
  induction refs with
  | nil => simp [Precedes]
  | cons x refs ih =>
      rw [List.cons_append, precedes_cons, precedes_cons, ih, List.mem_append, List.mem_cons]
      simp only [and_or_left, or_and_right, or_assoc, or_left_comm]

end

/-! ## Scopes of lines -/

theorem premisesVisibleFrom?_iff {premises : List Premise} {seen visible : List Ref} {r : Ref}
    (hnodup : (premises.map Premise.ref).Nodup)
    (h : premisesVisibleFrom? r seen premises = some visible) {k : Ref} :
    k ∈ visible ↔ k ∈ seen ∨ Precedes (premises.map Premise.ref) k r := by
  induction premises generalizing seen with
  | nil => exact absurd h (by simp [premisesVisibleFrom?])
  | cons p ps ih =>
      rw [List.map_cons, List.nodup_cons] at hnodup
      rw [premisesVisibleFrom?] at h
      rw [List.map_cons, precedes_cons]
      split at h
      · next hr =>
          obtain rfl := Option.some.inj h
          subst hr
          have hnot : ¬ Precedes (ps.map Premise.ref) k p.ref := fun hk => hnodup.1 hk.mem.2
          simp [hnodup.1, hnot]
      · have hmem := (premisesVisibleFrom?_sees h).mem
        rw [ih hnodup.2 h, List.mem_append, List.mem_singleton, or_assoc]
        simp only [hmem, and_true]

namespace Lines

variable {L : Lines} {k r : Ref}

/-- The path to a part consists of subproofs among the lines. -/
theorem mem_parts_of_mem_path {path : List Ref} (h : L.pathTo? r = some path) {s : Ref}
    (hs : s ∈ path) : s.isSubproof = true ∧ s ∈ L.parts := by
  induction L generalizing path with
  | nil => exact absurd h (by simp [pathTo?])
  | step i content rest ih =>
      rw [pathTo?] at h
      split at h
      · obtain rfl := Option.some.inj h
        exact absurd hs (by simp)
      · obtain ⟨hkind, hmem⟩ := ih h hs
        exact ⟨hkind, List.mem_cons_of_mem _ hmem⟩
  | subproof i premises body rest ihbody ihrest =>
      rw [mem_parts_subproof]
      rw [pathTo?] at h
      split at h
      · obtain rfl := Option.some.inj h
        exact absurd hs (by simp)
      · split at h
        · obtain rfl := Option.some.inj h
          obtain rfl := List.mem_singleton.1 hs
          exact ⟨rfl, .inl rfl⟩
        · split at h
          · next hpath =>
              obtain rfl := Option.some.inj h
              rcases List.mem_cons.1 hs with rfl | hs
              · exact ⟨rfl, .inl rfl⟩
              · obtain ⟨hkind, hmem⟩ := ihbody hpath hs
                exact ⟨hkind, .inr (.inr (.inl hmem))⟩
          · obtain ⟨hkind, hmem⟩ := ihrest h hs
            exact ⟨hkind, .inr (.inr (.inr hmem))⟩

/-- The scope of `k` is that of `r` or one around it, and `k` is not itself around `r`. -/
def Covers (L : Lines) (k r : Ref) : Prop :=
  ∃ pathK pathR, L.pathTo? k = some pathK ∧ L.pathTo? r = some pathR ∧ pathK <+: pathR ∧ k ∉ pathR

theorem covers_step_rest {id : Int} {content : Step} {rest : Lines}
    (hL : (Lines.step id content rest).parts.Nodup) (hk : k ∈ rest.parts) (hr : r ∈ rest.parts) :
    (Lines.step id content rest).Covers k r ↔ rest.Covers k r := by
  unfold Covers
  rw [pathTo?_step_of_mem hL hk, pathTo?_step_of_mem hL hr]

/-- A step is in the scope of all that comes behind it. -/
theorem covers_step_self {id : Int} {content : Step} {rest : Lines}
    (hL : (Lines.step id content rest).parts.Nodup) (hr : r ∈ rest.parts) :
    (Lines.step id content rest).Covers (.step id) r := by
  obtain ⟨path, hpath⟩ := Option.isSome_iff_exists.1 (pathTo?_isSome.2 hr)
  refine ⟨[], path, by simp [pathTo?], ?_, List.nil_prefix, fun hmem => ?_⟩
  · rw [pathTo?_step_of_mem hL hr, hpath]
  · exact absurd (mem_parts_of_mem_path hpath hmem).1 (by simp [Ref.isSubproof])

section

variable {id : Int} {premises : List Premise} {body rest : Lines}
  (hL : (Lines.subproof id premises body rest).parts.Nodup)

include hL

theorem covers_subproof_body (hk : k ∈ body.parts) (hr : r ∈ body.parts) :
    (Lines.subproof id premises body rest).Covers k r ↔ body.Covers k r := by
  have hne : k ≠ .subproof id := by
    rintro rfl
    exact (nodup_parts_subproof hL).1.1 hk
  unfold Covers
  rw [pathTo?_subproof_of_mem_body hL hk, pathTo?_subproof_of_mem_body hL hr]
  constructor
  · rintro ⟨pathK, pathR, hpathK, hpathR, hbegins, hnot⟩
    obtain ⟨pathK', hpathK', rfl⟩ := Option.map_eq_some_iff.1 hpathK
    obtain ⟨pathR', hpathR', rfl⟩ := Option.map_eq_some_iff.1 hpathR
    exact ⟨pathK', pathR', hpathK', hpathR', (List.cons_prefix_cons.1 hbegins).2,
      fun hmem => hnot (List.mem_cons_of_mem _ hmem)⟩
  · rintro ⟨pathK, pathR, hpathK, hpathR, hbegins, hnot⟩
    refine ⟨_, _, by rw [hpathK]; rfl, by rw [hpathR]; rfl,
      List.cons_prefix_cons.2 ⟨rfl, hbegins⟩, ?_⟩
    simp [hne, hnot]

theorem covers_subproof_rest (hk : k ∈ rest.parts) (hr : r ∈ rest.parts) :
    (Lines.subproof id premises body rest).Covers k r ↔ rest.Covers k r := by
  unfold Covers
  rw [pathTo?_subproof_of_mem_rest hL hk, pathTo?_subproof_of_mem_rest hL hr]

/-- The subproof is around nothing that comes behind it. -/
theorem subproof_not_mem_path {path : List Ref} (h : rest.pathTo? r = some path) :
    .subproof id ∉ path :=
  fun hmem => (nodup_parts_subproof hL).1.2 (mem_parts_of_mem_path h hmem).2

/-- A subproof is in the scope of all that comes behind it, once it has ended. -/
theorem covers_subproof_self (hr : r ∈ rest.parts) :
    (Lines.subproof id premises body rest).Covers (.subproof id) r := by
  obtain ⟨path, hpath⟩ := Option.isSome_iff_exists.1 (pathTo?_isSome.2 hr)
  refine ⟨[], path, by simp [pathTo?], ?_, List.nil_prefix, subproof_not_mem_path hL hpath⟩
  rw [pathTo?_subproof_of_mem_rest hL hr, hpath]

/-- The path to what is in a subproof begins with the subproof. -/
theorem exists_path_inside (hr : r ∈ premises.map Premise.ref ∨ r ∈ body.parts) :
    ∃ path, (Lines.subproof id premises body rest).pathTo? r = some (.subproof id :: path) := by
  rcases hr with hr | hr
  · exact ⟨[], pathTo?_subproof_of_mem_premises hr⟩
  · obtain ⟨path, hpath⟩ := Option.isSome_iff_exists.1 (pathTo?_isSome.2 hr)
    refine ⟨path, ?_⟩
    rw [pathTo?_subproof_of_mem_body hL hr, hpath]
    rfl

theorem not_covers_subproof_inside (hr : r ∈ premises.map Premise.ref ∨ r ∈ body.parts) :
    ¬ (Lines.subproof id premises body rest).Covers (.subproof id) r := by
  rintro ⟨pathK, pathR, -, hpathR, -, hnot⟩
  obtain ⟨path, hpath⟩ := exists_path_inside hL hr
  rw [hpathR] at hpath
  obtain rfl := Option.some.inj hpath
  exact hnot (List.mem_cons_self ..)

/-- Nothing in a subproof is in the scope of what comes behind it. -/
theorem not_covers_subproof_behind (hk : k ∈ premises.map Premise.ref ∨ k ∈ body.parts)
    (hr : r ∈ rest.parts) : ¬ (Lines.subproof id premises body rest).Covers k r := by
  rintro ⟨pathK, pathR, hpathK, hpathR, hbegins, -⟩
  obtain ⟨path, hpath⟩ := exists_path_inside hL hk
  rw [hpathK] at hpath
  obtain rfl := Option.some.inj hpath
  rw [pathTo?_subproof_of_mem_rest hL hr] at hpathR
  exact subproof_not_mem_path hL hpathR (hbegins.subset (List.mem_cons_self ..))

/-- The premises of a subproof are in the scope of all that is in it. -/
theorem covers_subproof_premise (hk : k ∈ premises.map Premise.ref)
    (hr : r ∈ premises.map Premise.ref ∨ r ∈ body.parts) :
    (Lines.subproof id premises body rest).Covers k r := by
  obtain ⟨path, hpath⟩ := exists_path_inside hL hr
  refine ⟨_, _, pathTo?_subproof_of_mem_premises hk, hpath,
    List.cons_prefix_cons.2 ⟨rfl, List.nil_prefix⟩, fun hmem => ?_⟩
  obtain ⟨p, -, rfl⟩ := List.mem_map.1 hk
  exact absurd (mem_parts_of_mem_path hpath hmem).1 (by simp [Premise.ref, Ref.isSubproof])

end

/-! ## Visibility among lines -/

theorem exists_visibleFrom?_of_mem (hr : r ∈ L.parts) (seen : List Ref) :
    ∃ visible, L.visibleFrom? r seen = some visible := by
  induction L generalizing seen with
  | nil => exact absurd hr (by simp [parts])
  | step id content rest ih =>
      rw [visibleFrom?]
      by_cases hid : r = .step id
      · exact ⟨seen, if_pos hid⟩
      · rw [if_neg hid]
        exact ih ((List.mem_cons.1 hr).resolve_left hid) _
  | subproof id premises body rest ihbody ihrest =>
      rw [visibleFrom?]
      by_cases hid : r = .subproof id
      · exact ⟨seen, if_pos hid⟩
      · rw [if_neg hid]
        rcases (mem_parts_subproof.1 hr).resolve_left hid with hr | hr | hr
        · obtain ⟨visible, hvisible, -⟩ := premisesVisibleFrom?_of_mem seen hr
          exact ⟨visible, by rw [hvisible]⟩
        · obtain ⟨visible, hvisible⟩ := ihbody hr (seen ++ premises.map Premise.ref)
          cases premisesVisibleFrom? r seen premises with
          | some visible' => exact ⟨visible', rfl⟩
          | none => exact ⟨visible, by rw [hvisible]⟩
        · obtain ⟨visible, hvisible⟩ := ihrest hr (seen ++ [.subproof id])
          cases premisesVisibleFrom? r seen premises with
          | some visible' => exact ⟨visible', rfl⟩
          | none =>
              cases body.visibleFrom? r (seen ++ premises.map Premise.ref) with
              | some visible' => exact ⟨visible', rfl⟩
              | none => exact ⟨visible, hvisible⟩

/-- `k` comes before `r` and is in its scope. -/
def InScope (L : Lines) (k r : Ref) : Prop := Precedes L.parts k r ∧ L.Covers k r

theorem inScope_step {id : Int} {content : Step} {rest : Lines}
    (hL : (Lines.step id content rest).parts.Nodup) :
    (Lines.step id content rest).InScope k r ↔
      (k = .step id ∧ r ∈ rest.parts) ∨ rest.InScope k r := by
  unfold InScope
  rw [parts, precedes_cons]
  constructor
  · rintro ⟨hself | hbefore, hcovers⟩
    · exact .inl hself
    · obtain ⟨hk, hr⟩ := hbefore.mem
      exact .inr ⟨hbefore, (covers_step_rest hL hk hr).1 hcovers⟩
  · rintro (⟨rfl, hr⟩ | ⟨hbefore, hcovers⟩)
    · exact ⟨.inl ⟨rfl, hr⟩, covers_step_self hL hr⟩
    · obtain ⟨hk, hr⟩ := hbefore.mem
      exact ⟨.inr hbefore, (covers_step_rest hL hk hr).2 hcovers⟩

theorem inScope_subproof {id : Int} {premises : List Premise} {body rest : Lines}
    (hL : (Lines.subproof id premises body rest).parts.Nodup) :
    (Lines.subproof id premises body rest).InScope k r ↔
      (k = .subproof id ∧ r ∈ rest.parts) ∨ Precedes (premises.map Premise.ref) k r ∨
        (k ∈ premises.map Premise.ref ∧ r ∈ body.parts) ∨ body.InScope k r ∨ rest.InScope k r := by
  unfold InScope
  simp only [parts, precedes_cons, precedes_append, List.mem_append]
  constructor
  · rintro ⟨⟨rfl, hr | hr | hr⟩ | hbefore | ⟨hk, hr | hr⟩ | hbefore | ⟨hk, hr⟩ | hbefore, hcovers⟩
    · exact absurd hcovers (not_covers_subproof_inside hL (.inl hr))
    · exact absurd hcovers (not_covers_subproof_inside hL (.inr hr))
    · exact .inl ⟨rfl, hr⟩
    · exact .inr (.inl hbefore)
    · exact .inr (.inr (.inl ⟨hk, hr⟩))
    · exact absurd hcovers (not_covers_subproof_behind hL (.inl hk) hr)
    · obtain ⟨hk, hr⟩ := hbefore.mem
      exact .inr (.inr (.inr (.inl ⟨hbefore, (covers_subproof_body hL hk hr).1 hcovers⟩)))
    · exact absurd hcovers (not_covers_subproof_behind hL (.inr hk) hr)
    · obtain ⟨hk, hr⟩ := hbefore.mem
      exact .inr (.inr (.inr (.inr ⟨hbefore, (covers_subproof_rest hL hk hr).1 hcovers⟩)))
  · rintro (⟨rfl, hr⟩ | hbefore | ⟨hk, hr⟩ | ⟨hbefore, hcovers⟩ | ⟨hbefore, hcovers⟩)
    · exact ⟨.inl ⟨rfl, .inr (.inr hr)⟩, covers_subproof_self hL hr⟩
    · obtain ⟨hk, hr⟩ := hbefore.mem
      exact ⟨.inr (.inl hbefore), covers_subproof_premise hL hk (.inl hr)⟩
    · exact ⟨.inr (.inr (.inl ⟨hk, .inl hr⟩)), covers_subproof_premise hL hk (.inr hr)⟩
    · obtain ⟨hk, hr⟩ := hbefore.mem
      exact ⟨.inr (.inr (.inr (.inl hbefore))), (covers_subproof_body hL hk hr).2 hcovers⟩
    · obtain ⟨hk, hr⟩ := hbefore.mem
      exact ⟨.inr (.inr (.inr (.inr (.inr hbefore)))), (covers_subproof_rest hL hk hr).2 hcovers⟩

/-- What a part of the lines sees is what is seen in front of them, and what comes before it in its
    scope. -/
theorem mem_visibleFrom?_iff (hL : L.parts.Nodup) {seen visible : List Ref}
    (h : L.visibleFrom? r seen = some visible) : k ∈ visible ↔ k ∈ seen ∨ L.InScope k r := by
  have hnot (M : Lines) (hr : r ∉ M.parts) : ¬ M.InScope k r := fun hscope => hr hscope.1.mem.2
  induction L generalizing seen with
  | nil => exact absurd h (by simp [visibleFrom?])
  | step id content rest ih =>
      obtain ⟨hid, hrest⟩ := nodup_parts_step hL
      rw [visibleFrom?] at h
      rw [inScope_step hL]
      split at h
      · next hr =>
          obtain rfl := Option.some.inj h
          rw [hr] at hnot ⊢
          simp [hid, hnot rest hid]
      · have hmem := (visibleFrom?_sees h).mem
        refine (ih hrest h).trans ?_
        simp [hmem, or_assoc]
  | subproof id premises body rest ihbody ihrest =>
      obtain ⟨⟨hidBody, hidRest⟩, hpremises, hdisjoint, hbody, hrest⟩ := nodup_parts_subproof hL
      have hnotPremise : r ∉ premises.map Premise.ref → ¬ Precedes (premises.map Premise.ref) k r :=
        fun hr hbefore => hr hbefore.mem.2
      rw [visibleFrom?] at h
      rw [inScope_subproof hL]
      split at h
      · next hr =>
          have hidPremise : r ∉ premises.map Premise.ref := by simp [hr, Premise.ref]
          obtain rfl := Option.some.inj h
          rw [← hr] at hidBody hidRest
          simp [hidRest, hidBody, hnotPremise hidPremise, hnot body hidBody, hnot rest hidRest]
      · split at h
        · next hfound =>
            have hr := (premisesVisibleFrom?_sees hfound).mem
            obtain ⟨hrBody, hrRest⟩ := hpremises r hr
            have hnodup := (List.nodup_append.1 (List.nodup_cons.1 hL).2).1
            obtain rfl := Option.some.inj h
            rw [premisesVisibleFrom?_iff hnodup hfound]
            simp [hrBody, hrRest, hnot body hrBody, hnot rest hrRest]
        · split at h
          · next hfound =>
              have hr := (visibleFrom?_sees hfound).mem
              have hrRest := hdisjoint r hr
              have hrPremise : r ∉ premises.map Premise.ref := fun hr' => (hpremises r hr').1 hr
              obtain rfl := Option.some.inj h
              refine (ihbody hbody hfound).trans ?_
              simp only [List.mem_append, or_assoc, hr, hrRest, hnotPremise hrPremise,
                hnot rest hrRest, and_true, and_false, false_or, or_false]
          · have hr := (visibleFrom?_sees h).mem
            have hrBody : r ∉ body.parts := fun hr' => hdisjoint r hr' hr
            have hrPremise : r ∉ premises.map Premise.ref := fun hr' => (hpremises r hr').2 hr
            refine (ihrest hrest h).trans ?_
            simp only [List.mem_append, List.mem_singleton, or_assoc, hr, hrBody,
              hnotPremise hrPremise, hnot body hrBody, and_true, and_false, false_or]

end Lines

/-! ## Derivations -/

namespace Derivation

variable {d : Derivation} {k r : Ref}

/-- What is visible from a part comes before it, in its scope or in one around it, and is not around
    the part itself. -/
theorem mem_visibleFrom_iff_paths (hd : d.WellFormed) (hr : r ∈ d.refs) :
    k ∈ d.visibleFrom r ↔ Precedes d.refs k r ∧ ∃ pathK pathR, d.pathTo? k = some pathK ∧
      d.pathTo? r = some pathR ∧ pathK <+: pathR ∧ k ∉ pathR := by
  have hroot : ∀ x ∈ d.root.premiseRefs, d.pathTo? x = some [] := fun x hx => if_pos hx
  rw [refs, Scope.refs_eq, precedes_append]
  rcases mem_refs.1 hr with hr | hr
  · have hr' := hd.disjoint hr
    have hbehind : ¬ Precedes d.root.lines.parts k r := fun hbefore => hr' hbefore.mem.2
    obtain ⟨visible, hvisible, -⟩ := premisesVisibleFrom?_of_mem [] hr
    rw [visibleFrom, hvisible, premisesVisibleFrom?_iff hd.nodup_premiseRefs hvisible]
    simp only [hr', hbehind, and_false, or_false, List.not_mem_nil, false_or]
    constructor
    · intro hbefore
      have hk := (Precedes.mem hbefore).1
      exact ⟨hbefore, [], [], hroot k hk, hroot r hr, List.nil_prefix, by simp⟩
    · exact fun h => h.1
  · have hr' : r ∉ d.root.premiseRefs := fun hr' => hd.disjoint hr' hr
    have hfront : ¬ Precedes d.root.premiseRefs k r := fun hbefore => hr' hbefore.mem.2
    obtain ⟨visible, hvisible⟩ := Lines.exists_visibleFrom?_of_mem hr d.root.premiseRefs
    obtain ⟨pathR, hpathR⟩ := Option.isSome_iff_exists.1 (Lines.pathTo?_isSome.2 hr)
    rw [visibleFrom, premisesVisibleFrom?_eq_none hr', hvisible, Option.getD_some,
      Lines.mem_visibleFrom?_iff hd.nodup_parts hvisible, pathTo?_of_mem_parts hd hr]
    simp only [hfront, hr, and_true, false_or]
    constructor
    · rintro (hk | ⟨hbefore, pathK, pathR, hpathK, hscope⟩)
      · refine ⟨.inl hk, [], pathR, hroot k hk, hpathR, List.nil_prefix, fun hmem => ?_⟩
        obtain ⟨p, -, rfl⟩ := List.mem_map.1 hk
        have hkind := (Lines.mem_parts_of_mem_path hpathR hmem).1
        exact absurd hkind (by simp [Premise.ref, Ref.isSubproof])
      · refine ⟨.inr hbefore, pathK, pathR, ?_, hscope⟩
        rw [pathTo?_of_mem_parts hd hbefore.mem.1, hpathK]
    · rintro ⟨hk | hbefore, pathK, pathR, hpathK, hscope⟩
      · exact .inl hk
      · rw [pathTo?_of_mem_parts hd hbefore.mem.1] at hpathK
        exact .inr ⟨hbefore, pathK, pathR, hpathK, hscope⟩

/-! ## Parents -/

/-- The subproof `s` is around `r`: going from `r` to the subproof directly around it, and so on, leads
    to `s`. -/
def Encloses (d : Derivation) (s r : Ref) : Prop :=
  Relation.TransGen (fun x y => d.parentOf x = some y) r s

theorem pathTo?_of_append {front : List Ref} {s : Ref} (hd : d.WellFormed)
    (h : d.pathTo? r = some (front ++ [s])) : d.pathTo? s = some front ∧ d.parentOf r = some s := by
  rcases scope_of_pathTo? hd h with ⟨hnil, -⟩ | ⟨front', s', scope, hpath, hs, -, -⟩
  · exact absurd hnil (by simp)
  · obtain ⟨rfl, hlast⟩ := List.append_inj' hpath rfl
    obtain ⟨rfl, -⟩ := List.cons.inj hlast
    refine ⟨hs, ?_⟩
    rw [parentOf, h]
    simp

/-- The path to a part that is on the path to another one is where that begins. -/
theorem pathTo?_of_mem_path (hd : d.WellFormed) {path : List Ref} (h : d.pathTo? r = some path)
    {s : Ref} (hs : s ∈ path) :
    ∃ front back, path = front ++ s :: back ∧ d.pathTo? s = some front := by
  induction path using List.reverseRecOn generalizing r with
  | nil => exact absurd hs (by simp)
  | append_singleton front x ih =>
      obtain ⟨hx, -⟩ := pathTo?_of_append hd h
      rcases List.mem_append.1 hs with hs | hs
      · obtain ⟨front', back, rfl, hfront'⟩ := ih hx hs
        exact ⟨front', back ++ [x], by simp, hfront'⟩
      · obtain rfl := List.mem_singleton.1 hs
        exact ⟨front, [], rfl, hx⟩

/-- The subproofs around a part are those on the path to it. -/
theorem encloses_iff_mem_path (hd : d.WellFormed) {path : List Ref} (h : d.pathTo? r = some path)
    {s : Ref} : d.Encloses s r ↔ s ∈ path := by
  constructor
  · intro hs
    induction hs with
    | single hparent =>
        rw [parentOf, h] at hparent
        exact List.mem_of_getLast? hparent
    | tail _ hparent ih =>
        obtain ⟨front, back, rfl, hfront⟩ := pathTo?_of_mem_path hd h ih
        rw [parentOf, hfront] at hparent
        exact List.mem_append_left _ (List.mem_of_getLast? hparent)
  · intro hs
    induction path using List.reverseRecOn generalizing r with
    | nil => exact absurd hs (by simp)
    | append_singleton front x ih =>
        obtain ⟨hx, hparent⟩ := pathTo?_of_append hd h
        rcases List.mem_append.1 hs with hs | hs
        · exact .head hparent (ih hx hs)
        · obtain rfl := List.mem_singleton.1 hs
          exact .single hparent

/-- One path begins with another one exactly if the last subproof on that, if any, is on it. -/
theorem prefix_iff_parentOf (hd : d.WellFormed) {pathK pathR : List Ref}
    (hk : d.pathTo? k = some pathK) (hr : d.pathTo? r = some pathR) :
    pathK <+: pathR ↔ ∀ s, d.parentOf k = some s → s ∈ pathR := by
  constructor
  · intro hbegins s hs
    rw [parentOf, hk] at hs
    exact hbegins.subset (List.mem_of_getLast? hs)
  · intro h
    rcases List.eq_nil_or_concat pathK with rfl | ⟨front, s, rfl⟩
    · exact List.nil_prefix
    · rw [List.concat_eq_append] at hk ⊢
      obtain ⟨hs, hparent⟩ := pathTo?_of_append hd hk
      obtain ⟨front', back, rfl, hfront'⟩ := pathTo?_of_mem_path hd hr (h s hparent)
      obtain rfl : front' = front := Option.some.inj (hfront'.symm.trans hs)
      exact ⟨back, by simp⟩

theorem mem_visibleFrom_iff (hd : d.WellFormed) (hk : k ∈ d.refs) (hr : r ∈ d.refs) :
    k ∈ d.visibleFrom r ↔ Precedes d.refs k r ∧
      (∀ s, d.parentOf k = some s → d.Encloses s r) ∧ ¬ d.Encloses k r := by
  obtain ⟨pathK, hpathK⟩ := Option.isSome_iff_exists.1 (pathTo?_isSome.2 hk)
  obtain ⟨pathR, hpathR⟩ := Option.isSome_iff_exists.1 (pathTo?_isSome.2 hr)
  rw [mem_visibleFrom_iff_paths hd hr]
  refine and_congr_right fun _ => ?_
  simp only [encloses_iff_mem_path hd hpathR, ← prefix_iff_parentOf hd hpathK hpathR]
  constructor
  · rintro ⟨pathK', pathR', hpathK', hpathR', hscope⟩
    obtain rfl := Option.some.inj (hpathK.symm.trans hpathK')
    obtain rfl := Option.some.inj (hpathR.symm.trans hpathR')
    exact hscope
  · exact fun hscope => ⟨pathK, pathR, hpathK, hpathR, hscope⟩

/-! ## Citations -/

theorem canCite_iff_visible (hd : d.WellFormed) : d.canCite r k = true ↔ k ∈ d.visibleFrom r := by
  simp only [canCite, Bool.and_eq_true, contains_iff, bne_iff_ne, List.contains_iff_mem]
  constructor
  · exact fun h => h.2
  · intro h
    have hlt := idxOf_lt_of_visible hd h
    refine ⟨⟨mem_refs_of_visible h, ?_⟩, h⟩
    rintro rfl
    omega

theorem idxOf_lt_of_chain (hd : d.WellFormed)
    (h : Relation.TransGen (fun r k => k ∈ d.visibleFrom r) r k) :
    d.refs.idxOf k < d.refs.idxOf r := by
  induction h with
  | single hvisible => exact idxOf_lt_of_visible hd hvisible
  | tail _ hvisible ih => exact Nat.lt_trans (idxOf_lt_of_visible hd hvisible) ih

/-- Whatever operations led to a derivation: one part is visible from another, and may be cited from
    it, exactly if it comes before it in the document, its scope is that of the other part or one around
    it, and it is not a subproof around the other part. So no chain of parts that are each visible from
    the one before comes back to where it began. -/
theorem visible_iff_in_scope (hd : Reachable d) :
    (∀ r k, d.contains r = true → d.contains k = true →
      (k ∈ d.visibleFrom r ↔ Precedes (d.walk.map Prod.snd) k r ∧
        (∀ s, d.parentOf k = some s → d.Encloses s r) ∧ ¬ d.Encloses k r) ∧
      (d.canCite r k = true ↔ k ∈ d.visibleFrom r)) ∧
    ∀ r, ¬ Relation.TransGen (fun r k => k ∈ d.visibleFrom r) r r := by
  have hwell := hd.wellFormed
  constructor
  · intro r k hr hk
    exact ⟨mem_visibleFrom_iff hwell (contains_iff.1 hk) (contains_iff.1 hr),
      canCite_iff_visible hwell⟩
  · intro r hchain
    exact Nat.lt_irrefl _ (idxOf_lt_of_chain hwell hchain)

/-- A step in a subproof in a subproof sees a step of the outer one, which a step behind both does
    not. -/
theorem visible_iff_in_scope_nested :
    let d := Derivation.blank.performAll [
      .addSubproof none false,
      .addSubproof (some (.subproof 3)) true,
      .addStep .blank (some (.subproof 6)),
      .addStep .blank none]
    let refs := [Ref.premise 1, .step 2, .subproof 3, .premise 4, .step 5, .subproof 6, .step 7,
      .step 8]
    d.visibleFrom (.step 7) = [.premise 1, .step 2, .premise 4, .step 5] ∧
      (Precedes refs (.step 5) (.step 7) ∧ d.Encloses (.subproof 3) (.step 7) ∧
        ¬ d.Encloses (.step 5) (.step 7)) ∧
      d.visibleFrom (.step 8) = [.premise 1, .step 2, .subproof 3] ∧
      ¬ d.Encloses (.subproof 3) (.step 8) ∧
      ¬ Relation.TransGen (fun r k => k ∈ d.visibleFrom r) (.step 7) (.step 7) := by
  intro d refs
  obtain ⟨hvisible, hchain⟩ := visible_iff_in_scope (Reachable.blank.performAll _ : Reachable d)
  obtain ⟨hbefore, hscope, hinside⟩ :=
    (hvisible (.step 7) (.step 5) (by decide) (by decide)).1.1 (by decide)
  obtain ⟨-, -, hended⟩ :=
    (hvisible (.step 8) (.subproof 3) (by decide) (by decide)).1.1 (by decide)
  exact ⟨by decide, ⟨hbefore, hscope (.subproof 3) (by decide), hinside⟩, by decide, hended,
    hchain (.step 7)⟩

/-! ## Chains of citations -/

/-- Whatever operations led to a derivation: what is visible from a part that is visible is visible
    itself. So a chain of citations, however long, leads only to what its first line may cite. -/
theorem visible_trans (hd : Reachable d) :
    (∀ r k j, k ∈ d.visibleFrom r → j ∈ d.visibleFrom k → j ∈ d.visibleFrom r) ∧
    ∀ r j, Relation.TransGen (fun line dep => d.canCite line dep = true) r j ↔
      d.canCite r j = true := by
  have hwell := hd.wellFormed
  have htrans : ∀ r k j, k ∈ d.visibleFrom r → j ∈ d.visibleFrom k → j ∈ d.visibleFrom r :=
    fun r k j hk hj => visibleFrom_subset hwell hk hj
  refine ⟨htrans, fun r j => ⟨fun hchain => ?_, fun hcite => .single hcite⟩⟩
  simp only [canCite_iff_visible hwell] at hchain ⊢
  induction hchain with
  | single hj => exact hj
  | tail _ hj ih => exact htrans _ _ _ ih hj

/-- From a step that is two subproofs deep, over an assumption of the outer one, to a subproof that
    ended before it. -/
theorem visible_trans_nested :
    let d := Derivation.blank.performAll [
      .addSubproof none false,
      .addSubproof none false,
      .addSubproof (some (.subproof 6)) true,
      .addStep .blank (some (.subproof 9))]
    (.premise 7 ∈ d.visibleFrom (.step 10) ∧ .subproof 3 ∈ d.visibleFrom (.premise 7)) ∧
      .subproof 3 ∈ d.visibleFrom (.step 10) ∧ d.canCite (.step 10) (.subproof 3) = true ∧
      .subproof 6 ∉ d.visibleFrom (.step 10) := by
  intro d
  obtain ⟨htrans, hchain⟩ := visible_trans (Reachable.blank.performAll _ : Reachable d)
  have hassumption : .premise 7 ∈ d.visibleFrom (.step 10) := by decide
  have hended : .subproof 3 ∈ d.visibleFrom (.premise 7) := by decide
  have hfirst : d.canCite (.step 10) (.premise 7) = true := by decide
  have hsecond : d.canCite (.premise 7) (.subproof 3) = true := by decide
  have hcite := (hchain (.step 10) (.subproof 3)).1 (.tail (.single hfirst) hsecond)
  exact ⟨⟨hassumption, hended⟩, htrans _ _ _ hassumption hended, hcite, by decide⟩

end Derivation

end Deduction
