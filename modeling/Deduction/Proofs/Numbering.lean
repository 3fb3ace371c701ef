import Deduction.Proofs.Nesting

set_option autoImplicit false

/-! # Depths, line numbers and spans

Three things are said about the place of a part, each computed in its own way: its depth, from the
subproofs around it; its line number, from the walk through the derivation; and, of a subproof, the
least and the greatest number of a line inside it. They agree: the walk passes each part once, at its
depth, and since all that is nested in a subproof stands together in the walk, the numbers of the
lines inside it are all numbers between the two. -/

namespace Deduction

/-! ## Depths -/

/-- Lines are walked through at the depth that the path to them says. -/
theorem Lines.mem_walk_of_pathTo? {L : Lines} {r : Ref} {path : List Ref}
    (h : L.pathTo? r = some path) (depth : Nat) : (depth + path.length, r) ∈ L.walk depth := by
  induction L generalizing path depth with
  | nil => exact absurd h (by simp [pathTo?])
  | step id content rest ih =>
      rw [pathTo?] at h
      split at h
      · next hr =>
          obtain rfl := Option.some.inj h
          exact List.mem_cons.2 (.inl (by rw [hr]; rfl))
      · exact List.mem_cons_of_mem _ (ih h depth)
  | subproof id premises body rest ihbody ihrest =>
      rw [pathTo?] at h
      simp only [walk, List.cons_append, List.mem_cons, List.mem_append]
      split at h
      · next hr =>
          obtain rfl := Option.some.inj h
          exact .inl (by rw [hr]; rfl)
      · split at h
        · next hr =>
            obtain rfl := Option.some.inj h
            obtain ⟨p, hp, rfl⟩ := List.mem_map.1 hr
            exact .inr (.inl (.inl (List.mem_map_of_mem hp)))
        · split at h
          · next path' hpath' =>
              obtain rfl := Option.some.inj h
              have hmem := ihbody hpath' (depth + 1)
              rw [show depth + 1 + path'.length = depth + (path'.length + 1) by omega] at hmem
              exact .inr (.inl (.inr hmem))
          · exact .inr (.inr (ihrest h depth))

namespace Derivation

variable {d : Derivation} {r s : Ref} {scope : Scope}

/-- Walking through a derivation passes each part at its depth. -/
theorem mem_walk_iff (hd : d.WellFormed) {depth : Nat} :
    (depth, r) ∈ d.walk ↔ d.depthOf r = some depth := by
  have hwalk : ∀ path, d.pathTo? r = some path → (path.length, r) ∈ d.walk := by
    intro path hpath
    rw [pathTo?] at hpath
    split at hpath
    · next hr =>
        obtain rfl := Option.some.inj hpath
        obtain ⟨p, hp, rfl⟩ := List.mem_map.1 hr
        exact List.mem_append_left _ (List.mem_map_of_mem hp)
    · have hmem := Lines.mem_walk_of_pathTo? hpath 0
      rw [Nat.zero_add] at hmem
      exact List.mem_append_right _ hmem
  constructor
  · intro hmem
    have hr : r ∈ d.refs := List.mem_map_of_mem hmem
    obtain ⟨path, hpath⟩ := Option.isSome_iff_exists.1 (pathTo?_isSome.2 hr)
    -- the part is passed only once, so the two depths are the same
    have hentry := List.inj_on_of_nodup_map (show (d.walk.map Prod.snd).Nodup from hd.nodup) hmem
      (hwalk path hpath) rfl
    rw [depthOf, hpath, (Prod.mk.inj hentry).1]
    rfl
  · intro hdepth
    obtain ⟨path, hpath, rfl⟩ := Option.map_eq_some_iff.1 hdepth
    exact hwalk path hpath

/-- Walking through a derivation passes all that can be looked up, and passes it once. -/
theorem count_walk (hd : d.WellFormed) (r : Ref) :
    (d.walk.map Prod.snd).count r
      = if (d.premise? r).isSome || (d.step? r).isSome || (d.scope? r).isSome then 1 else 0 := by
  have hlookup : d.contains r
      = ((d.premise? r).isSome || (d.step? r).isSome || (d.scope? r).isSome) := by
    have hpos := List.count_pos_iff
      (l := [(d.premise? r).isSome, (d.step? r).isSome, (d.scope? r).isSome]) (a := true)
    rw [count_kinds] at hpos
    rw [Bool.eq_iff_iff]
    by_cases hr : d.contains r = true
    · simpa [hr, or_assoc] using hpos
    · simpa [hr, or_assoc] using hpos
  rw [← hlookup]
  simp only [contains_iff]
  exact (show (d.walk.map Prod.snd).Nodup from hd.nodup).count

/-! ## Line numbers -/

/-- The entries of a walk with the numbers from `start` on. -/
def numbered (start : Nat) (entries : List (Nat × Ref)) : List NumberedLine :=
  (entries.zipIdx start).map fun entry => ⟨entry.2, entry.1.1, entry.1.2⟩

theorem numbered_append (start : Nat) (front back : List (Nat × Ref)) :
    numbered start (front ++ back)
      = numbered start front ++ numbered (start + front.length) back := by
  rw [numbered, List.zipIdx_append, List.map_append]
  rfl

theorem map_number_numbered (start : Nat) (entries : List (Nat × Ref)) :
    (numbered start entries).map NumberedLine.number = List.range' start entries.length := by
  rw [← List.zipIdx_map_snd, numbered, List.map_map]
  rfl

theorem map_ref_numbered (start : Nat) (entries : List (Nat × Ref)) :
    (numbered start entries).map NumberedLine.ref = entries.map Prod.snd := by
  nth_rewrite 2 [← List.zipIdx_map_fst start entries]
  rw [numbered, List.map_map, List.map_map]
  rfl

theorem number_of_mem_numbered {start : Nat} {entries : List (Nat × Ref)} {line : NumberedLine}
    (h : line ∈ numbered start entries) :
    start ≤ line.number ∧ line.number < start + entries.length := by
  rw [← List.mem_range'_1, ← map_number_numbered]
  exact List.mem_map_of_mem h

theorem map_ref_numberedLines (d : Derivation) :
    d.numberedLines.map NumberedLine.ref = d.refs.filter Ref.isLine := by
  rw [← lines_map_snd]
  exact map_ref_numbered 1 d.lines

theorem nodup_numberedLines (hd : d.WellFormed) :
    (d.numberedLines.map NumberedLine.ref).Nodup := by
  rw [map_ref_numberedLines]
  exact hd.nodup.filter _

theorem exists_numberedLine_iff :
    (∃ line ∈ d.numberedLines, line.ref = r) ↔ d.contains r = true ∧ r.isLine = true := by
  rw [← List.mem_map, map_ref_numberedLines, List.mem_filter, contains_iff]

theorem exists_numberedLine_of_number {k : Nat} (hpos : 1 ≤ k) (hle : k ≤ d.length) :
    ∃ line ∈ d.numberedLines, line.number = k := by
  rw [← List.mem_map]
  change k ∈ (numbered 1 d.lines).map NumberedLine.number
  rw [map_number_numbered, List.mem_range'_1]
  exact ⟨hpos, by rw [length] at hle; omega⟩

theorem lineNumber?_of_mem (hd : d.WellFormed) {line : NumberedLine} (h : line ∈ d.numberedLines) :
    d.lineNumber? line.ref = some line.number := by
  have hfound : (d.numberedLines.find? fun other => other.ref = line.ref).isSome = true :=
    List.find?_isSome.2 ⟨line, h, by simp⟩
  obtain ⟨other, hother⟩ := Option.isSome_iff_exists.1 hfound
  have href : other.ref = line.ref := by simpa using List.find?_some hother
  obtain rfl := List.inj_on_of_nodup_map (nodup_numberedLines hd) (List.mem_of_find?_eq_some hother)
    h href
  rw [lineNumber?, hother]
  rfl

section

variable (hd : d.WellFormed) {refs : List Ref} {lines : List NumberedLine}
  (hlines : ∀ line ∈ lines, line ∈ d.numberedLines)
  (hrefs : lines.map NumberedLine.ref = refs.filter Ref.isLine)

include hd hlines hrefs

/-- The numbers of references are those of the lines among them. -/
theorem filterMap_lineNumber?_eq : refs.filterMap d.lineNumber? = lines.map NumberedLine.number := by
  calc refs.filterMap d.lineNumber?
      = (refs.filter Ref.isLine).filterMap d.lineNumber? := by
        rw [List.filterMap_filter]
        refine List.filterMap_congr fun r _ => ?_
        split
        · rfl
        · next hline =>
            exact Option.eq_none_iff_forall_ne_some.2 fun k h =>
              hline (mem_refs_of_lineNumber? h).2
    _ = lines.filterMap (some ∘ NumberedLine.number) := by
        rw [← hrefs, List.filterMap_map]
        exact List.filterMap_congr fun line hline => lineNumber?_of_mem hd (hlines line hline)
    _ = lines.map NumberedLine.number := by rw [List.filterMap_eq_map]

theorem ref_mem_iff_mem {line : NumberedLine} (hline : line ∈ d.numberedLines) :
    line.ref ∈ refs ↔ line ∈ lines := by
  have hkind : line.ref ∈ d.refs.filter Ref.isLine := by
    rw [← map_ref_numberedLines]
    exact List.mem_map_of_mem hline
  constructor
  · intro hr
    have hr' : line.ref ∈ refs.filter Ref.isLine :=
      List.mem_filter.2 ⟨hr, (List.mem_filter.1 hkind).2⟩
    rw [← hrefs] at hr'
    obtain ⟨other, hother, href⟩ := List.mem_map.1 hr'
    obtain rfl := List.inj_on_of_nodup_map (nodup_numberedLines hd) (hlines other hother) hline href
    exact hother
  · intro hmem
    have hr : line.ref ∈ refs.filter Ref.isLine := by
      rw [← hrefs]
      exact List.mem_map_of_mem hmem
    exact List.mem_of_mem_filter hr

end

/-! ## Spans -/

theorem min?_range'_succ (start count : Nat) : (List.range' start (count + 1)).min? = some start := by
  rw [List.min?_eq_some_iff]
  simp only [List.mem_range'_1]
  exact ⟨by omega, fun b hb => hb.1⟩

theorem max?_range'_succ (start count : Nat) :
    (List.range' start (count + 1)).max? = some (start + count) := by
  rw [List.max?_eq_some_iff]
  simp only [List.mem_range'_1]
  exact ⟨by omega, fun b hb => by omega⟩

section

variable (hs : d.scope? s = some scope)

include hs

theorem span?_of_scope? {lo count : Nat}
    (h : scope.refs.filterMap d.lineNumber? = List.range' lo count) :
    d.span? s = if count = 0 then none else some (lo, lo + count - 1) := by
  simp only [span?, hs, Option.bind_eq_bind, Option.bind_some, h]
  cases count with
  | zero => rfl
  | succ count =>
      rw [min?_range'_succ, max?_range'_succ, if_neg (by omega)]
      rfl

variable (hd : d.WellFormed)

include hd

/-- The lines inside a subproof stand together among the lines. -/
theorem exists_lines_of_scope? :
    ∃ front inside back : List (Nat × Ref),
      d.lines = front ++ (inside ++ back) ∧ inside.map Prod.snd = scope.refs.filter Ref.isLine := by
  obtain ⟨front, depth, back, hwalk, -, -⟩ := exists_walk_of_scope? hd hs
  obtain ⟨id, -, -, rfl, -, -⟩ := exists_frame_of_scope? hd hs
  refine ⟨front.filter (·.2.isLine), (scope.walk (depth + 1)).filter (·.2.isLine),
    back.filter (·.2.isLine), ?_, ?_⟩
  · simp [lines, hwalk, Ref.isLine]
  · rw [← Scope.walk_map_snd scope (depth + 1), List.filter_map]
    rfl

/-- The numbers of the lines inside a subproof come one after the other, and no other line has one of
    them. -/
theorem exists_numbers_of_scope? :
    ∃ lo count, scope.refs.filterMap d.lineNumber? = List.range' lo count ∧ 1 ≤ lo ∧
      lo + count ≤ d.length + 1 ∧ ∀ line ∈ d.numberedLines,
        line.ref ∈ scope.refs ↔ lo ≤ line.number ∧ line.number < lo + count := by
  obtain ⟨front, inside, back, hlines, hinside⟩ := exists_lines_of_scope? hs hd
  have hlength : d.length = front.length + (inside.length + back.length) := by
    rw [length, hlines, List.length_append, List.length_append]
  have hnumbered : d.numberedLines = numbered 1 front ++ (numbered (1 + front.length) inside ++
      numbered (1 + front.length + inside.length) back) := by
    rw [← numbered_append, ← numbered_append, ← hlines]
    rfl
  have hmem : ∀ line ∈ numbered (1 + front.length) inside, line ∈ d.numberedLines := by
    intro line hline
    rw [hnumbered]
    exact List.mem_append_right _ (List.mem_append_left _ hline)
  have hrefs := (map_ref_numbered (1 + front.length) inside).trans hinside
  refine ⟨1 + front.length, inside.length, ?_, by omega, by omega, fun line hline => ?_⟩
  · rw [filterMap_lineNumber?_eq hd hmem hrefs, map_number_numbered]
  · rw [ref_mem_iff_mem hd hmem hrefs hline]
    refine ⟨number_of_mem_numbered, fun hnumber => ?_⟩
    rw [hnumbered, List.mem_append, List.mem_append] at hline
    rcases hline with hline | hline | hline
    · have hbounds := number_of_mem_numbered hline
      omega
    · exact hline
    · have hbounds := number_of_mem_numbered hline
      omega

end

/-- Whatever operations led to a derivation: The walk through it passes all that is there exactly
    once, at its depth. The lines are numbered from one to their number, each once. The span of a
    subproof is missing if there is no line inside it, and otherwise it has a least and a greatest
    number, and the lines with numbers from the one to the other are exactly those inside the
    subproof. -/
theorem numbering_describes_tree (hd : Reachable d) :
    ((∀ r, (d.walk.map Prod.snd).count r
        = if (d.premise? r).isSome || (d.step? r).isSome || (d.scope? r).isSome then 1 else 0) ∧
      ∀ depth r, (depth, r) ∈ d.walk ↔ d.depthOf r = some depth) ∧
    (d.numberedLines.map NumberedLine.number = List.range' 1 d.length ∧
      ∀ r, (d.numberedLines.map NumberedLine.ref).count r
        = if d.contains r && r.isLine then 1 else 0) ∧
    ∀ s, (d.scope? s).isSome = true →
      ((∀ r, d.contains r = true → r.isLine = true → ¬ d.Encloses s r) → d.span? s = none) ∧
      ((∃ r, d.contains r = true ∧ r.isLine = true ∧ d.Encloses s r) → ∃ lo hi,
        d.span? s = some (lo, hi) ∧ 1 ≤ lo ∧ lo ≤ hi ∧ hi ≤ d.length ∧
        ∀ line ∈ d.numberedLines,
          lo ≤ line.number ∧ line.number ≤ hi ↔ d.Encloses s line.ref) := by
  have hwell := hd.wellFormed
  refine ⟨⟨count_walk hwell, fun depth r => mem_walk_iff hwell⟩,
    ⟨map_number_numbered 1 d.lines, fun r => ?_⟩, fun s hs => ?_⟩
  · rw [(nodup_numberedLines hwell).count, map_ref_numberedLines]
    simp [List.mem_filter, contains_iff]
  · obtain ⟨scope, hscope⟩ := Option.isSome_iff_exists.1 hs
    obtain ⟨lo, count, hnumbers, hlo, hhi, hlines⟩ := exists_numbers_of_scope? hscope hwell
    rw [span?_of_scope? hscope hnumbers]
    simp only [encloses_iff_mem_refs hwell hscope]
    constructor
    · intro hnone
      -- the line with the first of the numbers would be inside
      by_contra hcount
      have hcount : 0 < count := by
        by_contra hzero
        exact hcount (if_pos (by omega))
      obtain ⟨line, hline, hnumber⟩ := exists_numberedLine_of_number hlo (by omega : lo ≤ d.length)
      obtain ⟨hmem, hkind⟩ := exists_numberedLine_iff.1 ⟨line, hline, rfl⟩
      exact hnone line.ref hmem hkind ((hlines line hline).2 (by omega))
    · rintro ⟨r, hmem, hkind, hinside⟩
      obtain ⟨line, hline, rfl⟩ := exists_numberedLine_iff.2 ⟨hmem, hkind⟩
      have hbounds := (hlines line hline).1 hinside
      refine ⟨lo, lo + count - 1, if_neg (by omega), hlo, by omega, by omega, ?_⟩
      intro line hline
      rw [hlines line hline]
      omega

/-- The third and the fourth of five lines are inside a subproof. Behind them two more subproofs are
    nested in it, one in the other, and there is no line in these. -/
theorem numbering_describes_tree_nested :
    let d := Derivation.blank.performAll [
      .addSubproof none false,
      .addSubproof (some (.subproof 3)) true,
      .addSubproof (some (.subproof 6)) true,
      .addStep .blank none]
    d.length = 5 ∧ d.numberedLines.map NumberedLine.number = [1, 2, 3, 4, 5] ∧
      (3, .subproof 7) ∉ d.walk ∧ (2, .subproof 7) ∈ d.walk ∧
      d.span? (.subproof 6) = none ∧ ∃ lo hi, d.span? (.subproof 3) = some (lo, hi) ∧
        ∀ line ∈ d.numberedLines,
          lo ≤ line.number ∧ line.number ≤ hi ↔ d.Encloses (.subproof 3) line.ref := by
  intro d
  have hreach : Reachable d := Reachable.blank.performAll _
  have hempty : d.scope? (.subproof 6) = some ⟨[], .subproof 7 [] .nil .nil⟩ := by decide
  obtain ⟨⟨-, hdepth⟩, ⟨hnumbers, -⟩, hspan⟩ := numbering_describes_tree hreach
  have hlength : d.length = 5 := by decide
  refine ⟨hlength, ?_, ?_, ?_, ?_, ?_⟩
  · rw [hnumbers, hlength]
    rfl
  · rw [hdepth]
    decide
  · rw [hdepth]
    decide
  · refine (hspan (.subproof 6) (by decide)).1 fun r _ hline hinside => ?_
    rw [encloses_iff_mem_refs hreach.wellFormed hempty] at hinside
    obtain rfl := List.mem_singleton.1 hinside
    exact absurd hline (by decide)
  · obtain ⟨lo, hi, hfound, -, -, -, hlines⟩ := (hspan (.subproof 3) (by decide)).2
      ⟨.step 5, by decide, by decide, .single (by decide)⟩
    exact ⟨lo, hi, hfound, hlines⟩

end Derivation

end Deduction
