import Deduction.Proofs.ClauseCheck
import Deduction.Rule.Catalog
import Mathlib.Algebra.BigOperators.Group.List.Basic

set_option autoImplicit false

/-! # Catalogs that pass the truth-table check

Every rule of a catalog that was built with the check is sound, and the built-in catalog can be built
that way.

The check lists the names of a clause in order, by a sorting that is no definition to compute with;
`Clause.agrees` goes through the same rows with the names as they come. Sides that agree there are
equivalent, and so they pass the check. -/

namespace Deduction

/-! ## Accepted catalogs are sound -/

theorem firstMismatch?_eq_none {reports : List ClauseReport} :
    firstMismatch? reports = none ↔ ∀ report ∈ reports, report.ok = true := by
  simp [firstMismatch?, ClauseReport.ok]

/-- The rules that are required to be sound are. -/
theorem Rule.sound_of_requireSound {rules : List Rule} {maxSlots : Int}
    {reports : List ClauseReport} (h : requireSound rules maxSlots = .ok reports) {rule : Rule}
    (hrule : rule ∈ rules) : rule.Sound := by
  obtain ⟨found, hfound, h⟩ := bind_eq_ok.1 h
  have hok : ∀ report ∈ found, report.ok = true := by
    rw [← firstMismatch?_eq_none]
    split at h
    · exact absurd h (by simp)
    · next hnone => exact hnone
  obtain ⟨perRule, hperRule, hflat⟩ := bind_eq_ok.1 (mapError_eq_ok.1 hfound)
  obtain rfl := pure_eq_ok.1 hflat
  obtain ⟨ruleReports, hmem, hcheck⟩ := (mem_of_mapM_eq_ok hperRule).1 rule hrule
  intro c hc
  obtain ⟨index, hindex⟩ := List.mem_iff_getElem?.1 hc
  obtain ⟨report, hreport, hclause⟩ :=
    (mem_of_mapM_eq_ok hcheck).1 (c, index) (List.mem_zipIdx_iff_getElem?.2 hindex)
  exact Clause.sound_of_check hclause (hok report (List.mem_flatten.2 ⟨ruleReports, hmem, hreport⟩))

/-- Every rule of a catalog that was built with the truth-table check is sound. -/
theorem Catalog.sound_of_build {d : Catalog.Definition} {catalog : Catalog}
    (hcheck : d.checkTruthTables = true) (h : Catalog.build d = .ok catalog) {rule : Rule}
    (hrule : rule ∈ catalog.rules) : rule.Sound := by
  obtain ⟨rules, -, h⟩ := bind_eq_ok.1 h
  obtain ⟨_, -, h⟩ := bind_eq_ok.1 h
  rw [if_pos hcheck] at h
  obtain ⟨reports, hreports, h⟩ := bind_eq_ok.1 h
  obtain rfl := pure_eq_ok.1 h
  exact Rule.sound_of_requireSound (mapError_eq_ok.1 hreports) hrule

/-! ## Clauses that agree pass -/

theorem mem_rows {row : List Bool} {n : Nat} (h : row.length = n) : row ∈ rows n := by
  induction n generalizing row with
  | zero => simp [rows, List.length_eq_zero_iff.1 h]
  | succ n ih =>
      cases row with
      | nil => exact absurd h (by simp)
      | cons b row =>
          have hrow : row ∈ rows n := ih (by simpa using h)
          simp only [rows, List.mem_append, List.mem_map]
          cases b with
          | false => exact Or.inl ⟨row, hrow, rfl⟩
          | true => exact Or.inr ⟨row, hrow, rfl⟩

/-- The names of a clause in the order of their first uses. -/
def Clause.names (c : Clause) : List String := (c.lhs.freeNames ++ c.rhs.freeNames).eraseDups

/-- Do the sides of a clause agree on all rows, of which there are not more than usual? -/
def Clause.agrees (c : Clause) : Bool :=
  !c.lhs.hasHoles && !c.rhs.hasHoles &&
  match Rule.clauseArities c.lhs c.rhs with
  | .error _ => false
  | .ok arities =>
    let widths := arities.widths c.names
    decide (slotCount widths ≤ defaultMaxSlots) &&
      (rows (slotCount widths)).all fun row =>
        match sidesDiffer c.lhs c.rhs (layout widths row) with
        | .ok differ => !differ
        | .error _ => false

theorem slotCount_perm {widths widths' : List (String × Nat)} (h : widths.Perm widths') :
    slotCount widths = slotCount widths' := by
  induction h with
  | nil => rfl
  | cons entry _ ih => simp only [slotCount, ih]
  | swap entry entry' rest => simp only [slotCount, Nat.add_left_comm]
  | trans _ _ ih ih' => exact ih.trans ih'

/-- Sorting the names does not change the number of slots. -/
theorem slotCount_clauseNames (c : Clause) (arities : Arities) :
    slotCount (arities.widths (clauseNames c.lhs c.rhs)) = slotCount (arities.widths c.names) := by
  have hperm : (clauseNames c.lhs c.rhs).Perm c.names := List.mergeSort_perm ..
  exact slotCount_perm (hperm.map _)

/-- A clause whose sides agree passes the check. -/
theorem Clause.passes_of_agrees {c : Clause} (h : c.agrees = true) (rule : String) (index : Int) :
    ∃ report, checkClause rule index c.lhs c.rhs defaultMaxSlots = .ok report ∧
      report.ok = true := by
  unfold Clause.agrees at h
  cases harities : Rule.clauseArities c.lhs c.rhs with
  | error e => simp [harities] at h
  | ok arities =>
      simp only [harities, Bool.and_eq_true, Bool.not_eq_true', decide_eq_true_eq,
        List.all_eq_true] at h
      obtain ⟨⟨hlhs, hrhs⟩, hslots, hrows⟩ := h
      have hnames : ∀ name ∈ c.lhs.freeNames ++ c.rhs.freeNames, name ∈ c.names :=
        fun name hname => List.mem_eraseDups.2 hname
      have hsound : c.Sound := by
        refine Clause.sound_of_rows hnames harities fun row hrow => ?_
        have hagree := hrows row (mem_rows hrow)
        split at hagree
        · next differ hdiffer =>
            obtain rfl : differ = false := by simpa using hagree
            exact hdiffer
        · exact absurd hagree (by simp)
      rw [← slotCount_clauseNames] at hslots
      refine checkClause_passes.2 ⟨arities, harities, hslots, ?_, fun row hrow => ?_⟩
      · have hlimit : (defaultMaxSlots : Int) ≤ (maxRowWidth : Nat) := by decide
        omega
      · exact hsound.rows hlhs hrhs (fun name hname => mem_sortedNames.2 hname) harities hrow

theorem Clause.arities_of_agrees {c : Clause} (h : c.agrees = true) :
    ∃ arities, Rule.clauseArities c.lhs c.rhs = .ok arities := by
  obtain ⟨arities, harities, -⟩ := checkClause_passes.1 (passes_of_agrees h "" 0)
  exact ⟨arities, harities⟩

/-! ## The built-in rules -/

namespace Rule

variable {rule : Rule}

theorem validate_of_agrees (h : ∀ c ∈ rule.clauses, c.agrees = true) : rule.validate = .ok () := by
  refine forM_eq_ok.2 fun c hc => ?_
  obtain ⟨arities, harities⟩ := Clause.arities_of_agrees (h c hc)
  exact bind_eq_ok.2 ⟨arities, harities, rfl⟩

theorem check_of_agrees (h : ∀ c ∈ rule.clauses, c.agrees = true) :
    ∃ reports, rule.check defaultMaxSlots = .ok reports ∧ ∀ report ∈ reports, report.ok = true :=
  exists_mapM_eq_ok fun entry hentry =>
    Clause.passes_of_agrees (h entry.1 (List.fst_mem_of_mem_zipIdx hentry)) _ _

end Rule

theorem requireSound_of_agrees {rules : List Rule}
    (h : ∀ rule ∈ rules, ∀ c ∈ rule.clauses, c.agrees = true) :
    ∃ reports, requireSound rules defaultMaxSlots = .ok reports := by
  obtain ⟨perRule, hperRule, hok⟩ :=
    exists_mapM_eq_ok fun rule hrule => Rule.check_of_agrees (h rule hrule)
  have hnone : firstMismatch? perRule.flatten = none := by
    refine firstMismatch?_eq_none.2 fun report hreport => ?_
    obtain ⟨reports, hreports, hmem⟩ := List.mem_flatten.1 hreport
    exact hok reports hreports report hmem
  have hcheck : checkRules rules defaultMaxSlots = .ok perRule.flatten :=
    bind_eq_ok.2 ⟨perRule, hperRule, rfl⟩
  refine ⟨perRule.flatten, bind_eq_ok.2 ⟨perRule.flatten, mapError_eq_ok.2 hcheck, ?_⟩⟩
  rw [hnone]
  rfl

namespace Equivalences

theorem agrees_of_mem : ∀ rule ∈ rules, ∀ c ∈ rule.clauses, c.agrees = true := by
  decide

theorem groups_known : ∀ group ∈ groups, ∀ name ∈ group.2, rules.any (·.name == name) = true := by
  decide

end Equivalences

/-- The built-in catalog is accepted with the truth-table check. -/
theorem Catalog.build_builtin : Catalog.build { checkTruthTables := true } = .ok Catalog.builtin := by
  have hrules : Equivalences.rules.mapM (Catalog.acceptRule true) = .ok Equivalences.rules := by
    refine mapM_eq_ok_self fun rule hrule => ?_
    have hvalid := Rule.validate_of_agrees (Equivalences.agrees_of_mem rule hrule)
    exact bind_eq_ok.2 ⟨(), mapError_eq_ok.2 hvalid, rfl⟩
  have hgroups : (Equivalences.groups.forM fun group =>
      Catalog.checkGroup Equivalences.rules group.1 group.2) = .ok () := by
    refine forM_eq_ok.2 fun group hgroup => ?_
    have hmissing : group.2.filter (fun name => !Equivalences.rules.any (·.name == name)) = [] :=
      List.filter_eq_nil_iff.2 fun name hname => by
        simp [Equivalences.groups_known group hgroup name hname]
    simp [Catalog.checkGroup, hmissing]
  obtain ⟨reports, hreports⟩ := requireSound_of_agrees Equivalences.agrees_of_mem
  exact bind_eq_ok.2 ⟨_, hrules, bind_eq_ok.2 ⟨(), hgroups,
    bind_eq_ok.2 ⟨reports, mapError_eq_ok.2 hreports, rfl⟩⟩⟩

end Deduction
