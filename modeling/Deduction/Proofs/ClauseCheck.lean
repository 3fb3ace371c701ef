import Deduction.Proofs.FreeUses
import Deduction.TruthTable

set_option autoImplicit false

/-! # The truth-table check and equivalence

A clause that passes the check is an equivalence under every interpretation, and an equivalence that
can be checked at all passes. The check goes through finitely many rows, and an interpretation is
more than a row can hold; but on the numbers of arguments that a clause uses, an interpretation is a
list of tables, and these tables side by side are one of the rows. -/

namespace Deduction

/-- A clause that may be relied on: its patterns are free of quantifiers, and both sides have the same
    truth value under every interpretation. -/
structure Clause.Sound (c : Clause) : Prop where
  lhs_plain : c.lhs.hasQuantifiers = false
  rhs_plain : c.rhs.hasQuantifiers = false
  equivalent : ∀ I : Interpretation, c.lhs.truth I [] = c.rhs.truth I []

/-- Every clause of a rule may be relied on. -/
def Rule.Sound (rule : Rule) : Prop := ∀ c ∈ rule.clauses, c.Sound

/-! ## Rows -/

/-- No row passes a test exactly if all of them fail it. -/
theorem findRow_eq_none {ε : Type} {n : Nat} {test : List Bool → Except ε Bool} :
    findRow n test = .ok none ↔ ∀ row : List Bool, row.length = n → test row = .ok false := by
  induction n generalizing test with
  | zero =>
      simp only [findRow, bind_eq_ok, pure_eq_ok, List.length_eq_zero_iff, forall_eq]
      constructor
      · rintro ⟨passed, hpassed, h⟩
        cases passed with
        | false => exact hpassed
        | true => exact absurd h (by simp)
      · intro h
        exact ⟨false, h, rfl⟩
  | succ n ih =>
      simp only [findRow, bind_eq_ok]
      constructor
      · rintro ⟨found, hfound, h⟩ row hrow
        cases found with
        | some row' => exact absurd (pure_eq_ok.1 h) (by simp)
        | none =>
            obtain ⟨found', hfound', h⟩ := bind_eq_ok.1 h
            obtain rfl : found' = none := by simpa using pure_eq_ok.1 h
            cases row with
            | nil => exact absurd hrow (by simp)
            | cons b row =>
                have hlength : row.length = n := by simpa using hrow
                cases b with
                | false => exact ih.1 hfound row hlength
                | true => exact ih.1 hfound' row hlength
      · intro h
        have hfalse : findRow n (fun row => test (false :: row)) = .ok none :=
          ih.2 fun row hrow => h (false :: row) (by rw [List.length_cons, hrow])
        have htrue : findRow n (fun row => test (true :: row)) = .ok none :=
          ih.2 fun row hrow => h (true :: row) (by rw [List.length_cons, hrow])
        exact ⟨none, hfalse, bind_eq_ok.2 ⟨none, htrue, rfl⟩⟩

/-! ## Tables of functions -/

/-- The binary digits of a number, the least first. -/
def digits : Nat → Nat → List Bool
  | 0, _ => []
  | count + 1, n => decide (n % 2 = 1) :: digits count (n / 2)

theorem digits_tableIndex (values : List Bool) :
    digits values.length (tableIndex values) = values := by
  induction values with
  | nil => rfl
  | cons b values ih =>
      have hhead : decide ((b.toNat + 2 * tableIndex values) % 2 = 1) = b := by
        cases b with
        | false => simp
        | true => simp [Nat.add_mul_mod_self_left]
      have htail : (b.toNat + 2 * tableIndex values) / 2 = tableIndex values := by
        cases b with
        | false => simp
        | true => simp only [Bool.toNat_true]; omega
      simp only [List.length_cons, tableIndex, digits]
      rw [hhead, htail, ih]

/-- The table of a function of `count` arguments. -/
def tabulate (count : Nat) (g : List Bool → Bool) : List Bool :=
  (List.range (rowCount count)).map fun i => g (digits count i)

theorem length_tabulate (count : Nat) (g : List Bool → Bool) :
    (tabulate count g).length = rowCount count := by
  simp [tabulate]

theorem tabulate_tableIndex (values : List Bool) (g : List Bool → Bool) :
    (tabulate values.length g)[tableIndex values]? = some (g values) := by
  have hlt := tableIndex_lt values
  simp [tabulate, hlt, digits_tableIndex]

/-! ## Laying out tables -/

theorem length_flatMap (names : List String) (table : String → List Bool) :
    (names.flatMap table).length =
      slotCount (names.map fun name => (name, (table name).length)) := by
  induction names with
  | nil => rfl
  | cons name names ih =>
      rw [List.flatMap_cons, List.length_append, ih]
      rfl

/-- Tables side by side are laid out as they are. -/
theorem layout_flatMap (names : List String) (table : String → List Bool) :
    layout (names.map fun name => (name, (table name).length)) (names.flatMap table)
      = names.map fun name => (name, table name) := by
  induction names with
  | nil => rfl
  | cons name names ih =>
      simp only [List.map_cons, List.flatMap_cons, layout, List.take_left, List.drop_left]
      rw [ih]

/-- Every name gets a table of its width from a row that is long enough. -/
theorem get?_layout {names : List String} {name : String} (width : String → Nat) {row : List Bool}
    (h : name ∈ names) (hrow : slotCount (names.map fun n => (n, width n)) ≤ row.length) :
    ∃ table, Assoc.get? (layout (names.map fun n => (n, width n)) row) name = some table ∧
      table.length = width name := by
  induction names generalizing row with
  | nil => exact absurd h (by simp)
  | cons n names ih =>
      simp only [List.map_cons, slotCount] at hrow
      simp only [List.map_cons, layout, Assoc.get?]
      by_cases hn : n = name
      · refine ⟨row.take (width n), by rw [if_pos hn], ?_⟩
        rw [List.length_take, hn]
        rw [hn] at hrow
        omega
      · rw [if_neg hn]
        refine ih ((List.mem_cons.1 h).resolve_left fun he => hn he.symm) ?_
        rw [List.length_drop]
        omega

/-! ## Arities -/

theorem mem_sortedNames {names : List String} {name : String} :
    name ∈ sortedNames names ↔ name ∈ names := by
  simp [sortedNames]

theorem mem_clauseNames {lhs rhs : Formula} {name : String} :
    name ∈ clauseNames lhs rhs ↔ ∃ count, (name, count) ∈ Clause.freeUses ⟨lhs, rhs⟩ := by
  simp only [clauseNames, mem_sortedNames, Clause.freeUses, List.mem_append,
    Formula.mem_freeNames_iff_freeUses, exists_or]

/-- The arity that the check goes by. -/
def Arities.arity (arities : Arities) (name : String) : Nat := ((arities.get? name).getD 0).toNat

/-- The arities of a clause are those of all uses of names on both sides that are not bound. -/
theorem get?_clauseArities {c : Clause} {arities : Arities}
    (h : Rule.clauseArities c.lhs c.rhs = .ok arities) {name : String} {count : Nat}
    (hname : c.lhs.Uses name count ∨ c.rhs.Uses name count) :
    arities.get? name = some (count : Int) ∨ c.lhs.BindsUse name count ∨
      c.rhs.BindsUse name count := by
  rcases hname with hname | hname
  · exact (Formula.mem_freeUses_of_uses hname).imp
      (fun hfree => Clause.get?_of_mem_freeUses h (List.mem_append_left _ hfree)) .inl
  · exact (Formula.mem_freeUses_of_uses hname).imp
      (fun hfree => Clause.get?_of_mem_freeUses h (List.mem_append_right _ hfree)) .inr

/-- Without quantifiers they are those of all uses. -/
theorem clauseArities_spec {c : Clause} {arities : Arities} (hlhs : c.lhs.hasQuantifiers = false)
    (hrhs : c.rhs.hasQuantifiers = false) (h : Rule.clauseArities c.lhs c.rhs = .ok arities)
    {name : String} {count : Nat} (hname : c.lhs.Uses name count ∨ c.rhs.Uses name count) :
    name ∈ c.lhs.freeNames ++ c.rhs.freeNames ∧ arities.arity name = count := by
  refine ⟨List.mem_append.2 ?_, ?_⟩
  · exact hname.imp (Formula.mem_freeNames_of_uses hlhs) (Formula.mem_freeNames_of_uses hrhs)
  · rcases get?_clauseArities h hname with hget | hbinds | hbinds
    · simp [Arities.arity, hget]
    · exact absurd hbinds (Formula.not_bindsUse hlhs)
    · exact absurd hbinds (Formula.not_bindsUse hrhs)

/-! ## All rows -/

/-- The widths of the tables of the given names. -/
def Arities.widths (arities : Arities) (names : List String) : List (String × Nat) :=
  names.map fun name => (name, rowCount (arities.arity name))

/-- The environment in which each of the names has the table of what it stands for. -/
def Arities.tabulated (arities : Arities) (names : List String) (I : Interpretation) :
    Environment :=
  names.map fun name => (name, tabulate (arities.arity name) (I name))

/-- Tables say what the names stand for, at as many arguments as the names have. -/
theorem interpretation_tabulated {arities : Arities} {names : List String} {I : Interpretation}
    {name : String} {values : List Bool} (hname : name ∈ names)
    (harity : arities.arity name = values.length) :
    (arities.tabulated names I).interpretation name values = I name values := by
  have hget : (arities.tabulated names I).get? name
      = some (tabulate (arities.arity name) (I name)) :=
    Assoc.get?_map_of_mem (fun n => tabulate (arities.arity n) (I n)) hname
  simp [Environment.interpretation, hget, harity, tabulate_tableIndex]

/-- Tables of the right widths are laid out by one of the rows. -/
theorem exists_layout_eq {arities : Arities} {names : List String} {table : String → List Bool}
    (h : ∀ name ∈ names, (table name).length = rowCount (arities.arity name)) :
    ∃ row : List Bool, row.length = slotCount (arities.widths names) ∧
      layout (arities.widths names) row = names.map fun name => (name, table name) := by
  have hwidths : arities.widths names = names.map fun name => (name, (table name).length) :=
    List.map_congr_left fun name hname => by rw [h name hname]
  rw [hwidths]
  exact ⟨names.flatMap table, length_flatMap names table, layout_flatMap names table⟩

/-- The tables of an interpretation are laid out by one of the rows. -/
theorem exists_layout_eq_tabulated (arities : Arities) (names : List String) (I : Interpretation) :
    ∃ row : List Bool, row.length = slotCount (arities.widths names) ∧
      layout (arities.widths names) row = arities.tabulated names I :=
  exists_layout_eq fun name _ => length_tabulate (arities.arity name) (I name)

theorem sidesDiffer_eq_false {lhs rhs : Formula} {env : Environment} :
    sidesDiffer lhs rhs env = .ok false ↔
      ∃ b, lhs.evaluate env = .ok b ∧ rhs.evaluate env = .ok b := by
  simp only [sidesDiffer, bind_eq_ok, pure_eq_ok]
  constructor
  · rintro ⟨a, ha, b, hb, h⟩
    obtain rfl : a = b := by simpa using h
    exact ⟨a, ha, hb⟩
  · rintro ⟨b, ha, hb⟩
    exact ⟨b, ha, b, hb, by simp⟩

/-- A clause whose sides agree on every row may be relied on. The names may be laid out in any
    order. -/
theorem Clause.sound_of_rows {c : Clause} {arities : Arities} {names : List String}
    (hnames : ∀ name ∈ c.lhs.freeNames ++ c.rhs.freeNames, name ∈ names)
    (harities : Rule.clauseArities c.lhs c.rhs = .ok arities)
    (h : ∀ row : List Bool, row.length = slotCount (arities.widths names) →
      sidesDiffer c.lhs c.rhs (layout (arities.widths names) row) = .ok false) : c.Sound := by
  -- any row will do to see that both sides could be evaluated
  have hplain : c.lhs.hasQuantifiers = false ∧ c.rhs.hasQuantifiers = false := by
    obtain ⟨b, hlhs, hrhs⟩ :=
      sidesDiffer_eq_false.1 (h (List.replicate _ false) List.length_replicate)
    exact ⟨(Formula.evaluate_eq_ok [] hlhs).1, (Formula.evaluate_eq_ok [] hrhs).1⟩
  refine ⟨hplain.1, hplain.2, fun I => ?_⟩
  obtain ⟨row, hlength, hlayout⟩ := exists_layout_eq_tabulated arities names I
  have hrow := h row hlength
  rw [hlayout] at hrow
  obtain ⟨b, hlhs, hrhs⟩ := sidesDiffer_eq_false.1 hrow
  have hagree : ∀ name (values : List Bool),
      c.lhs.Uses name values.length ∨ c.rhs.Uses name values.length →
      I name values = (arities.tabulated names I).interpretation name values := by
    intro name values huses
    obtain ⟨hmem, harity⟩ := clauseArities_spec hplain.1 hplain.2 harities huses
    exact (interpretation_tabulated (hnames name hmem) harity).symm
  calc c.lhs.truth I []
      = c.lhs.truth (arities.tabulated names I).interpretation [] :=
        Formula.truth_congr_of_uses [] hplain.1 fun n vs hn => hagree n vs (Or.inl hn)
    _ = b := (Formula.evaluate_eq_ok [] hlhs).2.2
    _ = c.rhs.truth (arities.tabulated names I).interpretation [] :=
        (Formula.evaluate_eq_ok [] hrhs).2.2.symm
    _ = c.rhs.truth I [] :=
        (Formula.truth_congr_of_uses [] hplain.2 fun n vs hn => hagree n vs (Or.inr hn)).symm

/-- Every row has a table for each free use of a name, and it is as long as the use asks for. -/
theorem Clause.exists_table {c : Clause} {arities : Arities} {names : List String}
    (hnames : ∀ name ∈ c.lhs.freeNames ++ c.rhs.freeNames, name ∈ names)
    (harities : Rule.clauseArities c.lhs c.rhs = .ok arities) {row : List Bool}
    (hrow : row.length = slotCount (arities.widths names)) {name : String} {count : Nat}
    (h : (name, count) ∈ c.freeUses) :
    ∃ table, Assoc.get? (layout (arities.widths names) row) name = some table ∧
      rowCount count ≤ table.length := by
  have harity : arities.arity name = count := by
    simp [Arities.arity, Clause.get?_of_mem_freeUses harities h]
  have hname : name ∈ c.lhs.freeNames ++ c.rhs.freeNames :=
    mem_sortedNames.1 (mem_clauseNames.2 ⟨count, h⟩)
  obtain ⟨table, htable, hlength⟩ :=
    get?_layout (fun n => rowCount (arities.arity n)) (hnames name hname) (Nat.le_of_eq hrow.symm)
  exact ⟨table, htable, Nat.le_of_eq (by rw [hlength, harity])⟩

/-- Both sides of a clause without quantifiers and holes have a value on every row: their truth
    under what the tables of the row say. -/
theorem Clause.evaluate_layout {c : Clause} (hplainl : c.lhs.hasQuantifiers = false)
    (hplainr : c.rhs.hasQuantifiers = false) (hlhs : c.lhs.hasHoles = false)
    (hrhs : c.rhs.hasHoles = false) {arities : Arities} {names : List String}
    (hnames : ∀ name ∈ c.lhs.freeNames ++ c.rhs.freeNames, name ∈ names)
    (harities : Rule.clauseArities c.lhs c.rhs = .ok arities) {row : List Bool}
    (hrow : row.length = slotCount (arities.widths names)) :
    let env : Environment := layout (arities.widths names) row
    c.lhs.evaluate env = .ok (c.lhs.truth env.interpretation []) ∧
      c.rhs.evaluate env = .ok (c.rhs.truth env.interpretation []) := by
  intro env
  constructor
  · refine Formula.evaluate_of_tables hplainl hlhs fun name count huses => ?_
    have hfree := (Formula.mem_freeUses_of_uses huses).resolve_right (Formula.not_bindsUse hplainl)
    exact c.exists_table hnames harities hrow (List.mem_append_left _ hfree)
  · refine Formula.evaluate_of_tables hplainr hrhs fun name count huses => ?_
    have hfree := (Formula.mem_freeUses_of_uses huses).resolve_right (Formula.not_bindsUse hplainr)
    exact c.exists_table hnames harities hrow (List.mem_append_right _ hfree)

/-- The sides of a clause that may be relied on agree on every row, if there are no holes in them. -/
theorem Clause.Sound.rows {c : Clause} (hc : c.Sound) (hlhs : c.lhs.hasHoles = false)
    (hrhs : c.rhs.hasHoles = false) {arities : Arities} {names : List String}
    (hnames : ∀ name ∈ c.lhs.freeNames ++ c.rhs.freeNames, name ∈ names)
    (harities : Rule.clauseArities c.lhs c.rhs = .ok arities) {row : List Bool}
    (hrow : row.length = slotCount (arities.widths names)) :
    sidesDiffer c.lhs c.rhs (layout (arities.widths names) row) = .ok false := by
  obtain ⟨hl, hr⟩ :=
    c.evaluate_layout hc.lhs_plain hc.rhs_plain hlhs hrhs hnames harities hrow
  rw [hc.equivalent] at hl
  exact sidesDiffer_eq_false.2 ⟨_, hl, hr⟩

/-! ## The check -/

/-- What is left of the check when the arities are known: the two limits on the number of slots, and
    the search through the rows. -/
theorem checkClause_of_arities {lhs rhs : Formula} {arities : Arities}
    (harities : Rule.clauseArities lhs rhs = .ok arities) (rule : String) (clause maxSlots : Int) :
    let widths := arities.widths (clauseNames lhs rhs)
    checkClause rule clause lhs rhs maxSlots =
      if maxSlots < (slotCount widths : Int) then
        .error (.tooManySlots rule clause (slotCount widths) maxSlots)
      else if maxRowWidth < slotCount widths then .error (.table (.tooWide (slotCount widths)))
      else do
        let found ← (findRow (slotCount widths) fun row =>
          sidesDiffer lhs rhs (layout widths row)).mapError .eval
        return {
          rule, clause, lhs, rhs, arities
          rows := found.elim (rowCount (slotCount widths)) fun row => rowIndex row + 1
          counterexample := found.map (layout widths) } := by
  intro widths
  unfold checkClause
  rw [harities]
  change (if maxSlots < (slotCount widths : Int) then _ else
    (limitWidth (slotCount widths)).mapError _ >>= _) = _
  refine ite_congr rfl (fun _ => rfl) fun _ => ?_
  unfold limitWidth
  split
  · rfl
  · change ((findRow (slotCount widths) _).mapError _ >>= _) = _
    refine bind_congr fun found => ?_
    cases found <;> rfl

/-- The report of a check that could go through the rows: it ended at the row that was found, or
    behind the last one. -/
theorem checkClause_eq_ok {rule : String} {clause : Int} {lhs rhs : Formula} {maxSlots : Int}
    {arities : Arities} {found : Option (List Bool)}
    (harities : Rule.clauseArities lhs rhs = .ok arities)
    (hslots : (slotCount (arities.widths (clauseNames lhs rhs)) : Int) ≤ maxSlots)
    (hwidth : slotCount (arities.widths (clauseNames lhs rhs)) ≤ maxRowWidth)
    (hfound : findRow (slotCount (arities.widths (clauseNames lhs rhs)))
      (fun row => sidesDiffer lhs rhs (layout (arities.widths (clauseNames lhs rhs)) row))
        = .ok found) :
    checkClause rule clause lhs rhs maxSlots = .ok {
      rule, clause, lhs, rhs, arities
      rows := found.elim (rowCount (slotCount (arities.widths (clauseNames lhs rhs))))
        fun row => rowIndex row + 1
      counterexample := found.map (layout (arities.widths (clauseNames lhs rhs))) } := by
  rw [checkClause_of_arities harities, if_neg (Int.not_lt.2 hslots), if_neg (Nat.not_lt.2 hwidth),
    hfound]
  rfl

/-- A clause passes the check when its arities and the number of slots allow it and the sides agree on
    every row. -/
theorem checkClause_passes {rule : String} {clause : Int} {lhs rhs : Formula} {maxSlots : Int} :
    (∃ report, checkClause rule clause lhs rhs maxSlots = .ok report ∧ report.ok = true) ↔
      ∃ arities, Rule.clauseArities lhs rhs = .ok arities ∧
        (slotCount (arities.widths (clauseNames lhs rhs)) : Int) ≤ maxSlots ∧
        slotCount (arities.widths (clauseNames lhs rhs)) ≤ maxRowWidth ∧
        ∀ row : List Bool, row.length = slotCount (arities.widths (clauseNames lhs rhs)) →
          sidesDiffer lhs rhs (layout (arities.widths (clauseNames lhs rhs)) row) = .ok false := by
  constructor
  · rintro ⟨report, h, hok⟩
    obtain ⟨arities, harities, -⟩ := bind_eq_ok.1 h
    have harities := mapError_eq_ok.1 harities
    rw [checkClause_of_arities harities] at h
    split at h
    · cases h
    · next hslots =>
        split at h
        · cases h
        · next hwidth =>
            obtain ⟨found, hfound, h⟩ := bind_eq_ok.1 h
            obtain rfl := pure_eq_ok.1 h
            obtain rfl : found = none := by simpa [ClauseReport.ok] using hok
            exact ⟨arities, harities, Int.not_lt.1 hslots, Nat.not_lt.1 hwidth,
              findRow_eq_none.1 (mapError_eq_ok.1 hfound)⟩
  · rintro ⟨arities, harities, hslots, hwidth, hrows⟩
    exact ⟨_, checkClause_eq_ok harities hslots hwidth (findRow_eq_none.2 hrows), rfl⟩

/-- A clause that passes the check may be relied on. -/
theorem Clause.sound_of_check {rule : String} {index : Int} {c : Clause} {maxSlots : Int}
    {report : ClauseReport} (h : checkClause rule index c.lhs c.rhs maxSlots = .ok report)
    (hok : report.ok = true) : c.Sound := by
  obtain ⟨arities, harities, -, -, hrows⟩ := checkClause_passes.1 ⟨report, h, hok⟩
  exact Clause.sound_of_rows (fun _ hname => mem_sortedNames.2 hname) harities hrows

end Deduction
