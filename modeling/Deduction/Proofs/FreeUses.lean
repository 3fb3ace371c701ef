import Deduction.Proofs.Assoc
import Deduction.Proofs.Evaluation
import Deduction.Rule.Basic

set_option autoImplicit false

/-! # Free uses of names

Every use of a name has a number of arguments. The free uses of a formula are listed here without
regard to what else its names are used for; the free names are the names of these uses. The inference
of arities comes to recording them one after the other, so it ends in a conflict exactly if one name
has two free uses with different numbers of arguments, and otherwise it knows of each free name the
number of arguments at all of them. -/

namespace Deduction

namespace Formula

mutual

/-- The free uses of names in a formula, each with its number of arguments. -/
def freeUses : Formula → List (String × Nat)
  | .app name args => (name, args.length) :: freeUsesList args
  | .neg f => freeUses f
  | .binary _ l r => freeUses l ++ freeUses r
  | .quant _ name body => (freeUses body).filter (·.1 ≠ name)
  | .top | .bottom | .hole _ => []

def freeUsesList : List Formula → List (String × Nat)
  | [] => []
  | a :: as => freeUses a ++ freeUsesList as

end

theorem freeUsesList_eq (as : List Formula) : freeUsesList as = as.flatMap freeUses := by
  induction as with
  | nil => rfl
  | cons a as ih => simp [freeUsesList, ih]

/-- The free names are the names of the free uses. -/
theorem map_fst_freeUses (f : Formula) : f.freeUses.map Prod.fst = f.freeNames := by
  induction f with
  | top => rfl
  | bottom => rfl
  | app name args ih =>
      rw [freeUses, freeNames, freeUsesList_eq, freeNamesList_eq, List.map_cons, List.map_flatMap,
        List.flatMap_def, List.flatMap_def, List.map_congr_left ih]
  | neg f ih => exact ih
  | binary op l r ihl ihr => simp only [freeUses, freeNames, List.map_append, ihl, ihr]
  | quant q name body ih =>
      simp only [freeUses, freeNames, ← ih, List.filter_map]
      rfl
  | hole i => rfl

theorem mem_freeNames_iff_freeUses {f : Formula} {name : String} :
    name ∈ f.freeNames ↔ ∃ count, (name, count) ∈ f.freeUses := by
  simp [← map_fst_freeUses]

/-! ## Free uses and uses that are bound -/

/-- A quantifier of the formula binds the name where it is used with that number of arguments. -/
def BindsUse (f : Formula) (name : String) (count : Nat) : Prop :=
  ∃ q body, .quant q name body ∈ f.subformulas ∧ body.Uses name count

theorem bindsUse_app {n name : String} {args : List Formula} {count : Nat} :
    (Formula.app n args).BindsUse name count ↔ ∃ a ∈ args, a.BindsUse name count := by
  simp only [BindsUse, subformulas, subformulasList_eq, List.mem_cons, reduceCtorEq, false_or,
    List.mem_flatMap]
  constructor
  · rintro ⟨q, body, ⟨a, ha, hmem⟩, huses⟩
    exact ⟨a, ha, q, body, hmem, huses⟩
  · rintro ⟨a, ha, q, body, hmem, huses⟩
    exact ⟨q, body, ⟨a, ha, hmem⟩, huses⟩

theorem bindsUse_neg {f : Formula} {name : String} {count : Nat} :
    (Formula.neg f).BindsUse name count ↔ f.BindsUse name count := by
  simp [BindsUse, subformulas]

theorem bindsUse_binary {op : Connective} {l r : Formula} {name : String} {count : Nat} :
    (Formula.binary op l r).BindsUse name count ↔ l.BindsUse name count ∨ r.BindsUse name count := by
  simp [BindsUse, subformulas, or_and_right, exists_or]

theorem bindsUse_quant {q : Quantifier} {n name : String} {body : Formula} {count : Nat}
    (h : n = name ∧ body.Uses name count ∨ body.BindsUse name count) :
    (Formula.quant q n body).BindsUse name count := by
  rcases h with ⟨rfl, huses⟩ | ⟨q', body', hmem, huses⟩
  · exact ⟨q, body, List.mem_cons_self .., huses⟩
  · exact ⟨q', body', List.mem_cons_of_mem _ hmem, huses⟩

theorem not_bindsUse {f : Formula} (hf : f.hasQuantifiers = false) {name : String} {count : Nat} :
    ¬ f.BindsUse name count := by
  rintro ⟨q, body, hmem, -⟩
  have hquant : f.hasQuantifiers = true := List.any_eq_true.2 ⟨_, hmem, rfl⟩
  rw [hf] at hquant
  cases hquant

/-- A use is free, or a quantifier binds it. -/
theorem mem_freeUses_of_uses {f : Formula} {name : String} {count : Nat} (h : f.Uses name count) :
    (name, count) ∈ f.freeUses ∨ f.BindsUse name count := by
  induction f with
  | top => exact absurd h not_uses_top
  | bottom => exact absurd h not_uses_bottom
  | app n args ih =>
      simp only [freeUses, freeUsesList_eq, List.mem_cons, List.mem_flatMap, Prod.mk.injEq]
      rcases uses_app.1 h with ⟨hn, hcount⟩ | ⟨a, ha, h⟩
      · exact .inl (.inl ⟨hn, hcount.symm⟩)
      · exact (ih a ha h).imp (fun hfree => .inr ⟨a, ha, hfree⟩)
          fun hbinds => bindsUse_app.2 ⟨a, ha, hbinds⟩
  | neg f ih => exact (ih (uses_neg.1 h)).imp_right bindsUse_neg.2
  | binary op l r ihl ihr =>
      rcases uses_binary.1 h with h | h
      · exact (ihl h).imp (List.mem_append_left _) fun hbinds => bindsUse_binary.2 (.inl hbinds)
      · exact (ihr h).imp (List.mem_append_right _) fun hbinds => bindsUse_binary.2 (.inr hbinds)
  | quant q n body ih =>
      have hbody := uses_quant.1 h
      by_cases hsame : n = name
      · exact .inr (bindsUse_quant (.inl ⟨hsame, hbody⟩))
      · refine (ih hbody).imp (fun hfree => List.mem_filter.2 ⟨hfree, ?_⟩) fun hbinds =>
          bindsUse_quant (.inr hbinds)
        simpa using Ne.symm hsame
  | hole i => exact absurd h not_uses_hole

/-- Without quantifiers every name that is used is free. -/
theorem mem_freeNames_of_uses {f : Formula} (hf : f.hasQuantifiers = false) {n : String}
    {count : Nat} (hn : f.Uses n count) : n ∈ f.freeNames :=
  mem_freeNames_iff_freeUses.2 ⟨count, (mem_freeUses_of_uses hn).resolve_right (not_bindsUse hf)⟩

end Formula

/-! ## Recording uses -/

namespace Arities

/-- A use that was recorded is known from then on, and nothing else has changed. -/
theorem record_spec {seen seen' : Arities} {name : String} {count : Int}
    (h : seen.record name count = .ok seen') (other : String) (k : Int) :
    seen'.get? other = some k ↔ seen.get? other = some k ∨ other = name ∧ k = count := by
  unfold record at h
  split at h
  · next hnone =>
      obtain rfl := Except.ok.inj h
      by_cases hname : name = other
      · subst hname
        simp [Assoc.get?_put_self, hnone, eq_comm]
      · rw [Assoc.get?_put_of_ne seen hname]
        simp [Ne.symm hname]
  · next first hfirst =>
      split at h
      · next heq =>
          obtain rfl := Except.ok.inj h
          refine ⟨.inl, ?_⟩
          rintro (hother | ⟨rfl, rfl⟩)
          · exact hother
          · rw [hfirst, heq]
      · cases h

theorem record_eq_error {seen : Arities} {name : String} {count : Int} {e : ArityConflict}
    (h : seen.record name count = .error e) :
    ∃ first, seen.get? name = some first ∧ first ≠ count ∧ e = ⟨name, first, count⟩ := by
  unfold record at h
  split at h
  · cases h
  · next first hfirst =>
      split at h
      · cases h
      · next hne => exact ⟨first, hfirst, hne, (Except.error.inj h).symm⟩

/-- Records uses one after the other. -/
def recordAll (seen : Arities) (uses : List (String × Nat)) : Except ArityConflict Arities :=
  uses.foldlM (fun seen use => seen.record use.1 use.2) seen

theorem recordAll_append (seen : Arities) (uses others : List (String × Nat)) :
    seen.recordAll (uses ++ others) = seen.recordAll uses >>= fun seen => seen.recordAll others :=
  List.foldlM_append

/-- What is known in the end was known before, or it is one of the uses. -/
theorem recordAll_spec {uses : List (String × Nat)} {seen seen' : Arities}
    (h : seen.recordAll uses = .ok seen') (name : String) (k : Int) :
    seen'.get? name = some k ↔
      seen.get? name = some k ∨ ∃ count : Nat, (name, count) ∈ uses ∧ k = count := by
  induction uses generalizing seen with
  | nil =>
      obtain rfl := pure_eq_ok.1 h
      simp
  | cons use uses ih =>
      obtain ⟨seen₁, h₁, h⟩ := bind_eq_ok.1 h
      rw [ih h, record_spec h₁]
      constructor
      · rintro ((hbefore | ⟨rfl, rfl⟩) | ⟨count, hmem, hk⟩)
        · exact .inl hbefore
        · exact .inr ⟨use.2, List.mem_cons_self .., rfl⟩
        · exact .inr ⟨count, List.mem_cons_of_mem _ hmem, hk⟩
      · rintro (hbefore | ⟨count, hmem, hk⟩)
        · exact .inl (.inl hbefore)
        · rcases List.mem_cons.1 hmem with rfl | hmem
          · exact .inl (.inr ⟨rfl, hk⟩)
          · exact .inr ⟨count, hmem, hk⟩

/-- A conflict is one of a use with what was known before, or with another one of the uses. -/
theorem recordAll_eq_error {uses : List (String × Nat)} {seen : Arities} {e : ArityConflict}
    (h : seen.recordAll uses = .error e) :
    e.first ≠ e.second ∧ (∃ count : Nat, (e.name, count) ∈ uses ∧ e.second = count) ∧
      (seen.get? e.name = some e.first ∨
        ∃ count : Nat, (e.name, count) ∈ uses ∧ e.first = count) := by
  obtain ⟨front, use, back, seen', rfl, hfront, huse⟩ := exists_of_foldlM_eq_error h
  obtain ⟨first, hfirst, hne, rfl⟩ := record_eq_error huse
  refine ⟨hne, ⟨use.2, List.mem_append_right _ (List.mem_cons_self ..), rfl⟩, ?_⟩
  refine ((recordAll_spec hfront use.1 first).1 hfirst).imp_right ?_
  rintro ⟨count, hmem, hcount⟩
  exact ⟨count, List.mem_append_left _ hmem, hcount⟩

end Arities

/-! ## The inference of arities -/

namespace Formula

theorem inferArities_app (bound : List String) (name : String) (args : List Formula)
    (seen : Arities) : (Formula.app name args).inferArities bound seen =
      (if bound.contains name then .ok seen else seen.record name args.length) >>=
        inferAritiesList bound args := by
  rw [inferArities]
  split <;> rfl

theorem inferAritiesList_eq {bound : List String} {as : List Formula}
    (h : ∀ a ∈ as, ∀ seen : Arities,
      a.inferArities bound seen = seen.recordAll (a.freeUses.filter (·.1 ∉ bound)))
    (seen : Arities) :
    inferAritiesList bound as seen = seen.recordAll ((freeUsesList as).filter (·.1 ∉ bound)) := by
  induction as generalizing seen with
  | nil => rfl
  | cons a as ih =>
      obtain ⟨ha, has⟩ := List.forall_mem_cons.1 h
      rw [inferAritiesList, freeUsesList, List.filter_append, Arities.recordAll_append, ha seen]
      exact congrArg _ (funext (ih has))

/-- To infer the arities of a formula is to record its free uses, those of bound names left out. -/
theorem inferArities_eq (f : Formula) (bound : List String) (seen : Arities) :
    f.inferArities bound seen = seen.recordAll (f.freeUses.filter (·.1 ∉ bound)) := by
  induction f generalizing bound seen with
  | top => rfl
  | bottom => rfl
  | app name args ih =>
      have hargs := funext (inferAritiesList_eq fun a ha seen => ih a ha bound seen)
      rw [inferArities_app, freeUses, List.filter_cons, hargs]
      by_cases hname : name ∈ bound
      · simp only [List.contains_iff_mem.2 hname, hname, not_true, decide_false]
        rfl
      · have hcontains : ¬ bound.contains name = true := fun h => hname (List.contains_iff_mem.1 h)
        simp only [hcontains, hname, not_false_iff, decide_true]
        rfl
  | neg f ih => exact ih bound seen
  | binary op l r ihl ihr =>
      rw [inferArities, freeUses, List.filter_append, Arities.recordAll_append, ihl]
      exact congrArg _ (funext (ihr bound))
  | quant q name body ih =>
      rw [inferArities, freeUses, ih, List.filter_filter]
      simp [Bool.and_comm]
  | hole i => rfl

end Formula

/-! ## The arities of a clause -/

namespace Clause

/-- The free uses on both sides of a clause. -/
def freeUses (c : Clause) : List (String × Nat) := c.lhs.freeUses ++ c.rhs.freeUses

/-- One name has two free uses with different numbers of arguments. -/
def Clashes (c : Clause) : Prop :=
  ∃ use ∈ c.freeUses, ∃ other ∈ c.freeUses, use.1 = other.1 ∧ use.2 ≠ other.2

instance (c : Clause) : Decidable c.Clashes :=
  inferInstanceAs (Decidable (∃ use ∈ c.freeUses, ∃ other ∈ c.freeUses, _ ∧ _))

theorem clauseArities_eq (c : Clause) :
    Rule.clauseArities c.lhs c.rhs = Arities.recordAll [] c.freeUses := by
  rw [freeUses, Arities.recordAll_append, Rule.clauseArities]
  simp only [Formula.inferArities_eq, List.not_mem_nil, not_false_iff, decide_true,
    List.filter_true]

/-- The arities of a clause are those of all its free uses. -/
theorem get?_of_mem_freeUses {c : Clause} {arities : Arities}
    (h : Rule.clauseArities c.lhs c.rhs = .ok arities) {name : String} {count : Nat}
    (hmem : (name, count) ∈ c.freeUses) : arities.get? name = some (count : Int) := by
  rw [clauseArities_eq] at h
  exact (Arities.recordAll_spec h name count).2 (.inr ⟨count, hmem, rfl⟩)

end Clause

end Deduction
