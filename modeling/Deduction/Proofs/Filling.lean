import Deduction.Proofs.MatchConflicts
import Deduction.Proofs.Replacement

set_option autoImplicit false

/-! # Free names of a filled context

Filling a context brings in the free names of the arguments, and where nothing is captured it keeps
all of them, as well as those of the body. The search for a capture collects the bound names on its
way down to the holes; what it finds is a quantifier in the body, with a hole below it whose argument
has the bound name free. -/

namespace Deduction

theorem exists_mem_iff_of_forall₂ {α β : Type} {P : α → Prop} {Q : β → Prop} {as : List α}
    {bs : List β} (h : List.Forall₂ (fun a b => P a ↔ Q b) as bs) :
    (∃ a ∈ as, P a) ↔ ∃ b ∈ bs, Q b := by
  induction h with
  | nil => simp
  | cons hab _ ih => simp only [List.exists_mem_cons_iff, hab, ih]

namespace Formula

variable {args : List Formula} {bound : List String} {body f : Formula} {name : String}

/-! ## Names at a root -/

theorem hole_or_not_hole (f : Formula) : (∃ i, f = .hole i) ∨ f.isHole = false := by
  cases f <;> simp [isHole]

theorem mem_freeNames_iff :
    name ∈ f.freeNames ↔
      name ∈ f.root.freeNames ∨ name ∉ f.scope [] ∧ ∃ a ∈ f.children, name ∈ a.freeNames := by
  cases f <;>
    simp [freeNames, freeNamesList_eq, root, mapChildren, scope, children, and_comm]

theorem mem_scope_iff : name ∈ f.scope bound ↔ name ∈ f.scope [] ∨ name ∈ bound := by
  cases f <;> simp [scope]

/-! ## Names that come in -/

/-- The name is free in the argument of a hole of the formula. -/
def Receives (f : Formula) (args : List Formula) (name : String) : Prop :=
  ∃ i a, .hole i ∈ f.subformulas ∧ elementAt? args i = some a ∧ name ∈ a.freeNames

theorem receives_hole {i : Int} {a : Formula} (h : elementAt? args i = some a) :
    (Formula.hole i).Receives args name ↔ name ∈ a.freeNames := by
  simp [Receives, subformulas, h]

theorem receives_of_not_hole (h : f.isHole = false) :
    f.Receives args name ↔ ∃ a ∈ f.children, a.Receives args name := by
  have hroot : ∀ i, Formula.hole i ≠ f := by
    rintro i rfl
    exact absurd h (by simp [isHole])
  constructor
  · rintro ⟨i, a, hi, ha, hname⟩
    obtain ⟨b, hb, hi⟩ := (mem_subformulas_iff.1 hi).resolve_left (hroot i)
    exact ⟨b, hb, i, a, hi, ha, hname⟩
  · rintro ⟨b, hb, i, a, hi, ha, hname⟩
    exact ⟨i, a, mem_subformulas_iff.2 (.inr ⟨b, hb, hi⟩), ha, hname⟩

/-! ## Captures -/

/-- A quantifier of the formula binds a name that comes in below it. -/
def BindsArgument (f : Formula) (args : List Formula) : Prop :=
  ∃ q name inner, .quant q name inner ∈ f.subformulas ∧ inner.Receives args name

theorem not_bindsArgument_hole (i : Int) : ¬ (Formula.hole i).BindsArgument args := by
  simp [BindsArgument, subformulas]

theorem bindsArgument_iff :
    f.BindsArgument args ↔
      (∃ name ∈ f.scope [], ∃ a ∈ f.children, a.Receives args name) ∨
        ∃ a ∈ f.children, a.BindsArgument args := by
  have hroot : (∃ q name inner, Formula.quant q name inner = f ∧ inner.Receives args name) ↔
      ∃ name ∈ f.scope [], ∃ a ∈ f.children, a.Receives args name := by
    cases f <;> simp [scope, children]
  rw [← hroot]
  simp only [BindsArgument, mem_subformulas_iff (f := f)]
  constructor
  · rintro ⟨q, name, inner, rfl | ⟨a, ha, hquant⟩, hname⟩
    · exact .inl ⟨q, name, inner, rfl, hname⟩
    · exact .inr ⟨a, ha, q, name, inner, hquant, hname⟩
  · rintro (⟨q, name, inner, hquant, hname⟩ | ⟨a, ha, q, name, inner, hquant, hname⟩)
    · exact ⟨q, name, inner, .inl hquant, hname⟩
    · exact ⟨q, name, inner, .inr ⟨a, ha, hquant⟩, hname⟩

theorem capturesAny_eq_true {as : List Formula}
    (h : ∀ a ∈ as, (a.captures args bound).isSome = true) :
    capturesAny args bound as = some true ↔ ∃ a ∈ as, a.captures args bound = some true := by
  induction as with
  | nil => simp [capturesAny]
  | cons a as ih =>
      obtain ⟨ha, has⟩ := List.forall_mem_cons.1 h
      obtain ⟨captured, hcaptured⟩ := Option.isSome_iff_exists.1 ha
      rw [capturesAny, List.exists_mem_cons_iff, hcaptured]
      cases captured with
      | true => simp
      | false => simpa using ih has

/-- The search finds a capture exactly if a name comes in that is bound around the formula or in it
    above the hole. -/
theorem captures_eq_true_iff (h : body.HolesFilled args) (bound : List String) :
    body.captures args bound = some true ↔
      (∃ name ∈ bound, body.Receives args name) ∨ body.BindsArgument args := by
  induction body using induct_children generalizing bound with
  | step body ih =>
      have hparts : ∀ a ∈ body.children, a.HolesFilled args := fun a ha i hi =>
        h i (mem_subformulas_iff.2 (.inr ⟨a, ha, hi⟩))
      rcases body.hole_or_not_hole with ⟨i, rfl⟩ | hhole
      · obtain ⟨a, ha⟩ := Option.isSome_iff_exists.1 (h i (mem_subformulas_self _))
        simp [captures, ha, receives_hole ha, not_bindsArgument_hole, mentions, and_comm]
      · rw [captures_of_not_hole hhole,
          capturesAny_eq_true fun a ha => isSome_captures (hparts a ha) _, bindsArgument_iff]
        simp only [receives_of_not_hole hhole]
        constructor
        · rintro ⟨a, ha, hcaptures⟩
          rcases (ih a ha (hparts a ha) _).1 hcaptures with ⟨name, hname, hreceives⟩ | hbinds
          · rcases mem_scope_iff.1 hname with hname | hname
            · exact .inr (.inl ⟨name, hname, a, ha, hreceives⟩)
            · exact .inl ⟨name, hname, a, ha, hreceives⟩
          · exact .inr (.inr ⟨a, ha, hbinds⟩)
        · rintro (⟨name, hname, a, ha, hreceives⟩ | ⟨name, hname, a, ha, hreceives⟩ | ⟨a, ha, hbinds⟩)
          · exact ⟨a, ha, (ih a ha (hparts a ha) _).2
              (.inl ⟨name, mem_scope_iff.2 (.inr hname), hreceives⟩)⟩
          · exact ⟨a, ha, (ih a ha (hparts a ha) _).2
              (.inl ⟨name, mem_scope_iff.2 (.inl hname), hreceives⟩)⟩
          · exact ⟨a, ha, (ih a ha (hparts a ha) _).2 (.inr hbinds)⟩

/-! ## Free names after filling -/

/-- Below no quantifier of a body that can be filled does the name that it binds come in. -/
theorem FillsTo.not_bindsArgument (h : FillsTo args bound f body) : ¬ body.BindsArgument args := by
  intro hbinds
  have hholes : body.HolesFilled args := isSome_fillHoles.1 (by rw [h.2]; rfl)
  have hcaptures := (captures_eq_true_iff hholes bound).2 (.inr hbinds)
  rw [h.1] at hcaptures
  cases hcaptures

/-- Filling keeps the free names of the body and those that come in. -/
theorem FillsTo.mem_freeNames_iff (h : FillsTo args bound f body) :
    name ∈ f.freeNames ↔ name ∈ body.freeNames ∨ body.Receives args name := by
  induction body using induct_children generalizing bound f with
  | step body ih =>
      rcases body.hole_or_not_hole with ⟨i, rfl⟩ | hhole
      · rw [receives_hole (fillsTo_hole.1 h).1]
        simp [freeNames]
      · obtain ⟨hroot, hall⟩ := (fillsTo_of_not_hole hhole).1 h
        have hparts : (∃ a ∈ body.children, name ∈ a.freeNames ∨ a.Receives args name) ↔
            ∃ b ∈ f.children, name ∈ b.freeNames :=
          exists_mem_iff_of_forall₂
            (forall₂_imp_of_mem hall fun a ha b hab => (ih a ha hab).symm)
        -- a name that comes in is not bound at the root, so it stays free
        have hfree : (∃ a ∈ body.children, a.Receives args name) → name ∉ body.scope [] := by
          rintro ⟨a, ha, hname⟩ hscope
          exact h.not_bindsArgument (bindsArgument_iff.2 (.inl ⟨name, hscope, a, ha, hname⟩))
        rw [Formula.mem_freeNames_iff, Formula.mem_freeNames_iff (f := body), hroot,
          scope_eq_of_root_eq hroot, ← hparts, receives_of_not_hole hhole]
        simp only [and_or_left, exists_or]
        rw [and_iff_right_of_imp hfree, or_assoc]

end Formula

/-- If every hole of a context has an argument, then it is settled whether filling the context would
    capture a name: it would exactly if the body has a quantifier and, below it, a hole whose argument
    has the bound name free. If it would not, the context can be filled, and the free names of the
    result are those of the body and those of the arguments of its holes. -/
theorem Context.fill_keeps_names (c : Context) {args : List Formula}
    (h : c.body.HolesFilled args) :
    ∃ captured, c.captures args = some captured ∧
      (captured = true ↔ ∃ q name inner i a, .quant q name inner ∈ c.body.subformulas ∧
        .hole i ∈ inner.subformulas ∧ elementAt? args i = some a ∧ name ∈ a.freeNames) ∧
      (captured = false → ∃ f, c.fill args = .ok f ∧ ∀ name, name ∈ f.freeNames ↔
        name ∈ c.body.freeNames ∨ ∃ i a, .hole i ∈ c.body.subformulas ∧
          elementAt? args i = some a ∧ name ∈ a.freeNames) := by
  obtain ⟨captured, hcaptured⟩ := Option.isSome_iff_exists.1 (Formula.isSome_captures h [])
  obtain ⟨f, hfill⟩ := Option.isSome_iff_exists.1 (Formula.isSome_fillHoles.2 h)
  refine ⟨captured, hcaptured, ?_, ?_⟩
  · have hbinds := Formula.captures_eq_true_iff h []
    rw [hcaptured] at hbinds
    simpa [Formula.BindsArgument, Formula.Receives] using hbinds
  · rintro rfl
    have hfills : Formula.FillsTo args [] f c.body := ⟨hcaptured, hfill⟩
    refine ⟨f, ?_, fun name => hfills.mem_freeNames_iff⟩
    rw [Context.fill, Context.captures, hcaptured, hfill]

/-- Both holes are below a quantifier on `x`, and the second one, which is counted from the back, is
    also below one on `y`. So `y` may come into the first hole, but not into the second one. -/
theorem Context.fill_keeps_names_nested :
    let inner := Formula.implies (.hole (-1)) (.var "y")
    let c : Context := ⟨2, .or (.quant .all "x" (.and (.app "P" [.hole 0, .var "x"])
      (.quant .ex "y" inner))) (.var "x")⟩
    (∃ f, c.fill [.var "y", .app "Q" [.var "z"]] = .ok f ∧
      "x" ∈ f.freeNames ∧ "y" ∈ f.freeNames ∧ "z" ∈ f.freeNames) ∧
      c.captures [.var "z", .app "Q" [.var "y"]] = some true := by
  intro inner c
  have hholes (args : List Formula) (hargs : args.length = 2) : c.body.HolesFilled args := by
    intro i hi
    have hi : i = 0 ∨ i = -1 := by
      simpa [c, inner, Formula.subformulas, Formula.subformulasList] using hi
    obtain ⟨a, b, rfl⟩ := List.length_eq_two.1 hargs
    rcases hi with rfl | rfl <;> rfl
  constructor
  · obtain ⟨captured, hcaptured, -, hfree⟩ :=
      Context.fill_keeps_names c (hholes [.var "y", .app "Q" [.var "z"]] rfl)
    obtain rfl : false = captured := Option.some.inj (Eq.trans rfl hcaptured)
    obtain ⟨f, hf, hnames⟩ := hfree rfl
    refine ⟨f, hf, (hnames "x").2 (.inl (by decide)), ?_, ?_⟩
    · exact (hnames "y").2 (.inr ⟨0, .var "y", by decide, rfl, by decide⟩)
    · exact (hnames "z").2 (.inr ⟨-1, .app "Q" [.var "z"], by decide, rfl, by decide⟩)
  · obtain ⟨captured, hcaptured, hbinds, -⟩ :=
      Context.fill_keeps_names c (hholes [.var "z", .app "Q" [.var "y"]] rfl)
    rw [hcaptured, hbinds.2 ⟨.ex, "y", inner, -1, _, by decide, by decide, rfl, by decide⟩]

end Deduction
