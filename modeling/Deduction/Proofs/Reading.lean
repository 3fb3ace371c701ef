import Deduction.Proofs.Grammar
import Deduction.Proofs.Rendering
import Mathlib.Data.List.Forall2

set_option autoImplicit false

/-! # Reading undoes rendering

The tokens of a formula derive that formula, its parentheses standing where the grammar asks for
them. So the text of a formula that can be read is read as that formula. Conversely only such
formulas are derived from the tokens of a text. -/

namespace Deduction

namespace Formula

/-! ## The tokens of a formula derive it -/

/-- The tokens of a formula derive it between two brackets and, in parentheses if the formula is
    binary, as an operand. -/
structure Spelled (f : Formula) : Prop where
  whole : Derives .iff f.tokens f
  operand : Derives .unary (f.bracketed f.tokens) f

theorem Spelled.of_unary {f : Formula} (hf : f.bracketed f.tokens = f.tokens)
    (h : Derives .unary f.tokens f) : f.Spelled where
  whole := h.whole
  operand := hf.symm ▸ h

/-- The arguments behind those that a call already has. -/
theorem derives_arguments {as : List Formula} (has : ∀ a ∈ as, a.Spelled) {ts : List Token}
    {name : String} {args : List Formula} (hcall : Derives .call ts (.app name args)) :
    Derives .call (ts ++ argumentTokens as) (.app name (args ++ as)) := by
  induction as generalizing ts args with
  | nil =>
      rw [argumentTokens, List.append_nil, List.append_nil]
      exact hcall
  | cons a as ih =>
      obtain ⟨ha, has⟩ := List.forall_mem_cons.1 has
      have hmore := ih has (.nextArgument hcall (t := .comma) rfl ha.whole)
      rwa [List.append_assoc, List.append_assoc] at hmore

theorem spelled_binary {op : Connective} {l r : Formula} (hl : l.Spelled) (hr : r.Spelled) :
    (Formula.binary op l r).Spelled := by
  have hwhole : Derives .iff (Formula.binary op l r).tokens (.binary op l r) := by
    have hl := hl.operand
    have hr := hr.operand
    cases op with
    | and => exact .iffOfImplies (.impliesOfOr (.orOfAnd (.and (.andOfUnary hl) rfl hr)))
    | or =>
        exact .iffOfImplies (.impliesOfOr (.or (.orOfAnd (.andOfUnary hl)) rfl (.andOfUnary hr)))
    | implies =>
        exact .iffOfImplies (.implies (.orOfAnd (.andOfUnary hl)) rfl
          (.impliesOfOr (.orOfAnd (.andOfUnary hr))))
    | iff => exact .iff (.impliesOfOr (.orOfAnd (.andOfUnary hl))) rfl hr.whole
  exact ⟨hwhole, .unaryOfAtom (.bracketed rfl hwhole rfl)⟩

/-- The tokens of a formula that can be read derive that formula. -/
theorem spelled {f : Formula} (hf : f.Readable) : f.Spelled := by
  induction f with
  | top => exact .of_unary rfl (.unaryOfAtom (.top rfl))
  | bottom => exact .of_unary rfl (.unaryOfAtom (.bottom rfl))
  | app name args ih =>
      have hargs : ∀ a ∈ args, a.Spelled := fun a ha => ih a ha ((readable_app.1 hf).2 a ha)
      refine .of_unary rfl (.unaryOfAtom ?_)
      cases args with
      | nil => exact .name (n := .ofName name) rfl
      | cons a as =>
          obtain ⟨ha, has⟩ := List.forall_mem_cons.1 hargs
          have hcall := derives_arguments has
            (.firstArgument (n := .ofName name) (t := .leftParen) rfl rfl ha.whole)
          have happ := Derives.application hcall (t := .rightParen) rfl
          rw [List.append_assoc] at happ
          exact happ
  | neg f ih => exact .of_unary rfl (.neg rfl (ih (readable_neg.1 hf)).operand)
  | binary op l r ihl ihr =>
      obtain ⟨hl, hr⟩ := readable_binary.1 hf
      exact spelled_binary (ihl hl) (ihr hr)
  | quant q name body ih =>
      have hbody := (ih (readable_quant.1 hf).2).operand
      have hkeyword : q.token.kind = q.kind := by cases q <;> rfl
      exact .of_unary rfl (.unaryOfQuantifier
        (.quantSeparated hkeyword (n := .ofName name) rfl (.inl rfl) hbody))
  | hole i => exact absurd hf (not_readable_hole i)

end Formula

/-! ## Columns and spellings do not matter -/

/-- The tokens differ in their columns and spellings at most. A name has one spelling. -/
structure Token.Alike (t u : Token) : Prop where
  kind : t.kind = u.kind
  name : t.kind = .name → t.text = u.text

theorem Token.alike_bare (t : Token) : t.Alike t.bare := ⟨rfl, fun _ => rfl⟩

namespace Reading

/-- Tokens that are alike lead to the same state, or both to an error. -/
theorem step_of_alike (s : Reading) {t u : Token} (h : t.Alike u) :
    (s.step t).toOption = (s.step u).toOption := by
  obtain ⟨kind, text, column⟩ := t
  obtain ⟨kind', text', column'⟩ := u
  obtain ⟨rfl, hname⟩ : kind = kind' ∧ (kind = .name → text = text') := ⟨h.kind, h.name⟩
  obtain ⟨opened, pending, next⟩ := s
  cases kind with
  | name =>
      obtain rfl := hname rfl
      rcases opened with _ | ⟨⟨outer, _ | call⟩, opened⟩ <;> cases next <;> rfl
  | _ =>
      rcases opened with _ | ⟨⟨outer, _ | call⟩, opened⟩ <;>
        rcases next with (_ | _) | _ | _ | _ <;> rfl

theorem foldlM_step_of_alike {ts us : List Token} (h : List.Forall₂ Token.Alike ts us)
    (s : Reading) : (ts.foldlM step s).toOption = (us.foldlM step s).toOption := by
  induction h generalizing s with
  | nil => rfl
  | cons htu _ ih =>
      simp only [List.foldlM_cons, toOption_bind, step_of_alike s htu, ih]

theorem finish_toOption (s : Reading) (column column' : Nat) :
    (s.finish column).toOption = (s.finish column').toOption := by
  obtain ⟨_ | ⟨o, opened⟩, pending, next⟩ := s <;> cases next <;> rfl

end Reading

/-- Tokens that are alike spell the same formula, or both none. -/
theorem Formula.ofTokens_of_alike {ts us : List Token} (h : List.Forall₂ Token.Alike ts us)
    (column column' : Nat) :
    (Formula.ofTokens ts column).toOption = (Formula.ofTokens us column').toOption := by
  cases h with
  | nil => rfl
  | cons htu htus =>
      simp only [ofTokens, toOption_bind, Reading.foldlM_step_of_alike (.cons htu htus),
        Reading.finish_toOption _ column column']

theorem Formula.ofTokens_of_bare {ts : List Token} {column : Nat} {f : Formula}
    (h : Formula.ofTokens (ts.map Token.bare) column = .ok f) :
    Formula.ofTokens ts column = .ok f := by
  have halike : List.Forall₂ Token.Alike ts (ts.map Token.bare) :=
    List.forall₂_map_right_iff.2 (List.forall₂_same.2 fun t _ => t.alike_bare)
  rw [← toOption_eq_some] at h ⊢
  rw [ofTokens_of_alike halike column column, h]

/-- Reading the text of a formula gives that formula back. -/
theorem Formula.parse_of_readable {f : Formula} (hf : f.Readable) :
    Formula.parse f.render = .ok f := by
  have hscans := Formula.scanned hf [] [] endsWord_nil .nil
  rw [List.append_nil, List.append_nil] at hscans
  obtain ⟨found, hfound, hbare⟩ := hscans.atColumn 1
  refine bind_eq_ok.2 ⟨found, hfound, ofTokens_of_bare ?_⟩
  rw [hbare]
  exact ofTokens_of_derives (spelled hf).whole _

/-! ## Only formulas that can be read are the outcome of reading -/

/-- What tokens derive can be read, if their names are. -/
theorem Derives.readable {phrase : Phrase} {ts : List Token} {f : Formula} (h : Derives phrase ts f)
    (hts : ∀ t ∈ ts, t.kind = .name → IsName t.text) : f.Readable := by
  induction h with
  | iffOfImplies _ ih | impliesOfOr _ ih | orOfAnd _ ih | andOfUnary _ ih | unaryOfQuantifier _ ih
  | unaryOfAtom _ ih => exact ih hts
  | iff _ _ _ ihl ihr | implies _ _ _ ihl ihr | or _ _ _ ihl ihr | and _ _ _ ihl ihr =>
      obtain ⟨hl, hr⟩ := List.forall_mem_append.1 hts
      exact Formula.readable_binary.2 ⟨ihl hl, ihr (List.forall_mem_cons.1 hr).2⟩
  | neg _ _ ih => exact Formula.readable_neg.2 (ih (List.forall_mem_cons.1 hts).2)
  | quant _ hn _ ih =>
      simp only [List.forall_mem_cons] at hts
      obtain ⟨_, hname, hbody⟩ := hts
      exact Formula.readable_quant.2 ⟨hname hn, ih hbody⟩
  | quantSeparated _ hn _ _ ih =>
      simp only [List.forall_mem_cons] at hts
      obtain ⟨_, hname, _, hbody⟩ := hts
      exact Formula.readable_quant.2 ⟨hname hn, ih hbody⟩
  | top => exact Formula.readable_top
  | bottom => exact Formula.readable_bottom
  | name hn => exact Formula.readable_app.2 ⟨hts _ (List.mem_singleton_self _) hn, nofun⟩
  | application _ _ ih => exact ih (List.forall_mem_append.1 hts).1
  | bracketed _ _ _ ih => exact ih (List.forall_mem_append.1 (List.forall_mem_cons.1 hts).2).1
  | firstArgument hn _ _ ih =>
      simp only [List.forall_mem_cons] at hts
      obtain ⟨hname, _, harg⟩ := hts
      exact Formula.readable_app.2 ⟨hname hn, List.forall_mem_singleton.2 (ih harg)⟩
  | nextArgument _ _ _ ihcall ih =>
      obtain ⟨hcall, harg⟩ := List.forall_mem_append.1 hts
      obtain ⟨hname, hargs⟩ := Formula.readable_app.1 (ihcall hcall)
      have harg := ih (List.forall_mem_cons.1 harg).2
      exact Formula.readable_app.2
        ⟨hname, List.forall_mem_append.2 ⟨hargs, List.forall_mem_singleton.2 harg⟩⟩

/-- A formula that has been read can be read again. -/
theorem Formula.readable_of_parse {text : String} {f : Formula} (h : Formula.parse text = .ok f) :
    f.Readable := by
  obtain ⟨tokens, hscan, htokens⟩ := bind_eq_ok.1 h
  exact (derives_of_ofTokens htokens).readable (isName_of_scan hscan)

/-! ## Identifiers -/

/-- The characters `[A-Za-z_]`. -/
def IsLetter (c : Char) : Prop := ('A' ≤ c ∧ c ≤ 'Z') ∨ ('a' ≤ c ∧ c ≤ 'z') ∨ c = '_'

/-- The characters `[A-Za-z0-9_']`. -/
def IsLetterOrDigit (c : Char) : Prop :=
  IsLetter c ∨ ('0' ≤ c ∧ c ≤ '9') ∨ c = Text.singleQuote

/-- The texts `[A-Za-z_][A-Za-z0-9_']*` but for the two keywords. -/
structure IsIdentifier (name : String) : Prop where
  letters : ∃ c cs, name.toList = c :: cs ∧ IsLetter c ∧ ∀ x ∈ cs, IsLetterOrDigit x
  ne_forall : name ≠ "forall"
  ne_exists : name ≠ "exists"

theorem isNameStart_iff {c : Char} : isNameStart c = true ↔ IsLetter c := by
  change (decide (65 ≤ c.val ∧ c.val ≤ 90) || decide (97 ≤ c.val) && decide (c.val ≤ 122)
    || c == '_') = true ↔ (65 ≤ c.val ∧ c.val ≤ 90) ∨ (97 ≤ c.val ∧ c.val ≤ 122) ∨ c = '_'
  simp only [Bool.or_eq_true, Bool.and_eq_true, decide_eq_true_eq, beq_iff_eq, or_assoc]

theorem isNameChar_iff {c : Char} : isNameChar c = true ↔ IsLetterOrDigit c := by
  have hstart := isNameStart_iff (c := c)
  unfold isNameStart at hstart
  change ((c.isAlpha || decide (48 ≤ c.val) && decide (c.val ≤ 57)) || c == '_'
    || c == Text.singleQuote) = true ↔
      IsLetter c ∨ (48 ≤ c.val ∧ c.val ≤ 57) ∨ c = Text.singleQuote
  rw [← hstart]
  simp only [Bool.or_eq_true, Bool.and_eq_true, decide_eq_true_eq, beq_iff_eq]
  tauto

instance (name : String) : Decidable (IsIdentifier name) :=
  decidable_of_iff (name.toList.head?.any isNameStart = true ∧
      name.toList.tail.all isNameChar = true ∧ name ≠ "forall" ∧ name ≠ "exists") <| by
    constructor
    · rintro ⟨hhead, htail, hall, hex⟩
      refine ⟨?_, hall, hex⟩
      cases hchars : name.toList with
      | nil => simp [hchars] at hhead
      | cons c cs =>
          rw [hchars] at hhead htail
          exact ⟨c, cs, rfl, isNameStart_iff.1 hhead,
            fun x hx => isNameChar_iff.1 (List.all_eq_true.1 htail x hx)⟩
    · rintro ⟨⟨c, cs, hname, hc, hcs⟩, hall, hex⟩
      rw [hname]
      exact ⟨isNameStart_iff.2 hc,
        List.all_eq_true.2 fun x hx => isNameChar_iff.2 (hcs x hx), hall, hex⟩

theorem wordKind_eq_name_iff {word : String} :
    wordKind word = .name ↔ word ≠ "forall" ∧ word ≠ "exists" := by
  unfold wordKind
  split
  · next h => simp [h]
  · next h =>
      split
      · next h' => simp [h']
      · next h' => simp [h, h']

/-- The names are the identifiers. -/
theorem isName_iff {name : String} : IsName name ↔ IsIdentifier name := by
  constructor
  · rintro ⟨⟨c, cs, hname, hc, hcs⟩, hkind⟩
    obtain ⟨hall, hex⟩ := wordKind_eq_name_iff.1 hkind
    exact ⟨⟨c, cs, hname, isNameStart_iff.1 hc, fun x hx => isNameChar_iff.1 (hcs x hx)⟩, hall, hex⟩
  · rintro ⟨⟨c, cs, hname, hc, hcs⟩, hall, hex⟩
    exact ⟨⟨c, cs, hname, isNameStart_iff.2 hc, fun x hx => isNameChar_iff.2 (hcs x hx)⟩,
      wordKind_eq_name_iff.2 ⟨hall, hex⟩⟩

namespace Formula

/-- The name at the root of a formula. -/
def rootName? : Formula → Option String
  | .app name _ | .quant _ name _ => some name
  | .top | .bottom | .neg _ | .binary .. | .hole _ => none

/-- All names in a formula: those of its variables, predicates and quantifiers. -/
def names (f : Formula) : List String := f.subformulas.filterMap rootName?

theorem rootReadable_iff {f : Formula} :
    f.RootReadable ↔ f.isHole = false ∧ ∀ name, f.rootName? = some name → IsIdentifier name := by
  cases f <;> simp [RootReadable, isHole, rootName?, isName_iff]

/-- The formulas that can be read are those without holes whose names are identifiers. -/
theorem readable_iff {f : Formula} :
    f.Readable ↔ f.hasHoles = false ∧ ∀ name ∈ f.names, IsIdentifier name := by
  simp only [Readable, rootReadable_iff, hasHoles, List.any_eq_false, Bool.not_eq_true, names,
    List.mem_filterMap]
  constructor
  · intro h
    refine ⟨fun g hg => (h g hg).1, ?_⟩
    rintro name ⟨g, hg, hname⟩
    exact (h g hg).2 name hname
  · rintro ⟨hholes, hnames⟩ g hg
    exact ⟨hholes g hg, fun name hname => hnames name ⟨g, hg, hname⟩⟩

/-- Reading undoes rendering on the formulas without holes whose names are identifiers, and no other
    formulas are read. So rendering what has been read is a normal form. -/
theorem parse_render :
    (∀ f : Formula, f.hasHoles = false → (∀ name ∈ f.names, IsIdentifier name) →
      parse f.render = .ok f) ∧
    ∀ (text : String) (f : Formula), parse text = .ok f →
      f.hasHoles = false ∧ (∀ name ∈ f.names, IsIdentifier name) ∧ parse f.render = .ok f := by
  constructor
  · intro f hholes hnames
    exact parse_of_readable (readable_iff.2 ⟨hholes, hnames⟩)
  · intro text f h
    have hf := readable_of_parse h
    obtain ⟨hholes, hnames⟩ := readable_iff.1 hf
    exact ⟨hholes, hnames, parse_of_readable hf⟩

theorem parse_render_nested :
    parse "P(forall _, (_ | ~exists x', ⊥), y <-> ⊤)" = .ok (.app "P"
      [.quant .all "_" (.or (.var "_") (.neg (.quant .ex "x'" .bottom))), .iff (.var "y") .top]) ∧
    parse "P(forall _, _, ~~Q)" = parse "P(∀_ _,((¬(~ Q) )) )" := by
  refine ⟨parse_render.1 (.app "P" [.quant .all "_" (.or (.var "_")
    (.neg (.quant .ex "x'" .bottom))), .iff (.var "y") .top]) (by decide) (by decide), ?_⟩
  have hread : parse "P(∀_ _,((¬(~ Q) )) )" =
      .ok (.app "P" [.quant .all "_" (.var "_"), .neg (.neg (.var "Q"))]) := by
    rfl
  rw [hread]
  exact (parse_render.2 _ _ hread).2.2

end Formula

end Deduction
