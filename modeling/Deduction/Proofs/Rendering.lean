import Deduction.Formula.Printer
import Deduction.Proofs.Scanning

set_option autoImplicit false

/-! # The tokens of a rendered formula

The text of a formula is cut into the tokens that one would write down for it. This holds of the
formulas that can be read: those without holes all of whose names are read as names. -/

namespace Deduction

namespace Formula

/-! ## Formulas that can be read -/

/-- Can the outermost constructor of a formula be read? -/
def RootReadable : Formula → Prop
  | .app name _ => IsName name
  | .quant _ name _ => IsName name
  | .hole _ => False
  | .top | .bottom | .neg _ | .binary .. => True

/-- No holes, and names that are read as names. -/
def Readable (f : Formula) : Prop := ∀ g ∈ f.subformulas, g.RootReadable

@[simp] theorem readable_top : (Formula.top).Readable := by
  simp [Readable, subformulas, RootReadable]

@[simp] theorem readable_bottom : (Formula.bottom).Readable := by
  simp [Readable, subformulas, RootReadable]

@[simp] theorem not_readable_hole (i : Int) : ¬ (Formula.hole i).Readable := by
  simp [Readable, subformulas, RootReadable]

@[simp] theorem readable_app {name : String} {args : List Formula} :
    (Formula.app name args).Readable ↔ IsName name ∧ ∀ a ∈ args, a.Readable := by
  simp only [Readable, subformulas, subformulasList_eq, List.forall_mem_cons, RootReadable,
    List.mem_flatMap]
  refine and_congr_right fun _ => ⟨fun h a ha g hg => h g ⟨a, ha, hg⟩, ?_⟩
  rintro h g ⟨a, ha, hg⟩
  exact h a ha g hg

@[simp] theorem readable_neg {f : Formula} : (Formula.neg f).Readable ↔ f.Readable := by
  simp [Readable, subformulas, RootReadable]

@[simp] theorem readable_binary {op : Connective} {l r : Formula} :
    (Formula.binary op l r).Readable ↔ l.Readable ∧ r.Readable := by
  simp only [Readable, subformulas, List.forall_mem_cons, RootReadable, true_and,
    List.forall_mem_append]

@[simp] theorem readable_quant {q : Quantifier} {name : String} {body : Formula} :
    (Formula.quant q name body).Readable ↔ IsName name ∧ body.Readable := by
  simp [Readable, subformulas, RootReadable]

end Formula

/-! ## Tokens of a formula -/

namespace Token

def leftParen : Token := ⟨.leftParen, "(", 0⟩

def rightParen : Token := ⟨.rightParen, ")", 0⟩

def comma : Token := ⟨.comma, ",", 0⟩

def ofName (name : String) : Token := ⟨.name, name, 0⟩

end Token

def Connective.token : Connective → Token
  | .and => ⟨.and, "&", 0⟩
  | .or => ⟨.or, "|", 0⟩
  | .implies => ⟨.implies, "->", 0⟩
  | .iff => ⟨.iff, "<->", 0⟩

def Quantifier.token : Quantifier → Token
  | .all => ⟨.all, "forall", 0⟩
  | .ex => ⟨.ex, "exists", 0⟩

namespace Formula

/-- Puts the tokens of a binary formula in parentheses. -/
def bracketed : Formula → List Token → List Token
  | .binary .., tokens => .leftParen :: (tokens ++ [.rightParen])
  | _, tokens => tokens

mutual

/-- The tokens of the text of a formula, without their columns. -/
def tokens : Formula → List Token
  | .top => [⟨.top, "⊤", 0⟩]
  | .bottom => [⟨.bottom, "⊥", 0⟩]
  | .app name args =>
    match args with
    | [] => [.ofName name]
    | a :: as => .ofName name :: .leftParen :: (tokens a ++ (argumentTokens as ++ [.rightParen]))
  | .neg f => ⟨.not, "~", 0⟩ :: bracketed f (tokens f)
  | .binary op l r => bracketed l (tokens l) ++ op.token :: bracketed r (tokens r)
  | .quant q name body => q.token :: .ofName name :: .comma :: bracketed body (tokens body)
  | .hole _ => []

/-- The tokens of the arguments behind the first one. -/
def argumentTokens : List Formula → List Token
  | [] => []
  | a :: as => .comma :: (tokens a ++ argumentTokens as)

end

end Formula

/-! ## Scanning the text -/

theorem endsWord_nil : EndsWord [] := by
  simp [EndsWord]

theorem endsWord_spelled {spelling : String} (rest : List Char)
    (h : ∃ c ∈ spelling.toList.head?, isNameChar c = false ∧ c ≠ '|') :
    EndsWord (spelling.toList ++ rest) := by
  obtain ⟨c, hc, hends⟩ := h
  intro x hx
  rw [List.head?_append, hc] at hx
  obtain rfl : c = x := by simpa using hx
  exact hends

theorem endsWord_space (rest : List Char) : EndsWord (" ".toList ++ rest) :=
  endsWord_spelled rest ⟨' ', by decide⟩

theorem endsWord_comma (rest : List Char) : EndsWord (", ".toList ++ rest) :=
  endsWord_spelled rest ⟨',', by decide⟩

theorem endsWord_leftParen (rest : List Char) : EndsWord ("(".toList ++ rest) :=
  endsWord_spelled rest ⟨'(', by decide⟩

theorem endsWord_rightParen (rest : List Char) : EndsWord (")".toList ++ rest) :=
  endsWord_spelled rest ⟨')', by decide⟩

theorem Scans.leftParen {rest : List Char} {ts : List Token} (h : Scans rest ts) :
    Scans ("(".toList ++ rest) (.leftParen :: ts) := h.spelled "(" .leftParen (by decide)

theorem Scans.rightParen {rest : List Char} {ts : List Token} (h : Scans rest ts) :
    Scans (")".toList ++ rest) (.rightParen :: ts) := h.spelled ")" .rightParen (by decide)

theorem Scans.comma {rest : List Char} {ts : List Token} (h : Scans rest ts) :
    Scans (", ".toList ++ rest) (.comma :: ts) := h.blank.spelled "," .comma (by decide)

theorem Scans.name {name : String} (hname : IsName name) {rest : List Char} {ts : List Token}
    (hrest : EndsWord rest) (h : Scans rest ts) :
    Scans (name.toList ++ rest) (.ofName name :: ts) := by
  have hscan := h.word hname.word hrest
  rw [hname.kind] at hscan
  exact hscan

theorem Scans.symbol (op : Connective) {rest : List Char} {ts : List Token} (h : Scans rest ts) :
    Scans (op.symbol.toList ++ rest) (op.token :: ts) := by
  cases op with
  | and => exact h.spelled "&" .and (by decide)
  | or => exact h.spelled "|" .or (by decide)
  | implies => exact h.spelled "->" .implies (by decide)
  | iff => exact h.spelled "<->" .iff (by decide)

theorem Scans.keyword (q : Quantifier) {rest : List Char} {ts : List Token} (hrest : EndsWord rest)
    (h : Scans rest ts) : Scans (q.keyword.toList ++ rest) (q.token :: ts) := by
  cases q with
  | all => exact h.word ⟨'f', "orall".toList, rfl, rfl, List.all_eq_true.1 rfl⟩ hrest
  | ex => exact h.word ⟨'e', "xists".toList, rfl, rfl, List.all_eq_true.1 rfl⟩ hrest

theorem toList_commaSeparated (text : String) (texts : List String) :
    (commaSeparated (text :: texts)).toList
      = text.toList ++ texts.flatMap fun t => ", ".toList ++ t.toList := by
  induction texts generalizing text with
  | nil => simp [commaSeparated]
  | cons t texts ih =>
      have htail := ih t
      simp only [commaSeparated, String.toList_intercalate, List.map_cons] at htail ⊢
      simp only [List.intercalate, List.intersperse, List.flatten_cons, List.flatMap_cons] at htail ⊢
      rw [htail]
      rfl

namespace Formula

/-- The text of the formula is cut into its tokens, whatever follows. -/
def Scanned (f : Formula) : Prop :=
  ∀ (rest : List Char) (ts : List Token), EndsWord rest → Scans rest ts →
    Scans (f.render.toList ++ rest) (f.tokens ++ ts)

/-- In parentheses, if the formula is binary. -/
theorem Scanned.operand {f : Formula} (hf : f.Scanned) {rest : List Char} {ts : List Token}
    (hrest : EndsWord rest) (h : Scans rest ts) :
    Scans ((f.parenthesize f.render).toList ++ rest) (f.bracketed f.tokens ++ ts) := by
  cases f with
  | binary op l r =>
      have hinner := hf _ _ (endsWord_rightParen rest) h.rightParen
      simpa [parenthesize, bracketed] using hinner.leftParen
  | _ => exact hf rest ts hrest h

theorem scans_arguments {as : List Formula} (has : ∀ a ∈ as, a.Scanned) {rest : List Char}
    {ts : List Token} (hrest : EndsWord rest) (h : Scans rest ts) :
    EndsWord (as.flatMap (fun a => ", ".toList ++ a.render.toList) ++ rest) ∧
      Scans (as.flatMap (fun a => ", ".toList ++ a.render.toList) ++ rest)
        (argumentTokens as ++ ts) := by
  induction as with
  | nil => exact ⟨hrest, h⟩
  | cons a as ih =>
      obtain ⟨hends, hscans⟩ := ih fun a' ha' => has a' (List.mem_cons_of_mem _ ha')
      have ha := has a (List.mem_cons_self ..) _ _ hends hscans
      simp only [List.flatMap_cons, List.append_assoc, argumentTokens, List.cons_append]
      exact ⟨endsWord_comma _, ha.comma⟩

/-- The text of a formula that can be read is cut into its tokens. -/
theorem scanned {f : Formula} (hf : f.Readable) : f.Scanned := by
  induction f with
  | top => exact fun rest ts _ h => h.spelled "⊤" .top (by decide)
  | bottom => exact fun rest ts _ h => h.spelled "⊥" .bottom (by decide)
  | app name args ih =>
      intro rest ts hrest h
      obtain ⟨hname, hargs⟩ := readable_app.1 hf
      cases args with
      | nil => exact .name hname hrest h
      | cons a as =>
          obtain ⟨hends, hscans⟩ := scans_arguments
            (fun b hb => ih b (List.mem_cons_of_mem _ hb) (hargs b (List.mem_cons_of_mem _ hb)))
            (endsWord_rightParen rest) h.rightParen
          have ha := ih a (List.mem_cons_self ..) (hargs a (List.mem_cons_self ..)) _ _ hends hscans
          have hscan := Scans.name hname (endsWord_leftParen _) ha.leftParen
          simpa [render, tokens, renderList_eq, toList_commaSeparated, List.flatMap_map] using hscan
  | neg f ih =>
      intro rest ts hrest h
      have hoperand := (ih (readable_neg.1 hf)).operand hrest h
      simpa [render, tokens] using hoperand.spelled "~" .not (by decide)
  | binary op l r ihl ihr =>
      intro rest ts hrest h
      obtain ⟨hl, hr⟩ := readable_binary.1 hf
      have hright := ((ihr hr).operand hrest h).blank.symbol op
      have hscan := (ihl hl).operand (endsWord_space _) hright.blank
      simpa [render, tokens] using hscan
  | quant q name body ih =>
      intro rest ts hrest h
      obtain ⟨hname, hbody⟩ := readable_quant.1 hf
      have hinner := ((ih hbody).operand hrest h).comma
      have hscan := (Scans.name hname (endsWord_comma _) hinner).blank.keyword q (endsWord_space _)
      simpa [render, tokens] using hscan
  | hole i => exact absurd hf (not_readable_hole i)

end Formula

end Deduction
