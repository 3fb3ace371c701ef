import Deduction.Proofs.ParseErrors

set_option autoImplicit false

/-! # Spelling and spacing

Tokens that are written with blanks between them are cut out of the text as they were written,
whatever the spellings and the blanks are: a spelling is found wherever it starts, and a word ends
at a blank. What is read depends on the kinds of the tokens and on the names, so the same tokens in
other spellings and with other blanks are read as the same formula.

The blanks are needed. Without them `_`, `|` and `_` are one token. -/

namespace Deduction

/-! ## Written tokens -/

/-- The ways to write a token of some kind: its fixed spellings, the keyword of a quantifier, and any
    name. -/
inductive Spells : String → TokenKind → Prop
  | fixed {word : String} {kind : TokenKind} (h : (word.toList, kind) ∈ spellings) : Spells word kind
  | all : Spells "forall" .all
  | ex : Spells "exists" .ex
  | name {word : String} (h : IsName word) : Spells word .name

/-- A token as it is written, with the blanks behind it. -/
structure SpacedToken where
  kind : TokenKind
  word : String
  gap : String
  spelled : Spells word kind
  blank : gap.toList.all Text.isBlank = true

/-- Tokens that are written with blanks between them. Before the first and behind the last one there
    may be blanks as well. -/
structure SpacedText where
  margin : String
  tokens : List SpacedToken
  blank : margin.toList.all Text.isBlank = true
  separated : ∀ t ∈ tokens.dropLast, t.gap ≠ ""

/-- The token without its place in the text. -/
def SpacedToken.token (t : SpacedToken) : Token := ⟨t.kind, t.word, 0⟩

def SpacedText.text (s : SpacedText) : String :=
  s.margin ++ String.join (s.tokens.map fun t => t.word ++ t.gap)

/-- The texts have the same tokens in the same order, up to their spelling. -/
def SpacedText.Alike (s s' : SpacedText) : Prop :=
  List.Forall₂ (fun t t' => t.token.Alike t'.token) s.tokens s'.tokens

/-! ## Scanning -/

theorem endsWord_blanks {gap : List Char} (hgap : ∀ c ∈ gap, Text.isBlank c = true)
    (rest : List Char) (hrest : gap = [] → rest = []) : EndsWord (gap ++ rest) := by
  cases gap with
  | nil =>
      rw [hrest rfl]
      exact endsWord_nil
  | cons x gap =>
      have hx := hgap x (List.mem_cons_self ..)
      rintro c ⟨⟩
      constructor
      · rw [Bool.eq_false_iff]
        intro hname
        rw [isBlank_of_isNameChar hname] at hx
        cases hx
      · rintro rfl
        exact absurd hx (by decide)

/-- A written token is cut off a text that no word goes on with. -/
theorem Spells.scans {word : String} {kind : TokenKind} (h : Spells word kind) {rest : List Char}
    {tokens : List Token} (hrest : EndsWord rest) (hscan : Scans rest tokens) :
    Scans (word.toList ++ rest) (⟨kind, word, 0⟩ :: tokens) := by
  cases h with
  | fixed h => exact hscan.spelled word kind h
  | all => exact hscan.keyword .all hrest
  | ex => exact hscan.keyword .ex hrest
  | name h => exact hscan.name h hrest

theorem scans_spaced {tokens : List SpacedToken} (h : ∀ t ∈ tokens.dropLast, t.gap ≠ "") :
    Scans (String.join (tokens.map fun t => t.word ++ t.gap)).toList
      (tokens.map SpacedToken.token) := by
  induction tokens with
  | nil => exact .nil
  | cons t tokens ih =>
      have htokens : ∀ t' ∈ tokens.dropLast, t'.gap ≠ "" := by
        cases tokens with
        | nil => exact nofun
        | cons u us => exact (List.forall_mem_cons.1 h).2
      have hlast : t.gap.toList = [] → tokens = [] := by
        intro hgap
        cases tokens with
        | nil => rfl
        | cons u us => exact absurd (String.toList_eq_nil_iff.1 hgap) (h t (List.mem_cons_self ..))
      have hrest := (ih htokens).blanks (List.all_eq_true.1 t.blank)
      have hends : EndsWord (t.gap.toList ++
          (String.join (tokens.map fun t => t.word ++ t.gap)).toList) := by
        refine endsWord_blanks (List.all_eq_true.1 t.blank) _ fun hgap => ?_
        rw [hlast hgap]
        rfl
      have hchars : (String.join ((t :: tokens).map fun t => t.word ++ t.gap)).toList =
          t.word.toList ++ (t.gap.toList ++
            (String.join (tokens.map fun t => t.word ++ t.gap)).toList) := by
        simp [String.toList_join]
      rw [hchars]
      exact t.spelled.scans hends hrest

namespace SpacedText

/-- The text is cut into the tokens that were written. -/
theorem exists_scan (s : SpacedText) :
    ∃ ts, Token.scan s.text = .ok ts ∧ ts.map Token.bare = s.tokens.map SpacedToken.token := by
  have hscan := (scans_spaced s.separated).blanks (List.all_eq_true.1 s.blank)
  rw [← String.toList_append] at hscan
  exact hscan.atColumn 1

/-- Tokens that are written with blanks between them are cut out of the text as they were written, and
    behind them comes the mark of the end. So texts with the same tokens, however they are spelled and
    spaced, are read as the same formula, or none of them is one. -/
theorem reads_alike :
    (∀ s : SpacedText, ∃ tokens, Token.scanToEnd s.text = .ok tokens ∧
      tokens.map (fun t => (t.kind, t.text)) =
        s.tokens.map (fun t => (t.kind, t.word)) ++ [(.endOfText, "")]) ∧
    ∀ s s' : SpacedText, s.Alike s' → Formula.parse? s.text = Formula.parse? s'.text := by
  constructor
  · intro s
    obtain ⟨ts, hscan, hbare⟩ := s.exists_scan
    refine ⟨ts ++ [Token.endOf s.text], bind_eq_ok.2 ⟨ts, hscan, rfl⟩, ?_⟩
    have hwritten := congrArg (List.map fun t : Token => (t.kind, t.text)) hbare
    rw [List.map_map, List.map_map] at hwritten
    rw [List.map_append]
    exact congrArg (· ++ [(TokenKind.endOfText, "")]) hwritten
  · intro s s' halike
    obtain ⟨ts, hscan, hbare⟩ := s.exists_scan
    obtain ⟨ts', hscan', hbare'⟩ := s'.exists_scan
    have hts : List.Forall₂ Token.Alike ts ts' := by
      have htokens : List.Forall₂ Token.Alike (ts.map Token.bare) (ts'.map Token.bare) := by
        rw [hbare, hbare', List.forall₂_map_left_iff, List.forall₂_map_right_iff]
        exact halike
      rw [List.forall₂_map_left_iff, List.forall₂_map_right_iff] at htokens
      exact htokens.imp fun t u h => ⟨h.kind, h.name⟩
    rw [Formula.parse?, Formula.parse?, Formula.parse_of_scan hscan, Formula.parse_of_scan hscan']
    exact Formula.ofTokens_of_alike hts _ _

/-- Both texts have the tokens of `∀x (_ | ⊥)`, in which `_` is a name. -/
theorem reads_alike_respelled :
    ∃ s s' : SpacedText, s.text = "∀ x ( _ | _|_ )" ∧ s'.text = "\tforall  x\n( _ ∨ ⊥ ) " ∧
      (∃ tokens, Token.scanToEnd s'.text = .ok tokens ∧
        tokens.map (fun t => (t.kind, t.text)) =
          [(.all, "forall"), (.name, "x"), (.leftParen, "("), (.name, "_"), (.or, "∨"),
            (.bottom, "⊥"), (.rightParen, ")"), (.endOfText, "")]) ∧
      s.Alike s' ∧ Formula.parse? s.text = Formula.parse? s'.text ∧
      Formula.parse? s.text = some (.quant .all "x" (.or (.var "_") .bottom)) := by
  have hx : IsName "x" := isName_iff.2 (by decide)
  have hunderscore : IsName "_" := isName_iff.2 (by decide)
  let s : SpacedText := {
    margin := ""
    tokens := [⟨.all, "∀", " ", .fixed (by decide), by decide⟩, ⟨.name, "x", " ", .name hx, by decide⟩,
      ⟨.leftParen, "(", " ", .fixed (by decide), by decide⟩,
      ⟨.name, "_", " ", .name hunderscore, by decide⟩, ⟨.or, "|", " ", .fixed (by decide), by decide⟩,
      ⟨.bottom, "_|_", " ", .fixed (by decide), by decide⟩,
      ⟨.rightParen, ")", "", .fixed (by decide), by decide⟩]
    blank := by decide
    separated := by simp }
  let s' : SpacedText := {
    margin := "\t"
    tokens := [⟨.all, "forall", "  ", .all, by decide⟩, ⟨.name, "x", "\n", .name hx, by decide⟩,
      ⟨.leftParen, "(", " ", .fixed (by decide), by decide⟩,
      ⟨.name, "_", " ", .name hunderscore, by decide⟩, ⟨.or, "∨", " ", .fixed (by decide), by decide⟩,
      ⟨.bottom, "⊥", " ", .fixed (by decide), by decide⟩,
      ⟨.rightParen, ")", " ", .fixed (by decide), by decide⟩]
    blank := by decide
    separated := by simp }
  have htext : s.text = "∀ x ( _ | _|_ )" := rfl
  have htext' : s'.text = "\tforall  x\n( _ ∨ ⊥ ) " := rfl
  have halike : s.Alike s' :=
    .cons ⟨rfl, nofun⟩ <| .cons ⟨rfl, fun _ => rfl⟩ <| .cons ⟨rfl, nofun⟩ <|
      .cons ⟨rfl, fun _ => rfl⟩ <| .cons ⟨rfl, nofun⟩ <| .cons ⟨rfl, nofun⟩ <|
      .cons ⟨rfl, nofun⟩ .nil
  obtain ⟨hscan, hparse⟩ := reads_alike
  refine ⟨s, s', htext, htext', hscan s', halike, hparse s s' halike, ?_⟩
  rw [htext]
  rfl

end SpacedText

end Deduction
