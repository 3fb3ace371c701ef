import Deduction.Proofs.Outcome
import Deduction.Token
import Mathlib.Data.List.TakeWhile

set_option autoImplicit false

/-! # Cutting texts into tokens

What the scanner makes of a text that is put together from spellings, names and blanks: the tokens one
would write down for it. A name ends only where no character that could continue it follows. -/

namespace Deduction

/-! ## Tokens without columns -/

/-- The token without its place in the text. -/
def Token.bare (t : Token) : Token := { t with column := 0 }

theorem scanFrom_skip (column skip : Nat) (cs : List Char) :
    scanFrom column skip cs = scanFrom (column + skip) 0 (cs.drop skip) := by
  induction cs generalizing column skip with
  | nil => simp [scanFrom]
  | cons c cs ih =>
      cases skip with
      | zero => rfl
      | succ skip =>
          rw [scanFrom, ih, List.drop_succ_cons]
          congr 1
          omega

/-- The tokens behind a lexeme are those of the text behind it. -/
theorem scanFrom_lexeme {w rest : List Char} {kind : Option TokenKind} (column : Nat) (hw : w ≠ [])
    (h : lexeme? (w ++ rest) = some ⟨kind, w⟩) :
    scanFrom column 0 (w ++ rest) = (do
      let tokens ← scanFrom (column + w.length) 0 rest
      return ((Lexeme.mk kind w).toToken? column).toList ++ tokens) := by
  cases w with
  | nil => exact absurd rfl hw
  | cons c w =>
      have hdrop : (w ++ rest).drop w.length = rest := List.drop_left
      rw [List.cons_append] at h ⊢
      rw [scanFrom, h]
      simp only [List.length_cons, Nat.add_sub_cancel]
      rw [scanFrom_skip, hdrop, Nat.add_assoc, Nat.add_comm 1]

/-- Where a text starts has no influence on its tokens, their places apart. -/
theorem scanFrom_column {column skip : Nat} {cs : List Char} {tokens : List Token}
    (h : scanFrom column skip cs = .ok tokens) (column' : Nat) :
    ∃ tokens', scanFrom column' skip cs = .ok tokens' ∧
      tokens'.map Token.bare = tokens.map Token.bare := by
  induction cs generalizing column skip tokens column' with
  | nil => exact ⟨tokens, h, rfl⟩
  | cons c cs ih =>
      cases skip with
      | succ skip => exact ih h (column' + 1)
      | zero =>
          rw [scanFrom] at h ⊢
          split at h
          · exact absurd h (by simp)
          · next lexeme hlexeme =>
              obtain ⟨rest, hrest, h⟩ := bind_eq_ok.1 h
              obtain rfl := pure_eq_ok.1 h
              obtain ⟨rest', hrest', hbare⟩ := ih hrest (column' + 1)
              refine ⟨_, bind_eq_ok.2 ⟨rest', hrest', rfl⟩, ?_⟩
              rw [List.map_append, List.map_append, hbare]
              cases hkind : lexeme.kind? <;> simp [Lexeme.toToken?, hkind, Token.bare]

/-- The text is cut into the given tokens. -/
def Scans (cs : List Char) (tokens : List Token) : Prop :=
  ∃ column found, scanFrom column 0 cs = .ok found ∧ found.map Token.bare = tokens

namespace Scans

variable {w rest : List Char} {tokens : List Token}

theorem atColumn (h : Scans rest tokens) (column : Nat) :
    ∃ found, scanFrom column 0 rest = .ok found ∧ found.map Token.bare = tokens := by
  obtain ⟨column', found', hfound', rfl⟩ := h
  exact scanFrom_column hfound' column

theorem nil : Scans [] [] := ⟨1, [], rfl, rfl⟩

theorem token (h : Scans rest tokens) {kind : TokenKind} (hw : w ≠ [])
    (hlexeme : lexeme? (w ++ rest) = some ⟨some kind, w⟩) :
    Scans (w ++ rest) (⟨kind, String.ofList w, 0⟩ :: tokens) := by
  obtain ⟨found, hfound, rfl⟩ := h.atColumn (1 + w.length)
  refine ⟨1, ⟨kind, String.ofList w, 1⟩ :: found, ?_, rfl⟩
  rw [scanFrom_lexeme 1 hw hlexeme]
  exact bind_eq_ok.2 ⟨found, hfound, rfl⟩

end Scans

/-! ## Spellings -/

theorem spellings_nonempty : ∀ s ∈ spellings, s.1 ≠ [] := by
  decide

theorem spellings_apart : ∀ s ∈ spellings, ∀ s' ∈ spellings,
    s.1.isPrefixOf s'.1 = true ∨ s'.1.isPrefixOf s.1 = true → s = s' := by
  decide

/-- A spelling is found whatever follows it. -/
theorem lexeme?_spelling {spelling : List Char} {kind : TokenKind}
    (h : (spelling, kind) ∈ spellings) (rest : List Char) :
    lexeme? (spelling ++ rest) = some ⟨some kind, spelling⟩ := by
  have hprefix : spelling.isPrefixOf (spelling ++ rest) = true :=
    List.isPrefixOf_iff_prefix.2 (List.prefix_append _ _)
  have hfind : spellings.find? (fun s => s.1.isPrefixOf (spelling ++ rest)) =
      some (spelling, kind) := by
    cases hfound : spellings.find? fun s => s.1.isPrefixOf (spelling ++ rest) with
    | none => exact absurd hprefix (List.find?_eq_none.1 hfound _ h)
    | some s =>
        have hs : s.1.isPrefixOf (spelling ++ rest) = true := by simpa using List.find?_some hfound
        have hor := List.prefix_or_prefix_of_prefix (List.isPrefixOf_iff_prefix.1 hs)
          (List.prefix_append spelling rest)
        rw [← List.isPrefixOf_iff_prefix, ← List.isPrefixOf_iff_prefix] at hor
        rw [spellings_apart s (List.mem_of_find?_eq_some hfound) (spelling, kind) h hor]
  cases hchars : spelling ++ rest with
  | nil =>
      exact absurd (List.append_eq_nil_iff.1 hchars).1 (spellings_nonempty _ h)
  | cons c cs =>
      rw [hchars] at hfind
      rw [lexeme?, hfind]

theorem Scans.spelled {rest : List Char} {tokens : List Token} (h : Scans rest tokens)
    (spelling : String) (kind : TokenKind) (hspelling : (spelling.toList, kind) ∈ spellings) :
    Scans (spelling.toList ++ rest) (⟨kind, spelling, 0⟩ :: tokens) := by
  have hscan := h.token (spellings_nonempty _ hspelling) (lexeme?_spelling hspelling rest)
  rw [String.ofList_toList] at hscan
  exact hscan

theorem no_spelling {c : Char} {cs : List Char}
    (h : ∀ xs kind, (c :: xs, kind) ∈ spellings → ¬ xs <+: cs) :
    spellings.find? (fun s => s.1.isPrefixOf (c :: cs)) = none := by
  refine List.find?_eq_none.2 fun s hs hprefix => ?_
  obtain ⟨chars, kind⟩ := s
  cases chars with
  | nil => exact spellings_nonempty _ hs rfl
  | cons x xs =>
      rw [List.isPrefixOf_iff_prefix, List.cons_prefix_cons] at hprefix
      obtain ⟨rfl, hprefix⟩ := hprefix
      exact h xs kind hs hprefix

/-! ## Blanks -/

theorem lexeme?_blank {c : Char} (hc : Text.isBlank c = true) (cs : List Char) :
    lexeme? (c :: cs) = some ⟨none, c :: cs.takeWhile Text.isBlank⟩ := by
  have hfirst : ∀ s ∈ spellings, s.1.head?.any Text.isBlank = false := by decide
  have hnone : spellings.find? (fun s => s.1.isPrefixOf (c :: cs)) = none := by
    refine no_spelling fun xs kind hmem _ => ?_
    exact absurd (hfirst _ hmem) (by simp [hc])
  rw [lexeme?, hnone]
  simp [hc]

/-- Blanks at the front are passed over. -/
theorem scanFrom_blank {c : Char} (hc : Text.isBlank c = true) (column : Nat) (cs : List Char) :
    ∃ column', scanFrom column 0 (c :: cs) = scanFrom column' 0 (cs.dropWhile Text.isBlank) := by
  have hlexeme := lexeme?_blank hc cs
  have hsplit : c :: cs = (c :: cs.takeWhile Text.isBlank) ++ cs.dropWhile Text.isBlank := by
    rw [List.cons_append, List.takeWhile_append_dropWhile]
  refine ⟨column + (c :: cs.takeWhile Text.isBlank).length, ?_⟩
  nth_rewrite 1 [hsplit]
  rw [scanFrom_lexeme column (List.cons_ne_nil _ _) (by rw [← hsplit]; exact hlexeme)]
  cases scanFrom (column + (c :: cs.takeWhile Text.isBlank).length) 0
    (cs.dropWhile Text.isBlank) <;> rfl

/-- Blanks in front of a text do not change its tokens. -/
theorem Scans.blanks {gap rest : List Char} {tokens : List Token} (h : Scans rest tokens)
    (hgap : ∀ c ∈ gap, Text.isBlank c = true) : Scans (gap ++ rest) tokens := by
  induction gap with
  | nil => exact h
  | cons c gap ih =>
      obtain ⟨hc, hgap⟩ := List.forall_mem_cons.1 hgap
      have hscan := ih hgap
      rw [List.cons_append]
      generalize gap ++ rest = cs at hscan
      have hdrop : Scans (cs.dropWhile Text.isBlank) tokens := by
        cases cs with
        | nil => exact hscan
        | cons x cs =>
            by_cases hx : Text.isBlank x = true
            · obtain ⟨column, found, hfound, hbare⟩ := hscan
              obtain ⟨column', hblank⟩ := scanFrom_blank hx column cs
              rw [List.dropWhile_cons_of_pos hx]
              exact ⟨column', found, hblank ▸ hfound, hbare⟩
            · rw [List.dropWhile_cons_of_neg hx]
              exact hscan
      obtain ⟨column', hblank⟩ := scanFrom_blank hc 1 cs
      obtain ⟨found, hfound, hbare⟩ := hdrop.atColumn column'
      exact ⟨1, found, hblank.trans hfound, hbare⟩

theorem Scans.blank {rest : List Char} {tokens : List Token} (h : Scans rest tokens) :
    Scans (' ' :: rest) tokens :=
  h.blanks (List.forall_mem_singleton.2 (by decide))

/-! ## Words -/

/-- A text that is read as a name. -/
structure IsName (name : String) : Prop where
  word : ∃ c cs, name.toList = c :: cs ∧ isNameStart c = true ∧ ∀ x ∈ cs, isNameChar x = true
  kind : wordKind name = .name

/-- No word goes on with this text. -/
def EndsWord (rest : List Char) : Prop := ∀ c ∈ rest.head?, isNameChar c = false ∧ c ≠ '|'

theorem isNameChar_of_isNameStart {c : Char} (h : isNameStart c = true) : isNameChar c = true := by
  simp only [isNameStart, isNameChar, Char.isAlphanum, Bool.or_eq_true] at h ⊢
  exact .inl (h.imp_left .inl)

theorem isBlank_of_isNameChar {c : Char} (h : isNameChar c = true) : Text.isBlank c = false := by
  change ((decide (65 ≤ c.val ∧ c.val ≤ 90) || decide (97 ≤ c.val) && decide (c.val ≤ 122))
    || decide (48 ≤ c.val) && decide (c.val ≤ 57) || c == '_' || c == Text.singleQuote) = true at h
  simp only [Bool.or_eq_true, Bool.and_eq_true, decide_eq_true_eq, UInt32.le_iff_toNat_le,
    beq_iff_eq] at h
  have hcode : (65 ≤ c.toNat ∧ c.toNat ≤ 90) ∨ (97 ≤ c.toNat ∧ c.toNat ≤ 122) ∨
      (48 ≤ c.toNat ∧ c.toNat ≤ 57) ∨ c.toNat = 95 ∨ c.toNat = 39 := by
    rcases h with (((h | h) | h) | rfl) | rfl
    · exact .inl h
    · exact .inr (.inl h)
    · exact .inr (.inr (.inl h))
    · exact .inr (.inr (.inr (.inl rfl)))
    · exact .inr (.inr (.inr (.inr rfl)))
  simp only [Text.isBlank, Text.blanks, Text.Runs.has_cons, Bool.or_eq_false_iff,
    Bool.and_eq_false_iff, decide_eq_false_iff_not]
  simp only [Text.Runs.has, List.any_nil, and_true]
  omega

theorem isBlank_of_isNameStart {c : Char} (h : isNameStart c = true) : Text.isBlank c = false :=
  isBlank_of_isNameChar (isNameChar_of_isNameStart h)

/-- A word is cut off where it ends. -/
theorem lexeme?_word {c : Char} {cs rest : List Char} (hc : isNameStart c = true)
    (hcs : ∀ x ∈ cs, isNameChar x = true) (hrest : EndsWord rest) :
    lexeme? (c :: cs ++ rest) = some ⟨some (wordKind (String.ofList (c :: cs))), c :: cs⟩ := by
  -- of the spellings only `_|_` starts like a word
  have hspelling : ∀ s ∈ spellings, s.1.head?.any isNameStart = true → s.1.tail = ['|', '_'] := by
    decide
  have hnone : spellings.find? (fun s => s.1.isPrefixOf (c :: (cs ++ rest))) = none := by
    refine no_spelling fun xs kind hmem hprefix => ?_
    obtain rfl : xs = ['|', '_'] := hspelling _ hmem hc
    cases cs with
    | nil =>
        cases rest with
        | nil => exact absurd hprefix (by simp)
        | cons x rest => exact (hrest x rfl).2 (List.cons_prefix_cons.1 hprefix).1.symm
    | cons x cs =>
        have hx := hcs x (List.mem_cons_self ..)
        rw [← (List.cons_prefix_cons.1 hprefix).1] at hx
        exact absurd hx (by decide)
  have hword : (cs ++ rest).takeWhile isNameChar = cs := by
    rw [List.takeWhile_append_of_pos hcs]
    cases rest with
    | nil => simp
    | cons x rest => simp [(hrest x rfl).1]
  rw [List.cons_append, lexeme?, hnone]
  simp [isBlank_of_isNameStart hc, hc, hword]

theorem Scans.word {word : String} {rest : List Char} {tokens : List Token} (h : Scans rest tokens)
    (hword : ∃ c cs, word.toList = c :: cs ∧ isNameStart c = true ∧ ∀ x ∈ cs, isNameChar x = true)
    (hrest : EndsWord rest) : Scans (word.toList ++ rest) (⟨wordKind word, word, 0⟩ :: tokens) := by
  obtain ⟨c, cs, hchars, hc, hcs⟩ := hword
  have hlexeme := lexeme?_word hc hcs hrest
  have hscan := h.token (List.cons_ne_nil c cs) hlexeme
  rw [← hchars, String.ofList_toList] at hscan
  exact hscan

/-! ## Lexemes -/

/-- What can be a lexeme: a spelling, a run of blanks, or a word. -/
inductive Lexical : Option TokenKind → List Char → Prop
  | spelling {chars : List Char} {kind : TokenKind} (h : (chars, kind) ∈ spellings) :
      Lexical (some kind) chars
  | blanks {c : Char} {cs : List Char} (h : ∀ x ∈ c :: cs, Text.isBlank x = true) :
      Lexical none (c :: cs)
  | word {c : Char} {cs : List Char} (hc : isNameStart c = true)
      (hcs : ∀ x ∈ cs, isNameChar x = true) :
      Lexical (some (wordKind (String.ofList (c :: cs)))) (c :: cs)

theorem Lexical.ne_nil {kind : Option TokenKind} {w : List Char} (h : Lexical kind w) : w ≠ [] := by
  cases h with
  | spelling h => exact spellings_nonempty _ h
  | blanks | word => exact List.cons_ne_nil _ _

/-- The lexeme at the front of a text is one, and it stands there. -/
theorem lexical_of_lexeme? {cs : List Char} {lexeme : Lexeme} (h : lexeme? cs = some lexeme) :
    Lexical lexeme.kind? lexeme.chars ∧ lexeme.chars <+: cs := by
  cases cs with
  | nil => cases h
  | cons c cs =>
      rw [lexeme?] at h
      split at h
      · next spelling kind hfound =>
          cases h
          have hprefix : spelling.isPrefixOf (c :: cs) = true := by
            simpa using List.find?_some hfound
          exact ⟨.spelling (List.mem_of_find?_eq_some hfound),
            List.isPrefixOf_iff_prefix.1 hprefix⟩
      · split at h
        · next hc =>
            cases h
            refine ⟨.blanks (List.forall_mem_cons.2 ⟨hc, fun x => List.mem_takeWhile_imp⟩), ?_⟩
            exact (List.prefix_cons_inj c).2 (List.takeWhile_prefix _)
        · split at h
          · next hc =>
              cases h
              refine ⟨.word hc fun x => List.mem_takeWhile_imp, ?_⟩
              exact (List.prefix_cons_inj c).2 (List.takeWhile_prefix _)
          · cases h

/-- There is no lexeme at the front of a text exactly if nothing that can be one stands there. -/
theorem lexeme?_eq_none_iff {cs : List Char} :
    lexeme? cs = none ↔ ∀ kind w, Lexical kind w → ¬ w <+: cs := by
  constructor
  · rintro h kind w hw ⟨rest, rfl⟩
    cases hw with
    | spelling hmem =>
        rw [lexeme?_spelling hmem] at h
        cases h
    | blanks hblank =>
        rw [List.cons_append, lexeme?_blank (hblank _ (List.mem_cons_self ..))] at h
        cases h
    | word hc hcs =>
        rw [List.cons_append, lexeme?, isBlank_of_isNameStart hc, if_pos hc] at h
        split at h <;> cases h
  · intro h
    cases hfront : lexeme? cs with
    | none => rfl
    | some lexeme =>
        obtain ⟨hlexical, hprefix⟩ := lexical_of_lexeme? hfront
        exact absurd hprefix (h _ _ hlexical)

/-- The mark of the end is no lexeme. -/
theorem Lexical.ne_endOfText {kind : TokenKind} {w : List Char} (h : Lexical (some kind) w) :
    kind ≠ .endOfText := by
  have hkinds : ∀ s ∈ spellings, s.2 ≠ .endOfText := by decide
  cases h with
  | spelling h => exact hkinds _ h
  | word =>
      unfold wordKind
      split
      · decide
      · split <;> decide

/-- A lexeme that is a name is read as one. -/
theorem Lexical.isName {w : List Char} (h : Lexical (some .name) w) : IsName (String.ofList w) := by
  have hkinds : ∀ s ∈ spellings, s.2 ≠ .name := by decide
  generalize hkind : some TokenKind.name = kind at h
  cases h with
  | spelling h => exact absurd (Option.some.inj hkind).symm (hkinds _ h)
  | blanks => cases hkind
  | word hc hcs => exact ⟨⟨_, _, String.toList_ofList, hc, hcs⟩, (Option.some.inj hkind).symm⟩

/-! ## Cutting a text into lexemes -/

/-- The text is cut into the lexemes, one behind the other, and `rest` is left of it. -/
inductive Cuts : List Char → List Lexeme → List Char → Prop
  | nil (rest : List Char) : Cuts rest [] rest
  | cons {lexeme : Lexeme} {lexemes : List Lexeme} {cs rest : List Char}
      (h : lexeme? (lexeme.chars ++ cs) = some lexeme) (hcs : Cuts cs lexemes rest) :
      Cuts (lexeme.chars ++ cs) (lexeme :: lexemes) rest

/-- The characters of the lexemes, one behind the other. -/
def charsOf (lexemes : List Lexeme) : List Char := lexemes.flatMap Lexeme.chars

/-- The tokens that lexemes give, the first of them being in the given column. -/
def tokensOf : Nat → List Lexeme → List Token
  | _, [] => []
  | column, lexeme :: lexemes =>
    (lexeme.toToken? column).toList ++ tokensOf (column + lexeme.chars.length) lexemes

namespace Cuts

variable {cs rest : List Char} {lexemes : List Lexeme}

theorem eq_append (h : Cuts cs lexemes rest) : cs = charsOf lexemes ++ rest := by
  induction h with
  | nil rest => rfl
  | cons h hcs ih => rw [charsOf, List.flatMap_cons, List.append_assoc, ← charsOf, ← ih]

/-- The tokens of a text are those of its lexemes and those of what is left. -/
theorem scanFrom_eq (h : Cuts cs lexemes rest) (column : Nat) :
    scanFrom column 0 cs = (do
      let tokens ← scanFrom (column + (charsOf lexemes).length) 0 rest
      return tokensOf column lexemes ++ tokens) := by
  induction h generalizing column with
  | nil rest => exact (bind_pure _).symm
  | @cons lexeme lexemes cs rest h hcs ih =>
      rw [scanFrom_lexeme column (lexical_of_lexeme? h).1.ne_nil h, ih]
      simp only [bind_assoc, pure_bind, charsOf, List.flatMap_cons, List.length_append, tokensOf,
        List.append_assoc, Nat.add_assoc]

end Cuts

/-- Every text is cut up to a place where no lexeme starts. -/
theorem exists_cuts (cs : List Char) :
    ∃ lexemes rest, Cuts cs lexemes rest ∧ lexeme? rest = none := by
  induction hlength : cs.length using Nat.strongRecOn generalizing cs with
  | ind n ih =>
      cases hfront : lexeme? cs with
      | none => exact ⟨[], cs, .nil cs, hfront⟩
      | some lexeme =>
          obtain ⟨hlexical, back, rfl⟩ := lexical_of_lexeme? hfront
          have hlt : back.length < n := by
            have hpos := List.length_pos_iff.2 hlexical.ne_nil
            rw [← hlength, List.length_append]
            omega
          obtain ⟨lexemes, rest, hcuts, hrest⟩ := ih _ hlt back rfl
          exact ⟨lexeme :: lexemes, rest, .cons hfront hcuts, hrest⟩

theorem scanFrom_eq_ok_iff {column : Nat} {cs : List Char} {tokens : List Token} :
    scanFrom column 0 cs = .ok tokens ↔
      ∃ lexemes, Cuts cs lexemes [] ∧ tokens = tokensOf column lexemes := by
  constructor
  · intro h
    obtain ⟨lexemes, rest, hcuts, hrest⟩ := exists_cuts cs
    rw [hcuts.scanFrom_eq] at h
    obtain ⟨found, hfound, h⟩ := bind_eq_ok.1 h
    cases rest with
    | nil =>
        cases hfound
        refine ⟨lexemes, hcuts, ?_⟩
        rw [← pure_eq_ok.1 h, List.append_nil]
    | cons c rest =>
        rw [scanFrom, hrest] at hfound
        cases hfound
  · rintro ⟨lexemes, hcuts, rfl⟩
    rw [hcuts.scanFrom_eq]
    exact bind_eq_ok.2 ⟨[], rfl, by rw [List.append_nil]; rfl⟩

/-- Cutting a text fails at the first character that is left when no further lexeme can be cut off. -/
theorem scanFrom_eq_error_iff {column : Nat} {cs : List Char} {e : ParseError} :
    scanFrom column 0 cs = .error e ↔
      ∃ lexemes c rest, Cuts cs lexemes (c :: rest) ∧ lexeme? (c :: rest) = none ∧
        e = ⟨column + (charsOf lexemes).length, .badCharacter c⟩ := by
  constructor
  · intro h
    obtain ⟨lexemes, rest, hcuts, hrest⟩ := exists_cuts cs
    rw [hcuts.scanFrom_eq] at h
    rcases bind_eq_error.1 h with h | ⟨_, _, h⟩
    · cases rest with
      | nil => cases h
      | cons c rest =>
          rw [scanFrom, hrest] at h
          cases h
          exact ⟨lexemes, c, rest, hcuts, hrest, rfl⟩
    · cases h
  · rintro ⟨lexemes, c, rest, hcuts, hrest, rfl⟩
    rw [hcuts.scanFrom_eq, scanFrom, hrest]
    rfl

/-! ## Places of tokens -/

/-- Every token is a lexeme of the text, at its column. -/
theorem exists_of_mem_tokensOf {column : Nat} {lexemes : List Lexeme} {cs rest : List Char}
    (hcuts : Cuts cs lexemes rest) {t : Token} (ht : t ∈ tokensOf column lexemes) :
    ∃ front back, cs = front ++ t.text.toList ++ back ∧ t.column = column + front.length ∧
      Lexical (some t.kind) t.text.toList := by
  induction hcuts generalizing column with
  | nil => cases ht
  | @cons lexeme lexemes cs rest h hcs ih =>
      rcases List.mem_append.1 ht with ht | ht
      · obtain ⟨kind, hkind, rfl⟩ := Option.map_eq_some_iff.1 (Option.mem_toList.1 ht)
        have hlexical := (lexical_of_lexeme? h).1
        rw [hkind] at hlexical
        refine ⟨[], cs, ?_, rfl, ?_⟩
        · rw [String.toList_ofList, List.nil_append]
        · rwa [String.toList_ofList]
      · obtain ⟨front, back, rfl, hcolumn, hlexical⟩ := ih ht
        refine ⟨lexeme.chars ++ front, back, ?_, ?_, hlexical⟩
        · simp only [List.append_assoc]
        · rw [hcolumn, List.length_append, Nat.add_assoc]

/-- Every token that is a name has a text that is read as one. -/
theorem isName_of_scan {text : String} {tokens : List Token} (h : Token.scan text = .ok tokens) :
    ∀ t ∈ tokens, t.kind = .name → IsName t.text := by
  intro t ht hkind
  obtain ⟨lexemes, hcuts, rfl⟩ := scanFrom_eq_ok_iff.1 h
  obtain ⟨-, -, -, -, hlexical⟩ := exists_of_mem_tokensOf hcuts ht
  rw [hkind] at hlexical
  have hname := hlexical.isName
  rwa [String.ofList_toList] at hname

end Deduction
