import Deduction.Proofs.ParseErrors

set_option autoImplicit false

/-! # Tokens cover the text

Cutting a text into tokens loses nothing but blanks. The tokens stand in the text one behind the
other, each with the characters that are found at its column, and whatever lies between them is
blank. Where a text cannot be cut any further no lexeme starts, and the text before that place can
be cut by itself: a lexeme is found without a look at what comes behind the character that ends it. -/

namespace Deduction

/-! ## Cutting off the end of a text -/

theorem takeWhile_of_append {α : Type} {p : α → Bool} {w front back : List α}
    (h : (w ++ (front ++ back)).takeWhile p = w) : (w ++ front).takeWhile p = w := by
  have hw : ∀ x ∈ w, p x = true := by
    intro x hx
    rw [← h] at hx
    exact List.mem_takeWhile_imp hx
  rw [List.takeWhile_append_of_pos hw] at h ⊢
  have hnone : (front ++ back).takeWhile p = [] := List.append_right_eq_self.1 h
  cases front with
  | nil => simp
  | cons x front =>
      have hx : ¬ p x = true := by
        intro hx
        rw [List.cons_append, List.takeWhile_cons_of_pos hx] at hnone
        cases hnone
      rw [List.takeWhile_cons_of_neg hx, List.append_nil]

/-- The lexeme at the front of a text stays the same when the text is cut off behind it. -/
theorem lexeme?_of_append {lexeme : Lexeme} {front back : List Char}
    (h : lexeme? (lexeme.chars ++ (front ++ back)) = some lexeme) :
    lexeme? (lexeme.chars ++ front) = some lexeme := by
  obtain ⟨kind, w⟩ := lexeme
  cases w with
  | nil => exact absurd rfl (lexical_of_lexeme? h).1.ne_nil
  | cons c w =>
      rw [List.cons_append, lexeme?] at h
      split at h
      · next spelling kind' hfound =>
          cases h
          exact lexeme?_spelling (List.mem_of_find?_eq_some hfound) front
      · next hnone =>
          have hnone' : spellings.find? (fun s => s.1.isPrefixOf (c :: (w ++ front))) = none := by
            refine List.find?_eq_none.2 fun s hs hprefix => List.find?_eq_none.1 hnone s hs ?_
            rw [List.isPrefixOf_iff_prefix] at hprefix ⊢
            refine hprefix.trans ?_
            rw [← List.append_assoc, ← List.cons_append]
            exact List.prefix_append ..
          rw [List.cons_append, lexeme?, hnone']
          split at h
          · next hc =>
              obtain ⟨rfl, hchars⟩ := Lexeme.mk.inj (Option.some.inj h)
              rw [if_pos hc, takeWhile_of_append (List.cons.inj hchars).2]
          · next hc =>
              split at h
              · next hstart =>
                  obtain ⟨rfl, hchars⟩ := Lexeme.mk.inj (Option.some.inj h)
                  have hw := (List.cons.inj hchars).2
                  rw [if_neg hc, if_pos hstart]
                  simp only [takeWhile_of_append hw, hw]
              · cases h

/-- What has been cut off a text can be cut by itself. -/
theorem Cuts.front {cs rest : List Char} {lexemes : List Lexeme} (h : Cuts cs lexemes rest) :
    Cuts (charsOf lexemes) lexemes [] := by
  induction h with
  | nil => exact .nil []
  | @cons lexeme lexemes cs rest h hcs ih =>
      rw [hcs.eq_append] at h
      exact .cons (lexeme?_of_append h) ih

/-! ## Covered texts -/

/-- The character in the given column belongs to the token. -/
def Token.Holds (t : Token) (column : Nat) : Prop :=
  t.column ≤ column ∧ column < t.column + t.text.length

/-- The tokens cover a text whose first character is in column `start`. -/
structure Covers (start : Nat) (tokens : List Token) (cs : List Char) : Prop where
  /-- Every token is written as its kind allows. -/
  lexical : ∀ t ∈ tokens, Lexical (some t.kind) t.text.toList
  /-- The characters of a token are those of the text from its column on. -/
  slice : ∀ t ∈ tokens, start ≤ t.column ∧
    (cs.drop (t.column - start)).take t.text.length = t.text.toList
  /-- A token ends before the next one starts. -/
  apart : tokens.Pairwise fun t u => t.column + t.text.length ≤ u.column
  /-- Characters that belong to no token are blanks. -/
  gaps : ∀ i c, cs[i]? = some c → (∀ t ∈ tokens, ¬ t.Holds (start + i)) → Text.isBlank c = true

theorem column_of_mem_tokensOf {column : Nat} {lexemes : List Lexeme} {cs rest : List Char}
    (hcuts : Cuts cs lexemes rest) {t : Token} (ht : t ∈ tokensOf column lexemes) :
    column ≤ t.column := by
  obtain ⟨front, -, -, hcolumn, -⟩ := exists_of_mem_tokensOf hcuts ht
  omega

theorem apart_tokensOf {column : Nat} {lexemes : List Lexeme} {cs rest : List Char}
    (hcuts : Cuts cs lexemes rest) :
    (tokensOf column lexemes).Pairwise fun t u => t.column + t.text.length ≤ u.column := by
  induction hcuts generalizing column with
  | nil => exact .nil
  | @cons lexeme lexemes cs rest h hcs ih =>
      refine List.pairwise_append.2 ⟨?_, ih, ?_⟩
      · cases lexeme.toToken? column with
        | none => exact .nil
        | some t => exact List.pairwise_singleton ..
      · intro t ht u hu
        obtain ⟨kind, -, rfl⟩ := Option.map_eq_some_iff.1 (Option.mem_toList.1 ht)
        rw [String.length_ofList]
        exact column_of_mem_tokensOf hcs hu

/-- Outside of the tokens a text that is cut into lexemes is blank. -/
theorem isBlank_of_not_holds {column : Nat} {lexemes : List Lexeme} {cs rest : List Char}
    (hcuts : Cuts cs lexemes rest) {i : Nat} {c : Char} (hc : (charsOf lexemes)[i]? = some c)
    (hout : ∀ t ∈ tokensOf column lexemes, ¬ t.Holds (column + i)) : Text.isBlank c = true := by
  induction hcuts generalizing column i with
  | nil => cases hc
  | @cons lexeme lexemes cs rest h hcs ih =>
      obtain ⟨hfirst, hothers⟩ := List.forall_mem_append.1 hout
      rw [charsOf, List.flatMap_cons] at hc
      by_cases hi : i < lexeme.chars.length
      · -- the lexeme is no token, so it is one of blanks
        rw [List.getElem?_append_left hi] at hc
        cases hkind : lexeme.kind? with
        | none =>
            have hlexical := (lexical_of_lexeme? h).1
            rw [hkind] at hlexical
            generalize lexeme.chars = w at hlexical hc
            cases hlexical with
            | blanks hblank => exact hblank c (List.mem_of_getElem? hc)
        | some kind =>
            have hholds : Token.Holds ⟨kind, String.ofList lexeme.chars, column⟩ (column + i) := by
              refine ⟨Nat.le_add_right .., ?_⟩
              rw [String.length_ofList]
              exact Nat.add_lt_add_left hi column
            refine absurd hholds (hfirst _ ?_)
            rw [Lexeme.toToken?, hkind]
            exact List.mem_singleton_self _
      · rw [List.getElem?_append_right (Nat.le_of_not_lt hi)] at hc
        have hplace : column + i = column + lexeme.chars.length + (i - lexeme.chars.length) := by
          omega
        rw [hplace] at hothers
        exact ih hc hothers

/-- The tokens of lexemes cover what was cut off. -/
theorem Cuts.covers {cs rest : List Char} {lexemes : List Lexeme} (h : Cuts cs lexemes rest)
    (start : Nat) : Covers start (tokensOf start lexemes) (charsOf lexemes) where
  lexical t ht := by
    obtain ⟨-, -, -, -, hlexical⟩ := exists_of_mem_tokensOf h ht
    exact hlexical
  slice t ht := by
    obtain ⟨front, back, hchars, hcolumn, -⟩ := exists_of_mem_tokensOf h.front ht
    refine ⟨column_of_mem_tokensOf h ht, ?_⟩
    have hplace : t.column - start = front.length := by omega
    rw [hchars, hplace, List.append_assoc, List.drop_left, ← String.length_toList, List.take_left]
  apart := apart_tokensOf h
  gaps _ _ := isBlank_of_not_holds h

theorem Covers.increasing {start : Nat} {tokens : List Token} {cs : List Char}
    (h : Covers start tokens cs) : tokens.Pairwise fun t u => t.column < u.column := by
  refine h.apart.imp_of_mem fun {t u} ht _ hapart => ?_
  have hpos := List.length_pos_iff.2 (h.lexical t ht).ne_nil
  rw [String.length_toList] at hpos
  omega

/-! ## The place where cutting stops -/

/-- Lexemes can be cut off a text up to this place. -/
def Boundary (cs : List Char) (place : Nat) : Prop :=
  ∃ lexemes rest, Cuts cs lexemes rest ∧ place = (charsOf lexemes).length

/-- Nothing that can be a lexeme stands at the front of the text. -/
def Unreadable (cs : List Char) : Prop := ∀ kind w, Lexical kind w → ¬ w <+: cs

/-- There is one way to cut a text: lexemes are cut off until no further one starts. -/
theorem Cuts.exists_others {cs rest left : List Char} {lexemes all : List Lexeme}
    (h : Cuts cs lexemes rest) (hall : Cuts cs all left) (hleft : lexeme? left = none) :
    ∃ others, all = lexemes ++ others ∧ Cuts rest others left := by
  induction h generalizing all with
  | nil => exact ⟨all, rfl, hall⟩
  | @cons lexeme lexemes cs rest h hcs ih =>
      generalize htext : lexeme.chars ++ cs = text at h hall
      cases hall with
      | nil =>
          rw [hleft] at h
          cases h
      | @cons lexeme' others cs' _ h' hcs' =>
          rw [h'] at h
          cases h
          obtain rfl := List.append_cancel_left htext
          obtain ⟨others, rfl, hothers⟩ := ih hcs'
          exact ⟨others, rfl, hothers⟩

/-- Before the place where cutting stops, a lexeme starts at every boundary. -/
theorem Cuts.not_unreadable_before {cs left : List Char} {all : List Lexeme} (hall : Cuts cs all left)
    (hleft : lexeme? left = none) {place : Nat} (hplace : Boundary cs place)
    (hlt : place < (charsOf all).length) : ¬ Unreadable (cs.drop place) := by
  obtain ⟨lexemes, rest, hcuts, rfl⟩ := hplace
  obtain ⟨others, rfl, hothers⟩ := hcuts.exists_others hall hleft
  rw [hcuts.eq_append, List.drop_left, Unreadable, ← lexeme?_eq_none_iff]
  cases hothers with
  | nil =>
      rw [List.append_nil] at hlt
      exact absurd hlt (Nat.lt_irrefl _)
  | cons h _ =>
      rw [h]
      exact nofun

namespace Token

/-- Tokens and blanks make up the text. If the text can be cut, its tokens cover it, in increasing
    columns, and the mark of the end comes behind them. Otherwise the error is at the first boundary
    at which no lexeme starts, and the text before it can be cut and is covered. -/
theorem scanToEnd_covers (text : String) :
    (∀ tokens, scanToEnd text = .ok tokens →
      ∃ ts, tokens = ts ++ [⟨.endOfText, "", text.length + 1⟩] ∧
        tokens.Pairwise (fun t u => t.column < u.column) ∧ Covers 1 ts text.toList) ∧
    ∀ e, scanToEnd text = .error e →
      ∃ place c, text.toList[place]? = some c ∧ e = ⟨place + 1, .badCharacter c⟩ ∧
        Boundary text.toList place ∧ Unreadable (text.toList.drop place) ∧
        (∀ earlier < place, Boundary text.toList earlier →
          ¬ Unreadable (text.toList.drop earlier)) ∧
        ∃ ts, scan (String.ofList (text.toList.take place)) = .ok ts ∧
          Covers 1 ts (text.toList.take place) := by
  constructor
  · intro tokens h
    obtain ⟨ts, hscan, rfl⟩ := exists_scan_of_scanToEnd h
    obtain ⟨lexemes, hcuts, rfl⟩ := scanFrom_eq_ok_iff.1 hscan
    have hcovers := hcuts.covers 1
    refine ⟨_, rfl, List.pairwise_append.2 ⟨hcovers.increasing, List.pairwise_singleton .., ?_⟩, ?_⟩
    · intro t ht u hu
      obtain rfl := List.mem_singleton.1 hu
      exact Nat.lt_succ_of_le (column_of_scan hscan ht).2
    · rwa [hcuts.eq_append, List.append_nil]
  · intro e h
    have hscan : scan text = .error e := by
      rcases bind_eq_error.1 h with h | ⟨_, _, h⟩
      · exact h
      · cases h
    obtain ⟨lexemes, c, rest, hcuts, hrest, rfl⟩ := scanFrom_eq_error_iff.1 hscan
    have hfront : text.toList.take (charsOf lexemes).length = charsOf lexemes := by
      rw [hcuts.eq_append, List.take_left]
    refine ⟨(charsOf lexemes).length, c, ?_, ?_, ⟨lexemes, _, hcuts, rfl⟩, ?_, ?_, ?_⟩
    · rw [hcuts.eq_append, List.getElem?_append_right (Nat.le_refl _), Nat.sub_self]
      rfl
    · rw [Nat.add_comm]
    · rw [hcuts.eq_append, List.drop_left]
      exact lexeme?_eq_none_iff.1 hrest
    · exact fun earlier hlt hboundary => hcuts.not_unreadable_before hrest hboundary hlt
    · rw [hfront]
      refine ⟨tokensOf 1 lexemes, scanFrom_eq_ok_iff.2 ⟨lexemes, ?_, rfl⟩, hcuts.covers 1⟩
      rw [String.toList_ofList]
      exact hcuts.front

/-- Where spellings overlap: `_|_` is one token and `_` a name, `|` comes before what could have been a
    second `_|_`, and `-` starts no token on its own. -/
theorem scanToEnd_covers_overlapping :
    let ts : List Token := [⟨.name, "_", 1⟩, ⟨.or, "|", 3⟩, ⟨.bottom, "_|_", 4⟩,
      ⟨.name, "forall_'", 8⟩]
    scanToEnd "_ |_|_ forall_'" = .ok (ts ++ [⟨.endOfText, "", 16⟩]) ∧
      Covers 1 ts "_ |_|_ forall_'".toList ∧
    scanToEnd "P'<-> _|-Q" = .error ⟨9, .badCharacter '-'⟩ ∧
      Boundary "P'<-> _|-Q".toList 8 ∧ Unreadable "-Q".toList ∧
      ∃ ts, scan "P'<-> _|" = .ok ts ∧ Covers 1 ts "P'<-> _|".toList := by
  intro ts
  have hok : scanToEnd "_ |_|_ forall_'" = .ok (ts ++ [⟨.endOfText, "", 16⟩]) := by rfl
  obtain ⟨ts', htokens, -, hcovers⟩ := (scanToEnd_covers "_ |_|_ forall_'").1 _ hok
  obtain ⟨hts, -⟩ := List.append_inj' htokens rfl
  have herror : scanToEnd "P'<-> _|-Q" = .error ⟨9, .badCharacter '-'⟩ := by rfl
  obtain ⟨place, c, -, he, hboundary, hunreadable, -, hfront⟩ :=
    (scanToEnd_covers "P'<-> _|-Q").2 _ herror
  obtain rfl : 8 = place := Nat.succ.inj (ParseError.mk.inj he).1
  exact ⟨hok, hts ▸ hcovers, herror, hboundary, hunreadable, hfront⟩

end Token

end Deduction
