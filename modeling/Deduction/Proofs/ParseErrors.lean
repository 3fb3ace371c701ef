import Deduction.Proofs.Reading

set_option autoImplicit false

/-! # Where reading stops

Reading goes through the tokens of a text from left to right. No state takes the mark of the end, so
the cursor stays on the tokens, and reading comes to a halt at one of them: at the mark, with a
formula or an error, or at the first token that is refused. Errors point at that token.

What has been read can always be completed to a formula, and a refused token cannot be part of one.
So an error points at the first token with which no formula goes on. -/

namespace Deduction

/-! ## Columns of a text -/

theorem column_of_scan {text : String} {tokens : List Token} (h : Token.scan text = .ok tokens)
    {t : Token} (ht : t ∈ tokens) : 1 ≤ t.column ∧ t.column ≤ text.length := by
  obtain ⟨lexemes, hcuts, rfl⟩ := scanFrom_eq_ok_iff.1 h
  obtain ⟨front, back, hchars, hcolumn, hlexical⟩ := exists_of_mem_tokensOf hcuts ht
  have hpos := List.length_pos_iff.2 hlexical.ne_nil
  rw [← String.length_toList, hchars, List.length_append, List.length_append]
  omega

theorem kind_of_scan {text : String} {tokens : List Token} (h : Token.scan text = .ok tokens)
    {t : Token} (ht : t ∈ tokens) : t.kind ≠ .endOfText := by
  obtain ⟨lexemes, hcuts, rfl⟩ := scanFrom_eq_ok_iff.1 h
  obtain ⟨-, -, -, -, hlexical⟩ := exists_of_mem_tokensOf hcuts ht
  exact hlexical.ne_endOfText

/-- The tokens of a text up to the mark of its end. -/
theorem exists_scan_of_scanToEnd {text : String} {tokens : List Token}
    (h : Token.scanToEnd text = .ok tokens) :
    ∃ ts, Token.scan text = .ok ts ∧ tokens = ts ++ [Token.endOf text] := by
  obtain ⟨ts, hts, h⟩ := bind_eq_ok.1 h
  exact ⟨ts, hts, (pure_eq_ok.1 h).symm⟩

namespace Reading

variable {s s' : Reading} {t : Token} {tokens : List Token} {i : Nat} {e : ParseError}

/-! ## Refused tokens -/

theorem column_of_refuseAfter (h : s.refuseAfter t = .error e) : e.column = t.column := by
  unfold refuseAfter at h
  split at h
  · cases h
    rfl
  · cases h
    rfl

theorem column_of_readOperand {afterBinder : Bool} (h : s.readOperand afterBinder t = .error e) :
    e.column = t.column := by
  unfold readOperand at h
  split at h
  case h_8 | h_9 =>
    split at h
    · cases h
    · cases h
      rfl
  case h_10 =>
    cases h
    rfl
  all_goals cases h

theorem column_of_readAfter {f : Formula} (h : s.readAfter f t = .error e) :
    e.column = t.column := by
  unfold readAfter at h
  split at h
  case h_5 =>
    split at h
    · cases h
    · exact column_of_refuseAfter h
  case h_6 =>
    split at h
    · cases h
    · cases h
    · cases h
      rfl
  case h_7 => exact column_of_refuseAfter h
  all_goals cases h

/-- A refused token is where the error is. -/
theorem column_of_step (h : s.step t = .error e) : e.column = t.column := by
  unfold step at h
  split at h
  · exact column_of_readOperand h
  · unfold readBinder at h
    split at h
    · cases h
    · cases h
      rfl
  · split at h
    · cases h
    · exact column_of_readAfter h
  · exact column_of_readAfter h

theorem column_of_finish {column : Nat} (h : s.finish column = .error e) : e.column = column := by
  unfold finish at h
  split at h
  · cases h
    rfl
  · cases h
    rfl
  · split at h
    · cases h
    · cases h
      rfl
  · split at h
    · cases h
    · cases h
      rfl

/-- No state takes the mark of the end. -/
theorem step_endOfText (ht : t.kind = .endOfText) : s.step t ≠ .ok s' := by
  intro h
  unfold step at h
  split at h
  · simp only [readOperand, ht] at h
    cases h
  · simp only [readBinder, ht] at h
    cases h
  · simp only [readAfter, ht] at h
    exact refuseAfter_ne_ok h
  · simp only [readAfter, ht] at h
    exact refuseAfter_ne_ok h

/-! ## The cursor -/

/-- With the cursor at place `i` of the tokens, the reader is in the state `s`. The cursor moves on
    when the state takes the token at its place. -/
inductive Reaches (tokens : List Token) : Nat → Reading → Prop
  | start : Reaches tokens 0 .start
  | step {i : Nat} {s s' : Reading} {t : Token} (hs : Reaches tokens i s)
      (ht : tokens[i]? = some t) (h : s.step t = .ok s') : Reaches tokens (i + 1) s'

/-- Where the cursor has come to, the tokens before it have been read. -/
theorem reaches_iff :
    Reaches tokens i s ↔ i ≤ tokens.length ∧ (tokens.take i).foldlM Reading.step .start = .ok s := by
  induction i generalizing s with
  | zero =>
      constructor
      · intro h
        cases h
        exact ⟨Nat.zero_le _, rfl⟩
      · rintro ⟨-, h⟩
        cases h
        exact .start
  | succ i ih =>
      rw [List.take_add_one, List.foldlM_append, bind_eq_ok]
      constructor
      · intro h
        cases h with
        | @step _ s₁ _ t hs ht h =>
            obtain ⟨hlt, -⟩ := List.getElem?_eq_some_iff.1 ht
            refine ⟨hlt, s₁, (ih.1 hs).2, ?_⟩
            rw [ht]
            exact bind_eq_ok.2 ⟨s, h, rfl⟩
      · rintro ⟨hlt, s₁, hs₁, h⟩
        have ht : tokens[i]? = some (tokens.get ⟨i, hlt⟩) := List.getElem?_eq_getElem hlt
        rw [ht] at h
        obtain ⟨s₂, hstep, h⟩ := bind_eq_ok.1 h
        cases h
        exact .step (ih.2 ⟨Nat.le_of_lt hlt, hs₁⟩) ht hstep

theorem reaches_append {front back : List Token} (h : front.foldlM Reading.step .start = .ok s) :
    Reaches (front ++ back) front.length s := by
  refine reaches_iff.2 ⟨?_, ?_⟩
  · rw [List.length_append]
    exact Nat.le_add_right _ _
  · rw [List.take_left]
    exact h

/-- The state does not take the token, and it does not give a formula if the text ends with it. -/
structure Refuses (s : Reading) (t : Token) : Prop where
  step : ∀ s', s.step t ≠ .ok s'
  finish : t.kind = .endOfText → ∀ f, s.finish t.column ≠ .ok f

end Reading

namespace Formula

variable {text : String} {tokens ts : List Token} {e : ParseError} {f : Formula}

open Reading

theorem parse_of_scan (h : Token.scan text = .ok ts) :
    parse text = ofTokens ts (text.length + 1) := by
  rw [parse, h]
  rfl

/-- What the tokens spell is given by the state that they lead to. -/
theorem ofTokens_eq_ok {column : Nat} (h : ofTokens ts column = .ok f) :
    ∃ s, ts.foldlM Reading.step .start = .ok s ∧ s.finish column = .ok f := by
  cases ts with
  | nil => cases h
  | cons t ts => exact bind_eq_ok.1 h

/-- Tokens that spell nothing lead to a refusal: of one of them, or of the end. -/
theorem ofTokens_eq_error {column : Nat} (h : ofTokens ts column = .error e) :
    (∃ front t back s, ts = front ++ t :: back ∧ front.foldlM Reading.step .start = .ok s ∧
        s.step t = .error e) ∨
      ∃ s, ts.foldlM Reading.step .start = .ok s ∧ (∀ f, s.finish column ≠ .ok f) ∧
        e.column = column := by
  cases ts with
  | nil =>
      cases h
      exact .inr ⟨.start, rfl, nofun, rfl⟩
  | cons t ts =>
      rcases bind_eq_error.1 h with hrun | ⟨s, hrun, hfinish⟩
      · exact .inl (exists_of_foldlM_eq_error hrun)
      · refine .inr ⟨s, hrun, fun f hf => ?_, column_of_finish hfinish⟩
        rw [hf] at hfinish
        cases hfinish

/-- An error of a text that can be cut into tokens is at the token where the cursor stops. -/
theorem exists_refused (hscan : Token.scanToEnd text = .ok tokens) (h : parse text = .error e) :
    ∃ i s t, Reaches tokens i s ∧ tokens[i]? = some t ∧ s.Refuses t ∧ e.column = t.column := by
  obtain ⟨ts, hts, rfl⟩ := exists_scan_of_scanToEnd hscan
  rw [parse_of_scan hts] at h
  rcases ofTokens_eq_error h with ⟨front, t, back, s, rfl, hrun, hstep⟩ | ⟨s, hrun, hfinish, hcolumn⟩
  · have hkind := kind_of_scan hts (List.mem_append_right front (List.mem_cons_self ..))
    refine ⟨front.length, s, t, ?_, ?_, ⟨?_, fun hend => absurd hend hkind⟩, column_of_step hstep⟩
    · rw [List.append_assoc]
      exact reaches_append hrun
    · rw [List.append_assoc, List.getElem?_append_right (Nat.le_refl _), Nat.sub_self]
      rfl
    · intro s' hs'
      rw [hs'] at hstep
      cases hstep
  · exact ⟨ts.length, s, Token.endOf text, reaches_append hrun, List.getElem?_concat_length,
      ⟨fun s' => step_endOfText rfl, fun _ => hfinish⟩, hcolumn⟩

end Formula

/-! ## Sentences -/

/-- The tokens of a whole text that is a formula: a phrase of the loosest kind, and the mark of the
    end behind it. -/
def IsSentence (tokens : List Token) : Prop :=
  ∃ ts mark f, tokens = ts ++ [mark] ∧ mark.kind = .endOfText ∧ Derives .iff ts f

/-- Some sentence starts with the tokens. -/
def StartsSentence (tokens : List Token) : Prop := ∃ rest, IsSentence (tokens ++ rest)

/-- Of the tokens, the one at place `i` is the first with which no sentence goes on. -/
def FirstOffending (tokens : List Token) (i : Nat) (t : Token) : Prop :=
  tokens[i]? = some t ∧ StartsSentence (tokens.take i) ∧ ¬ StartsSentence (tokens.take (i + 1))

theorem StartsSentence.mono {front tokens : List Token} (hfront : front <+: tokens)
    (h : StartsSentence tokens) : StartsSentence front := by
  obtain ⟨back, rfl⟩ := hfront
  obtain ⟨rest, hrest⟩ := h
  refine ⟨back ++ rest, ?_⟩
  rwa [← List.append_assoc]

/-- There is only one such token. -/
theorem FirstOffending.unique {tokens : List Token} {i j : Nat} {t u : Token}
    (hi : FirstOffending tokens i t) (hj : FirstOffending tokens j u) : i = j ∧ t = u := by
  -- what comes before the later one of two goes on with the earlier one
  have hle : ∀ {i j : Nat} {t u : Token}, FirstOffending tokens i t → FirstOffending tokens j u →
      j ≤ i := by
    intro i j t u hi hj
    by_contra hlt
    have hprefix : tokens.take (i + 1) <+: tokens.take j :=
      List.take_prefix_take_left (Nat.lt_of_not_le hlt)
    exact hi.2.2 (hj.2.1.mono hprefix)
  obtain rfl : i = j := Nat.le_antisymm (hle hj hi) (hle hi hj)
  exact ⟨rfl, Option.some.inj (hi.1.symm.trans hj.1)⟩

namespace Reading

variable {s : Reading} {t : Token} {front : List Token}

/-! ## What has been read can be completed -/

/-- Tokens lead from the state to the end of a formula. -/
def Completable (s : Reading) : Prop :=
  ∃ (ts : List Token) (s' : Reading) (f : Formula),
    ts.foldlM Reading.step s = .ok s' ∧ ∀ column, s'.finish column = .ok f

theorem Completable.of_step {s' : Reading} (h : s.step t = .ok s') (hs' : s'.Completable) :
    s.Completable := by
  obtain ⟨ts, after, f, hrun, hfinish⟩ := hs'
  exact ⟨t :: ts, after, f, bind_eq_ok.2 ⟨s', h, hrun⟩, hfinish⟩

/-- Behind an operand all that is missing is the end of the open brackets. -/
theorem completable_afterOperand (opened : List Opened) (p : Pending) (f : Formula) :
    Completable ⟨opened, p, .afterOperand f⟩ := by
  induction opened generalizing p f with
  | nil => exact ⟨[], _, p.formula f, rfl, fun _ => rfl⟩
  | cons o opened ih =>
      obtain ⟨outer, _ | call⟩ := o
      · exact .of_step (t := .rightParen) rfl (ih _ _)
      · exact .of_step (t := .rightParen) rfl (ih _ _)

theorem completable_operand (opened : List Opened) (p : Pending) (afterBinder : Bool) :
    Completable ⟨opened, p, .operand afterBinder⟩ :=
  .of_step (t := ⟨.top, "⊤", 0⟩) rfl (completable_afterOperand ..)

/-- Wherever reading has come to, a formula can still be made of it. -/
theorem completable (s : Reading) : s.Completable := by
  obtain ⟨opened, p, next⟩ := s
  cases next with
  | operand afterBinder => exact completable_operand ..
  | binder q => exact .of_step (t := .ofName "x") rfl (completable_operand ..)
  | afterName name => exact .of_step (t := .leftParen) rfl (completable_operand ..)
  | afterOperand f => exact completable_afterOperand ..

/-- What has been read is the front of a sentence. -/
theorem startsSentence_of_foldlM (h : front.foldlM Reading.step .start = .ok s) :
    StartsSentence front := by
  obtain ⟨ts, s', f, hrun, hfinish⟩ := s.completable
  have hwhole : (front ++ ts).foldlM Reading.step .start = .ok s' := by
    rw [List.foldlM_append]
    exact bind_eq_ok.2 ⟨s, h, hrun⟩
  have hstart : Reading.start.SpelledBy [] := .operand .nil Pending.spelledBy_empty
  have hderives : Derives .iff (front ++ ts) f := (hstart.foldlM hwhole).finish (hfinish 0)
  refine ⟨ts ++ [⟨.endOfText, "", 0⟩], front ++ ts, ⟨.endOfText, "", 0⟩, f, ?_, rfl, hderives⟩
  rw [List.append_assoc]

/-! ## What is refused is no part of a sentence -/

/-- The tokens of a phrase are taken one by one. -/
theorem exists_step_of_derives {back : List Token} {f : Formula}
    (h : front.foldlM Reading.step .start = .ok s) (hderives : Derives .iff (front ++ t :: back) f) :
    ∃ s', s.step t = .ok s' := by
  obtain ⟨after, hrun, -⟩ := Formula.ofTokens_eq_ok (Formula.ofTokens_of_derives hderives 0)
  rw [List.foldlM_append] at hrun
  obtain ⟨s₁, hs₁, hrun⟩ := bind_eq_ok.1 hrun
  rw [h] at hs₁
  cases hs₁
  obtain ⟨s', hs', -⟩ := bind_eq_ok.1 hrun
  exact ⟨s', hs'⟩

theorem Refuses.not_startsSentence (h : front.foldlM Reading.step .start = .ok s)
    (ht : s.Refuses t) : ¬ StartsSentence (front ++ [t]) := by
  rintro ⟨rest, ts, mark, f, hsplit, hmark, hderives⟩
  rw [List.append_assoc] at hsplit
  rcases List.eq_nil_or_concat rest with rfl | ⟨back, last, rfl⟩
  · -- the token is the mark of the end, and the phrase ends before it
    obtain ⟨rfl, hlast⟩ := List.append_inj' hsplit rfl
    obtain rfl : t = mark := by simpa using hlast
    obtain ⟨s', hrun, hfinish⟩ :=
      Formula.ofTokens_eq_ok (Formula.ofTokens_of_derives hderives t.column)
    rw [h] at hrun
    cases hrun
    exact ht.finish hmark f hfinish
  · -- the token is one of the phrase
    rw [List.concat_eq_append, ← List.append_assoc, ← List.append_assoc] at hsplit
    obtain ⟨rfl, -⟩ := List.append_inj' hsplit rfl
    rw [List.append_assoc] at hderives
    obtain ⟨s', hs'⟩ := exists_step_of_derives h hderives
    exact ht.step s' hs'

end Reading

/-- A text that can be cut into tokens but is no formula has its error at the first token with which no
    sentence goes on. There is exactly one such token. -/
theorem Formula.parse_error_at_first_offending {text : String} {tokens : List Token} {e : ParseError}
    (hscan : Token.scanToEnd text = .ok tokens) (hparse : Formula.parse text = .error e) :
    ∃ i t, FirstOffending tokens i t ∧ e.column = t.column ∧
      ∀ j u, FirstOffending tokens j u → j = i ∧ u = t := by
  obtain ⟨i, s, t, hreaches, ht, hrefuses, hcolumn⟩ := exists_refused hscan hparse
  obtain ⟨-, hrun⟩ := Reading.reaches_iff.1 hreaches
  have hoffending : FirstOffending tokens i t := by
    refine ⟨ht, Reading.startsSentence_of_foldlM hrun, ?_⟩
    rw [List.take_add_one, ht]
    exact hrefuses.not_startsSentence hrun
  exact ⟨i, t, hoffending, hcolumn, fun j u hj => hj.unique hoffending⟩

/-- Behind a bound name a comma may come, but not a second one, whatever follows it. -/
theorem Formula.parse_error_at_first_offending_comma :
    let tokens : List Token := [⟨.leftParen, "(", 1⟩, ⟨.all, "forall", 2⟩, ⟨.name, "x", 9⟩,
      ⟨.comma, ",", 10⟩, ⟨.comma, ",", 12⟩, ⟨.name, "P", 14⟩, ⟨.rightParen, ")", 15⟩,
      ⟨.and, "&", 17⟩, ⟨.endOfText, "", 19⟩]
    Token.scanToEnd "(forall x, , P) & " = .ok tokens ∧
      ∃ i, FirstOffending tokens i ⟨.comma, ",", 12⟩ ∧
        ∀ j u, FirstOffending tokens j u → j = i ∧ u = ⟨.comma, ",", 12⟩ := by
  intro tokens
  have hscan : Token.scanToEnd "(forall x, , P) & " = .ok tokens := by rfl
  have hparse : Formula.parse "(forall x, , P) & " = .error ⟨12, .unexpected ","⟩ := by rfl
  have hcolumns : ∀ t ∈ tokens, 12 = t.column → t = ⟨.comma, ",", 12⟩ := by decide
  obtain ⟨i, t, hoffending, hcolumn, hunique⟩ :=
    Formula.parse_error_at_first_offending hscan hparse
  obtain rfl := hcolumns t (List.mem_of_getElem? hoffending.1) hcolumn
  exact ⟨hscan, i, hoffending, hunique⟩

end Deduction
