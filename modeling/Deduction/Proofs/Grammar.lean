import Deduction.Formula.Parser
import Deduction.Proofs.Outcome

set_option autoImplicit false

/-! # The grammar of formulas

The grammar as a relation between tokens and the formulas that they spell, and the proof that
reading accepts exactly what the grammar derives. So no tokens spell two formulas.

One direction follows a derivation: reading the tokens of a phrase leads from a place where the
phrase may start to the place behind it, whatever is open or waiting around. The other direction
follows the reader: whatever waits while a text is read is the front of a phrase, which the next
operand completes. -/

namespace Deduction

/-! ## Phrases -/

/-- The kinds of phrases, loosest binding first. -/
inductive Phrase where
  | iff | implies | or | and | unary | quantifier | atom
  /-- An application up to its closing bracket: `NAME '(' iff (',' iff)*`. -/
  | call

def Connective.kind : Connective → TokenKind
  | .and => .and
  | .or => .or
  | .implies => .implies
  | .iff => .iff

def Quantifier.kind : Quantifier → TokenKind
  | .all => .all
  | .ex => .ex

/-- The tokens are a phrase of the given kind that spells the formula. A phrase that repeats
    something is made longer at its end, so that `|` and `&` nest to the left, while `<->` and `->`
    nest to the right. -/
inductive Derives : Phrase → List Token → Formula → Prop
  -- iff := implies ('<->' iff)?
  | iffOfImplies {ts : List Token} {f : Formula} (h : Derives .implies ts f) : Derives .iff ts f
  | iff {ts us : List Token} {t : Token} {l r : Formula} (hl : Derives .implies ts l)
      (ht : t.kind = .iff) (hr : Derives .iff us r) : Derives .iff (ts ++ t :: us) (.iff l r)
  -- implies := or ('->' implies)?
  | impliesOfOr {ts : List Token} {f : Formula} (h : Derives .or ts f) : Derives .implies ts f
  | implies {ts us : List Token} {t : Token} {l r : Formula} (hl : Derives .or ts l)
      (ht : t.kind = .implies) (hr : Derives .implies us r) :
      Derives .implies (ts ++ t :: us) (.implies l r)
  -- or := and ('|' and)*
  | orOfAnd {ts : List Token} {f : Formula} (h : Derives .and ts f) : Derives .or ts f
  | or {ts us : List Token} {t : Token} {l r : Formula} (hl : Derives .or ts l)
      (ht : t.kind = .or) (hr : Derives .and us r) : Derives .or (ts ++ t :: us) (.or l r)
  -- and := unary ('&' unary)*
  | andOfUnary {ts : List Token} {f : Formula} (h : Derives .unary ts f) : Derives .and ts f
  | and {ts us : List Token} {t : Token} {l r : Formula} (hl : Derives .and ts l)
      (ht : t.kind = .and) (hr : Derives .unary us r) : Derives .and (ts ++ t :: us) (.and l r)
  -- unary := '~' unary | quantifier | atom
  | neg {ts : List Token} {t : Token} {f : Formula} (ht : t.kind = .not)
      (h : Derives .unary ts f) : Derives .unary (t :: ts) (.neg f)
  | unaryOfQuantifier {ts : List Token} {f : Formula} (h : Derives .quantifier ts f) :
      Derives .unary ts f
  | unaryOfAtom {ts : List Token} {f : Formula} (h : Derives .atom ts f) : Derives .unary ts f
  -- quantifier := ('forall' | 'exists') NAME (',' | '.')? unary
  | quant {ts : List Token} {t n : Token} {q : Quantifier} {f : Formula} (ht : t.kind = q.kind)
      (hn : n.kind = .name) (h : Derives .unary ts f) :
      Derives .quantifier (t :: n :: ts) (.quant q n.text f)
  | quantSeparated {ts : List Token} {t n sep : Token} {q : Quantifier} {f : Formula}
      (ht : t.kind = q.kind) (hn : n.kind = .name) (hsep : sep.kind = .comma ∨ sep.kind = .dot)
      (h : Derives .unary ts f) : Derives .quantifier (t :: n :: sep :: ts) (.quant q n.text f)
  -- atom := '^|^' | '_|_' | NAME ('(' iff (',' iff)* ')')? | '(' iff ')'
  | top {t : Token} (ht : t.kind = .top) : Derives .atom [t] .top
  | bottom {t : Token} (ht : t.kind = .bottom) : Derives .atom [t] .bottom
  | name {n : Token} (hn : n.kind = .name) : Derives .atom [n] (.var n.text)
  | application {ts : List Token} {t : Token} {f : Formula} (h : Derives .call ts f)
      (ht : t.kind = .rightParen) : Derives .atom (ts ++ [t]) f
  | bracketed {ts : List Token} {t t' : Token} {f : Formula} (ht : t.kind = .leftParen)
      (h : Derives .iff ts f) (ht' : t'.kind = .rightParen) : Derives .atom (t :: (ts ++ [t'])) f
  | firstArgument {ts : List Token} {n t : Token} {f : Formula} (hn : n.kind = .name)
      (ht : t.kind = .leftParen) (h : Derives .iff ts f) :
      Derives .call (n :: t :: ts) (.app n.text [f])
  | nextArgument {ts us : List Token} {t : Token} {name : String} {args : List Formula}
      {f : Formula} (hcall : Derives .call ts (.app name args)) (ht : t.kind = .comma)
      (h : Derives .iff us f) : Derives .call (ts ++ t :: us) (.app name (args ++ [f]))

/-- An operand may stand wherever a formula may. -/
theorem Derives.whole {ts : List Token} {f : Formula} (h : Derives .unary ts f) :
    Derives .iff ts f :=
  .iffOfImplies (.impliesOfOr (.orOfAnd (.andOfUnary h)))

/-! ## Runs of the reader -/

namespace Reading

/-- Takes a name for the whole operand, as the next token does unless it is an opening bracket. -/
def settled (s : Reading) : Reading :=
  match s.next with
  | .afterName name => s.complete (.var name)
  | _ => s

theorem step_settled {s : Reading} {t : Token} (ht : t.kind ≠ .leftParen) :
    s.settled.step t = s.step t := by
  unfold settled
  split
  · next name hnext =>
      rw [step.eq_def s, hnext]
      simp only [ht, if_false]
      rfl
  · rfl

theorem finish_settled (s : Reading) (column : Nat) :
    s.settled.finish column = s.finish column := by
  unfold settled
  split
  · next name hnext =>
      rw [finish.eq_def s, hnext]
      rfl
  · rfl

theorem step_operand {s : Reading} {afterBinder : Bool} (hs : s.next = .operand afterBinder)
    (t : Token) : s.step t = s.readOperand afterBinder t := by
  rw [step, hs]

theorem step_neg {s : Reading} {t : Token} {afterBinder : Bool}
    (hs : s.next = .operand afterBinder) (ht : t.kind = .not) :
    s.step t = .ok { s with pending := { s.pending with unary := .neg :: s.pending.unary },
                            next := .operand false } := by
  rw [step_operand hs, readOperand, ht]

theorem step_quantifier {s : Reading} {t : Token} {q : Quantifier} {afterBinder : Bool}
    (hs : s.next = .operand afterBinder) (ht : t.kind = q.kind) :
    s.step t = .ok { s with next := .binder q } := by
  rw [step_operand hs, readOperand, ht]
  cases q <;> rfl

theorem step_binder {s : Reading} {n : Token} {q : Quantifier} (hn : n.kind = .name) :
    step { s with next := .binder q } n = .ok
      { s with pending := { s.pending with unary := .quant q n.text :: s.pending.unary },
               next := .operand true } := by
  simp [step, readBinder, hn]

theorem step_separator {s : Reading} {t : Token} (hs : s.next = .operand true)
    (ht : t.kind = .comma ∨ t.kind = .dot) : s.step t = .ok { s with next := .operand false } := by
  rw [step_operand hs]
  rcases ht with ht | ht <;> simp [readOperand, ht]

theorem step_name {s : Reading} {n : Token} {afterBinder : Bool}
    (hs : s.next = .operand afterBinder) (hn : n.kind = .name) :
    s.step n = .ok { s with next := .afterName n.text } := by
  rw [step_operand hs, readOperand, hn]

theorem step_leftParen {s : Reading} {t : Token} {afterBinder : Bool}
    (hs : s.next = .operand afterBinder) (ht : t.kind = .leftParen) :
    s.step t = .ok (s.openBracket none) := by
  rw [step_operand hs, readOperand, ht]

/-- Reading the tokens leads from one state to another one, a name being settled at the end. -/
def Reads (s : Reading) (ts : List Token) (s' : Reading) : Prop :=
  ∃ after, ts.foldlM step s = .ok after ∧ after.settled = s'

namespace Reads

variable {s s' s'' : Reading} {t : Token} {ts us : List Token} {opened : List Opened} {p : Pending}
  {g : Formula}

theorem single (h : s.step t = .ok s') : Reads s [t] s'.settled :=
  ⟨s', bind_eq_ok.2 ⟨s', h, rfl⟩, rfl⟩

theorem completed {f : Formula} (h : s.step t = .ok (s'.complete f)) :
    Reads s [t] (s'.complete f) :=
  single h

theorem cons (h : s.step t = .ok s') (hts : Reads s' ts s'') : Reads s (t :: ts) s'' := by
  obtain ⟨after, hafter, rfl⟩ := hts
  exact ⟨after, bind_eq_ok.2 ⟨s', h, hafter⟩, rfl⟩

/-- What follows must not turn a name at the end into an application. -/
theorem append {xs : List Token} (hxs : Reads s xs s') (ht : t.kind ≠ .leftParen)
    (hts : Reads s' (t :: ts) s'') : Reads s (xs ++ t :: ts) s'' := by
  obtain ⟨mid, hmid, rfl⟩ := hxs
  obtain ⟨after, hafter, rfl⟩ := hts
  obtain ⟨next, hnext, hafter⟩ := bind_eq_ok.1 hafter
  rw [step_settled ht] at hnext
  refine ⟨after, ?_, rfl⟩
  rw [List.foldlM_append]
  exact bind_eq_ok.2 ⟨mid, hmid, bind_eq_ok.2 ⟨next, hnext, hafter⟩⟩

/-- A connective behind an operand, and what follows it. -/
theorem connective (op : Connective) (h : Reads s ts ⟨opened, p, .afterOperand g⟩)
    (ht : t.kind = op.kind) (hus : Reads ⟨opened, p.push op g, .operand false⟩ us s') :
    Reads s (ts ++ t :: us) s' := by
  have hstep : step ⟨opened, p, .afterOperand g⟩ t = .ok ⟨opened, p.push op g, .operand false⟩ := by
    cases op <;> simp [step, readAfter, ht, Connective.kind]
  refine h.append ?_ (.cons hstep hus)
  rw [ht]
  cases op <;> decide

end Reads

end Reading

/-! ## What the grammar derives is read -/

open Reading

/-- Reading the tokens of a phrase does what it has to do. An operand is completed wherever one must
    come. The other phrases end behind an operand that, together with what then waits at the same
    bracket level, makes the formula; what waited in front of the phrase waits on around it. -/
def Phrase.Read : Phrase → List Token → Formula → Prop
  | .unary, ts, f | .quantifier, ts, f | .atom, ts, f =>
    ∀ (s : Reading) (afterBinder : Bool), s.next = .operand afterBinder → s.Reads ts (s.complete f)
  | .and, ts, f =>
    ∀ (opened : List Opened) (iffs implications : List Formula) (disjunction : Option Formula),
      ∃ c g, Reads ⟨opened, ⟨iffs, implications, disjunction, none, []⟩, .operand false⟩ ts
        ⟨opened, ⟨iffs, implications, disjunction, c, []⟩, .afterOperand g⟩ ∧
        Pending.conjunct ⟨iffs, implications, disjunction, c, []⟩ g = f
  | .or, ts, f =>
    ∀ (opened : List Opened) (iffs implications : List Formula),
      ∃ d c g, Reads ⟨opened, ⟨iffs, implications, none, none, []⟩, .operand false⟩ ts
        ⟨opened, ⟨iffs, implications, d, c, []⟩, .afterOperand g⟩ ∧
        Pending.disjunct ⟨iffs, implications, d, c, []⟩ g = f
  | .implies, ts, f =>
    ∀ (opened : List Opened) (iffs implications : List Formula),
      ∃ is d c g, Reads ⟨opened, ⟨iffs, implications, none, none, []⟩, .operand false⟩ ts
        ⟨opened, ⟨iffs, is, d, c, []⟩, .afterOperand g⟩ ∧
        Pending.implication ⟨iffs, is, d, c, []⟩ g =
          implications.foldl (fun right left => .implies left right) f
  | .iff, ts, f =>
    ∀ (opened : List Opened) (iffs : List Formula),
      ∃ p g, Reads ⟨opened, ⟨iffs, [], none, none, []⟩, .operand false⟩ ts
        ⟨opened, p, .afterOperand g⟩ ∧
        p.formula g = iffs.foldl (fun right left => .iff left right) f
  | .call, ts, f =>
    ∀ (s : Reading) (afterBinder : Bool), s.next = .operand afterBinder →
      ∃ name args p g, s.Reads ts
        ⟨⟨s.pending, some (name, args)⟩ :: s.opened, p, .afterOperand g⟩ ∧
        .app name (p.formula g :: args).reverse = f

theorem Derives.read {phrase : Phrase} {ts : List Token} {f : Formula} (h : Derives phrase ts f) :
    phrase.Read ts f := by
  induction h with
  | iffOfImplies _ ih =>
      intro opened iffs
      obtain ⟨is, d, c, g, hreads, hg⟩ := ih opened iffs []
      refine ⟨_, g, hreads, ?_⟩
      rw [Pending.formula, hg]
      rfl
  | iff _ ht _ ihl ihr =>
      intro opened iffs
      obtain ⟨is, d, c, g, hleft, hl⟩ := ihl opened iffs []
      -- the left side waits as the nearest of the equivalences
      obtain ⟨p, g', hright, hr⟩ := ihr opened (_ :: iffs)
      refine ⟨p, g', hleft.connective .iff ht ?_, hr⟩
      rw [Pending.push, hl]
      exact hright
  | impliesOfOr _ ih =>
      intro opened iffs implications
      obtain ⟨d, c, g, hreads, hg⟩ := ih opened iffs implications
      refine ⟨implications, d, c, g, hreads, ?_⟩
      rw [Pending.implication, hg]
  | implies _ ht _ ihl ihr =>
      intro opened iffs implications
      obtain ⟨d, c, g, hleft, hl⟩ := ihl opened iffs implications
      obtain ⟨is, d', c', g', hright, hr⟩ := ihr opened iffs (_ :: implications)
      refine ⟨is, d', c', g', hleft.connective .implies ht ?_, hr⟩
      rw [Pending.push, hl]
      exact hright
  | orOfAnd _ ih =>
      intro opened iffs implications
      obtain ⟨c, g, hreads, hg⟩ := ih opened iffs implications none
      exact ⟨none, c, g, hreads, hg⟩
  | or _ ht _ ihl ihr =>
      intro opened iffs implications
      obtain ⟨d, c, g, hleft, hl⟩ := ihl opened iffs implications
      obtain ⟨c', g', hright, hr⟩ := ihr opened iffs implications (some _)
      refine ⟨some _, c', g', hleft.connective .or ht ?_, congrArg (Formula.or _) hr⟩
      rw [Pending.push, hl]
      exact hright
  | andOfUnary _ ih =>
      intro opened iffs implications disjunction
      exact ⟨none, _, ih _ false rfl, rfl⟩
  | and _ ht _ ihl ihr =>
      intro opened iffs implications disjunction
      obtain ⟨c, g, hleft, hl⟩ := ihl opened iffs implications disjunction
      refine ⟨some _, _, hleft.connective .and ht ?_, rfl⟩
      rw [Pending.push, hl]
      exact ihr _ false rfl
  | neg ht _ ih =>
      intro s afterBinder hs
      -- the operand is completed under one more waiting negation
      exact .cons (step_neg hs ht) (ih _ false rfl)
  | unaryOfQuantifier _ ih => exact ih
  | unaryOfAtom _ ih => exact ih
  | quant ht hn _ ih =>
      intro s afterBinder hs
      exact .cons (step_quantifier hs ht) (.cons (step_binder hn) (ih _ true rfl))
  | quantSeparated ht hn hsep _ ih =>
      intro s afterBinder hs
      exact .cons (step_quantifier hs ht)
        (.cons (step_binder hn) (.cons (step_separator rfl hsep) (ih _ false rfl)))
  | top ht =>
      intro s afterBinder hs
      refine .completed ?_
      rw [step_operand hs, readOperand, ht]
  | bottom ht =>
      intro s afterBinder hs
      refine .completed ?_
      rw [step_operand hs, readOperand, ht]
  | name hn =>
      intro s afterBinder hs
      exact .single (step_name hs hn)
  | application _ ht ih =>
      intro s afterBinder hs
      obtain ⟨name, args, p, g, hcall, rfl⟩ := ih s afterBinder hs
      refine hcall.append (by simp [ht]) (.completed ?_)
      simp only [step, readAfter, ht]
      rfl
  | bracketed ht _ ht' ih =>
      intro s afterBinder hs
      obtain ⟨p, g, hinner, rfl⟩ := ih (⟨s.pending, none⟩ :: s.opened) []
      refine .cons (step_leftParen hs ht) (hinner.append (by simp [ht']) (.completed ?_))
      simp only [step, readAfter, ht']
      rfl
  | firstArgument hn ht _ ih =>
      intro s afterBinder hs
      obtain ⟨p, g, hinner, rfl⟩ := ih (⟨s.pending, some (_, [])⟩ :: s.opened) []
      refine ⟨_, [], p, g, .cons (step_name hs hn) (.cons ?_ hinner), rfl⟩
      rw [step]
      simp only [ht, if_true]
      rfl
  | nextArgument _ ht _ ihcall ih =>
      intro s afterBinder hs
      obtain ⟨name, args, p, g, hcall, happ⟩ := ihcall s afterBinder hs
      obtain ⟨p', g', hinner, rfl⟩ :=
        ih (⟨s.pending, some (name, p.formula g :: args)⟩ :: s.opened) []
      refine ⟨name, p.formula g :: args, p', g', hcall.append (by simp [ht]) (.cons ?_ hinner), ?_⟩
      · simp only [step, readAfter, ht]
        rfl
      · cases happ
        simp

/-- Reading accepts what the grammar derives. -/
theorem Formula.ofTokens_of_derives {tokens : List Token} {f : Formula} (h : Derives .iff tokens f)
    (endColumn : Nat) : Formula.ofTokens tokens endColumn = .ok f := by
  obtain ⟨p, g, ⟨after, hrun, hafter⟩, hg⟩ := h.read [] []
  have hfinish : after.finish endColumn = .ok f := by
    rw [← finish_settled, hafter]
    exact congrArg Except.ok hg
  cases tokens with
  | nil =>
      cases hrun
      cases hfinish
  | cons t ts => exact bind_eq_ok.2 ⟨after, hrun, hfinish⟩

/-! ## What is read is derived -/

/-- Whatever phrase of the inner kind follows the tokens, together they are a phrase of the outer
    kind, for the formula with the wrapping around it. -/
def Leads (inner outer : Phrase) (ts : List Token) (wrap : Formula → Formula) : Prop :=
  ∀ us f, Derives inner us f → Derives outer (ts ++ us) (wrap f)

theorem Leads.trans {a b c : Phrase} {ts us : List Token} {wrap wrap' : Formula → Formula}
    (h : Leads b c ts wrap) (h' : Leads a b us wrap') :
    Leads a c (ts ++ us) (fun f => wrap (wrap' f)) := by
  intro vs f hf
  rw [List.append_assoc]
  exact h _ _ (h' vs f hf)

/-- The tokens are the front of a phrase of each level, outermost level first, that wait for an
    operand as the pending formulas do. -/
def Pending.SpelledBy (p : Pending) (ts : List Token) : Prop :=
  ∃ iffs implications disjunction conjunction unary,
    ts = iffs ++ (implications ++ (disjunction ++ (conjunction ++ unary))) ∧
    Leads .iff .iff iffs (p.iffs.foldl (fun right left => .iff left right)) ∧
    Leads .implies .implies implications
      (p.implications.foldl fun right left => .implies left right) ∧
    Leads .and .or disjunction { p with conjunction := none }.disjunct ∧
    Leads .unary .and conjunction p.conjunct ∧
    Leads .unary .unary unary p.operand

namespace Pending

variable {p : Pending} {ts us : List Token} {f : Formula} {t n : Token}

theorem disjunct_eq (p : Pending) (f : Formula) :
    p.disjunct f = { p with conjunction := none }.disjunct (p.conjunct f) := by
  unfold disjunct
  cases p.disjunction <;> rfl

theorem spelledBy_empty : empty.SpelledBy [] :=
  ⟨[], [], [], [], [], rfl, fun _ _ h => h, fun _ _ h => h, fun _ _ h => .orOfAnd h,
    fun _ _ h => .andOfUnary h, fun _ _ h => h⟩

/-- One more unary operator waits. -/
theorem SpelledBy.unary (op : UnaryOp) (hp : p.SpelledBy ts)
    (hop : Leads .unary .unary us op.apply) :
    { p with unary := op :: p.unary }.SpelledBy (ts ++ us) := by
  obtain ⟨t₁, t₂, t₃, t₄, t₅, rfl, h₁, h₂, h₃, h₄, h₅⟩ := hp
  exact ⟨t₁, t₂, t₃, t₄, t₅ ++ us, by simp, h₁, h₂, h₃, h₄, h₅.trans hop⟩

/-- The waiting unary operators belong to the operand. -/
theorem SpelledBy.operand (hp : p.SpelledBy ts) (hf : Derives .unary us f) :
    ∃ vs ws, ts ++ us = vs ++ ws ∧ { p with unary := [] }.SpelledBy vs ∧
      Derives .unary ws (p.operand f) := by
  obtain ⟨t₁, t₂, t₃, t₄, t₅, rfl, h₁, h₂, h₃, h₄, h₅⟩ := hp
  exact ⟨t₁ ++ (t₂ ++ (t₃ ++ (t₄ ++ []))), t₅ ++ us, by simp,
    ⟨t₁, t₂, t₃, t₄, [], rfl, h₁, h₂, h₃, h₄, fun _ _ h => h⟩, h₅ us f hf⟩

/-- Behind an operand each level is complete. -/
theorem SpelledBy.levels (hp : p.SpelledBy ts) (hunary : p.unary = []) (hf : Derives .unary us f) :
    ∃ t₁ t₂ t₃ and, ts ++ us = t₁ ++ (t₂ ++ (t₃ ++ and)) ∧
      Leads .iff .iff t₁ (p.iffs.foldl (fun right left => .iff left right)) ∧
      Leads .implies .implies t₂ (p.implications.foldl fun right left => .implies left right) ∧
      Leads .and .or t₃ { p with conjunction := none }.disjunct ∧
      Derives .and and (p.conjunct f) ∧ Derives .or (t₃ ++ and) (p.disjunct f) ∧
      Derives .implies (t₂ ++ (t₃ ++ and)) (p.implication f) ∧
      Derives .iff (t₁ ++ (t₂ ++ (t₃ ++ and))) (p.formula f) := by
  obtain ⟨t₁, t₂, t₃, t₄, t₅, rfl, h₁, h₂, h₃, h₄, h₅⟩ := hp
  have hoperand : Derives .unary (t₅ ++ us) f := by
    have hf' := h₅ us f hf
    rwa [Pending.operand, hunary] at hf'
  have hand := h₄ _ _ hoperand
  have hor : Derives .or (t₃ ++ (t₄ ++ (t₅ ++ us))) (p.disjunct f) := by
    rw [disjunct_eq]
    exact h₃ _ _ hand
  have himplies := h₂ _ _ (.impliesOfOr hor)
  exact ⟨t₁, t₂, t₃, t₄ ++ (t₅ ++ us), by simp, h₁, h₂, h₃, hand, hor, himplies,
    h₁ _ _ (.iffOfImplies himplies)⟩

theorem SpelledBy.formula (hp : p.SpelledBy ts) (hunary : p.unary = []) (hf : Derives .unary us f) :
    Derives .iff (ts ++ us) (p.formula f) := by
  obtain ⟨t₁, t₂, t₃, and, heq, _, _, _, _, _, _, hiff⟩ := hp.levels hunary hf
  rw [heq]
  exact hiff

/-- A connective leaves what it completes waiting. -/
theorem SpelledBy.push {op : Connective} (hp : p.SpelledBy ts) (hunary : p.unary = [])
    (hf : Derives .unary us f) (ht : t.kind = op.kind) :
    (p.push op f).SpelledBy (ts ++ us ++ [t]) := by
  obtain ⟨t₁, t₂, t₃, and, heq, h₁, h₂, h₃, hand, hor, himplies, -⟩ := hp.levels hunary hf
  rw [heq]
  cases op with
  | and =>
      refine ⟨t₁, t₂, t₃, and ++ [t], [], by simp, h₁, h₂, h₃, ?_, fun _ _ h => h⟩
      intro vs g hg
      rw [List.append_assoc]
      exact .and hand ht hg
  | or =>
      refine ⟨t₁, t₂, t₃ ++ and ++ [t], [], [], by simp, h₁, h₂, ?_, fun _ _ h => .andOfUnary h,
        fun _ _ h => h⟩
      intro vs g hg
      rw [List.append_assoc]
      exact .or hor ht hg
  | implies =>
      have hleads : Leads .implies .implies (t₃ ++ and ++ [t]) (.implies (p.disjunct f)) := by
        intro vs g hg
        rw [List.append_assoc]
        exact .implies hor ht hg
      exact ⟨t₁, t₂ ++ (t₃ ++ and ++ [t]), [], [], [], by simp, h₁, h₂.trans hleads,
        fun _ _ h => .orOfAnd h, fun _ _ h => .andOfUnary h, fun _ _ h => h⟩
  | iff =>
      have hleads : Leads .iff .iff (t₂ ++ (t₃ ++ and) ++ [t]) (.iff (p.implication f)) := by
        intro vs g hg
        rw [List.append_assoc]
        exact .iff himplies ht hg
      exact ⟨t₁ ++ (t₂ ++ (t₃ ++ and) ++ [t]), [], [], [], [], by simp, h₁.trans hleads,
        fun _ _ h => h, fun _ _ h => .orOfAnd h, fun _ _ h => .andOfUnary h, fun _ _ h => h⟩

end Pending

/-- The tokens of an open bracket: what waits outside of it and the bracket, or the call so far. -/
inductive Opened.SpelledBy : Opened → List Token → Prop
  | bracket {outer : Pending} {ts : List Token} {t : Token} (houter : outer.SpelledBy ts)
      (ht : t.kind = .leftParen) : SpelledBy ⟨outer, none⟩ (ts ++ [t])
  | call {outer : Pending} {ts us : List Token} {name : String} {args : List Formula}
      (houter : outer.SpelledBy ts)
      (hcall : Leads .iff .call us fun f => .app name (f :: args).reverse) :
      SpelledBy ⟨outer, some (name, args)⟩ (ts ++ us)

/-- The tokens of the open brackets, the outermost first. -/
inductive Opened.AllSpelledBy : List Opened → List Token → Prop
  | nil : AllSpelledBy [] []
  | cons {o : Opened} {opened : List Opened} {ts us : List Token} (hopened : AllSpelledBy opened ts)
      (ho : o.SpelledBy us) : AllSpelledBy (o :: opened) (ts ++ us)

namespace Reading

/-- The tokens are the front of a text that the state has read. -/
inductive SpelledBy : Reading → List Token → Prop
  | operand {opened : List Opened} {p : Pending} {ts us : List Token}
      (hopened : Opened.AllSpelledBy opened ts) (hp : p.SpelledBy us) :
      SpelledBy ⟨opened, p, .operand false⟩ (ts ++ us)
  | afterBinder {opened : List Opened} {p : Pending} {ts us : List Token}
      (hopened : Opened.AllSpelledBy opened ts) (hp : p.SpelledBy us)
      (hsep : ∀ t : Token, t.kind = .comma ∨ t.kind = .dot → p.SpelledBy (us ++ [t])) :
      SpelledBy ⟨opened, p, .operand true⟩ (ts ++ us)
  | binder {opened : List Opened} {p : Pending} {q : Quantifier} {ts us : List Token} {t : Token}
      (hopened : Opened.AllSpelledBy opened ts) (hp : p.SpelledBy us) (ht : t.kind = q.kind) :
      SpelledBy ⟨opened, p, .binder q⟩ (ts ++ (us ++ [t]))
  | afterName {opened : List Opened} {p : Pending} {ts us : List Token} {n : Token}
      (hopened : Opened.AllSpelledBy opened ts) (hp : p.SpelledBy us) (hn : n.kind = .name) :
      SpelledBy ⟨opened, p, .afterName n.text⟩ (ts ++ (us ++ [n]))
  | afterOperand {opened : List Opened} {p : Pending} {ts us vs : List Token} {f : Formula}
      (hopened : Opened.AllSpelledBy opened ts) (hp : p.SpelledBy us) (hunary : p.unary = [])
      (hf : Derives .unary vs f) : SpelledBy ⟨opened, p, .afterOperand f⟩ (ts ++ (us ++ vs))

variable {opened : List Opened} {p : Pending} {ts us vs : List Token} {t : Token} {f : Formula}
  {s s' : Reading}

theorem spelledBy_complete (next : Expectation) (hopened : Opened.AllSpelledBy opened ts)
    (hp : p.SpelledBy us) (hf : Derives .unary vs f) :
    (complete ⟨opened, p, next⟩ f).SpelledBy (ts ++ (us ++ vs)) := by
  obtain ⟨xs, ys, heq, hp', hf'⟩ := hp.operand hf
  rw [heq]
  exact .afterOperand hopened hp' rfl hf'

theorem spelledBy_openBracket {call : Option (String × List Formula)} {next : Expectation}
    (hopened : Opened.AllSpelledBy opened ts) (ho : Opened.SpelledBy ⟨p, call⟩ us) :
    (openBracket ⟨opened, p, next⟩ call).SpelledBy (ts ++ us) := by
  rw [← List.append_nil (ts ++ us)]
  exact .operand (.cons hopened ho) Pending.spelledBy_empty

/-- Where an operand must come a token starts one, or an operator in front of one. -/
theorem spelledBy_readOperand (afterBinder : Bool) (hopened : Opened.AllSpelledBy opened ts)
    (hp : p.SpelledBy us)
    (hsep : afterBinder = true → t.kind = .comma ∨ t.kind = .dot → p.SpelledBy (us ++ [t]))
    (h : readOperand ⟨opened, p, .operand afterBinder⟩ afterBinder t = .ok s') :
    s'.SpelledBy (ts ++ us ++ [t]) := by
  rw [List.append_assoc]
  have separator (ht : t.kind = .comma ∨ t.kind = .dot)
      (h : (if afterBinder then .ok ⟨opened, p, .operand false⟩ else refuse t) = .ok s') :
      s'.SpelledBy (ts ++ (us ++ [t])) := by
    split at h
    · next hbinder =>
        cases h
        exact .operand hopened (hsep hbinder ht)
    · cases h
  unfold readOperand at h
  split at h
  · next ht =>
      cases h
      exact .operand hopened (hp.unary .neg fun _ _ hf => .neg ht hf)
  · next ht =>
      cases h
      exact .binder hopened hp ht
  · next ht =>
      cases h
      exact .binder hopened hp ht
  · next ht =>
      cases h
      exact spelledBy_complete _ hopened hp (.unaryOfAtom (.top ht))
  · next ht =>
      cases h
      exact spelledBy_complete _ hopened hp (.unaryOfAtom (.bottom ht))
  · next ht =>
      cases h
      exact .afterName hopened hp ht
  · next ht =>
      cases h
      exact spelledBy_openBracket hopened (.bracket hp ht)
  · next ht => exact separator (.inl ht) h
  · next ht => exact separator (.inr ht) h
  · cases h

theorem spelledBy_readBinder {q : Quantifier} {n : Token} (hopened : Opened.AllSpelledBy opened ts)
    (hp : p.SpelledBy us) (ht : t.kind = q.kind)
    (h : readBinder ⟨opened, p, .binder q⟩ q n = .ok s') :
    s'.SpelledBy (ts ++ (us ++ [t]) ++ [n]) := by
  unfold readBinder at h
  split at h
  · next hn =>
      cases h
      rw [List.append_assoc, List.append_assoc]
      refine .afterBinder hopened ?_ ?_
      · exact hp.unary (.quant q n.text) fun _ _ hf => .unaryOfQuantifier (.quant ht hn hf)
      · intro sep hsep
        rw [List.append_assoc]
        exact hp.unary (.quant q n.text) fun _ _ hf =>
          .unaryOfQuantifier (.quantSeparated ht hn hsep hf)
  · cases h

/-- A comma ends an argument of the call that is open. -/
theorem spelledBy_comma {outer : Pending} {name : String} {args : List Formula}
    (hopened : Opened.AllSpelledBy (⟨outer, some (name, args)⟩ :: opened) ts)
    (hf : Derives .iff us f) (ht : t.kind = .comma) :
    SpelledBy ⟨⟨outer, some (name, f :: args)⟩ :: opened, .empty, .operand false⟩
      (ts ++ us ++ [t]) := by
  cases hopened with
  | @cons _ _ ts _ hopened ho =>
      cases ho with
      | @call _ vs ws _ _ houter hcall =>
          have hcall' : Leads .iff .call (ws ++ us ++ [t])
              fun g => .app name (g :: f :: args).reverse := by
            intro xs g hg
            show Derives .call _ (.app name (g :: f :: args).reverse)
            rw [List.append_assoc, List.reverse_cons]
            exact .nextArgument (hcall _ _ hf) ht hg
          have hspelled := SpelledBy.operand (.cons hopened (.call houter hcall'))
            Pending.spelledBy_empty
          simpa using hspelled

/-- A closing bracket makes an operand of what stands in the brackets. -/
theorem spelledBy_close {outer : Pending} {call : Option (String × List Formula)}
    {next : Expectation} (hopened : Opened.AllSpelledBy (⟨outer, call⟩ :: opened) ts)
    (hf : Derives .iff us f) (ht : t.kind = .rightParen) :
    (complete ⟨opened, outer, next⟩ (call.elim f fun c => .app c.1 (f :: c.2).reverse)).SpelledBy
      (ts ++ us ++ [t]) := by
  cases hopened with
  | @cons _ _ ts _ hopened ho =>
      cases ho with
      | bracket houter hleft =>
          have hspelled := spelledBy_complete next hopened houter
            (.unaryOfAtom (.bracketed hleft hf ht))
          simpa using hspelled
      | call houter hcall =>
          have hspelled := spelledBy_complete next hopened houter
            (.unaryOfAtom (.application (hcall _ _ hf) ht))
          simpa using hspelled

theorem refuseAfter_ne_ok : s.refuseAfter t ≠ .ok s' := by
  intro h
  unfold refuseAfter refuse at h
  split at h <;> cases h

/-- Behind an operand a token makes a phrase longer or ends one. -/
theorem spelledBy_readAfter {next : Expectation} (hopened : Opened.AllSpelledBy opened ts)
    (hp : p.SpelledBy us) (hunary : p.unary = []) (hf : Derives .unary vs f)
    (h : readAfter ⟨opened, p, next⟩ f t = .ok s') : s'.SpelledBy (ts ++ (us ++ vs) ++ [t]) := by
  have hinner := hp.formula hunary hf
  have connective (op : Connective) (ht : t.kind = op.kind) :
      SpelledBy ⟨opened, p.push op f, .operand false⟩ (ts ++ (us ++ vs) ++ [t]) := by
    rw [List.append_assoc]
    exact .operand hopened (hp.push hunary hf ht)
  unfold readAfter at h
  split at h
  · next ht =>
      cases h
      exact connective .and ht
  · next ht =>
      cases h
      exact connective .or ht
  · next ht =>
      cases h
      exact connective .implies ht
  · next ht =>
      cases h
      exact connective .iff ht
  · next ht =>
      split at h
      · next heq =>
          cases heq
          cases h
          exact spelledBy_comma hopened hinner ht
      · exact absurd h refuseAfter_ne_ok
  · next ht =>
      split at h
      · next heq =>
          cases heq
          cases h
          exact spelledBy_close hopened hinner ht
      · next heq =>
          cases heq
          cases h
          exact spelledBy_close hopened hinner ht
      · cases h
  · exact absurd h refuseAfter_ne_ok

/-- One more token keeps the state in step with the text. -/
theorem SpelledBy.step (hs : s.SpelledBy ts) (h : s.step t = .ok s') :
    s'.SpelledBy (ts ++ [t]) := by
  cases hs with
  | operand hopened hp => exact spelledBy_readOperand false hopened hp nofun h
  | afterBinder hopened hp hsep => exact spelledBy_readOperand true hopened hp (fun _ => hsep t) h
  | binder hopened hp ht => exact spelledBy_readBinder hopened hp ht h
  | @afterName _ _ ts us n hopened hp hn =>
      unfold Reading.step at h
      dsimp only at h
      split at h
      · next ht =>
          cases h
          rw [List.append_assoc, List.append_assoc]
          exact spelledBy_openBracket hopened (.call hp fun _ _ hf => .firstArgument hn ht hf)
      · -- the name is the whole operand
        obtain ⟨vs, ws, heq, hp', hf'⟩ := hp.operand (.unaryOfAtom (.name hn))
        rw [heq]
        exact spelledBy_readAfter hopened hp' rfl hf' h
  | afterOperand hopened hp hunary hf => exact spelledBy_readAfter hopened hp hunary hf h

theorem SpelledBy.foldlM (hs : s.SpelledBy ts) (h : us.foldlM Reading.step s = .ok s') :
    s'.SpelledBy (ts ++ us) := by
  induction us generalizing s ts with
  | nil =>
      cases h
      rw [List.append_nil]
      exact hs
  | cons t us ih =>
      obtain ⟨s₁, hstep, hrest⟩ := bind_eq_ok.1 h
      rw [List.append_cons]
      exact ih (hs.step hstep) hrest

/-- A text may end where the phrase that it spells is complete. -/
theorem SpelledBy.finish {column : Nat} (hs : s.SpelledBy ts) (h : s.finish column = .ok f) :
    Derives .iff ts f := by
  cases hs with
  | operand => cases h
  | afterBinder => cases h
  | binder => cases h
  | afterName hopened hp hn =>
      obtain ⟨vs, ws, heq, hp', hf'⟩ := hp.operand (.unaryOfAtom (.name hn))
      rw [heq]
      cases hopened with
      | nil =>
          cases h
          exact hp'.formula rfl hf'
      | cons => cases h
  | afterOperand hopened hp hunary hf =>
      cases hopened with
      | nil =>
          cases h
          exact hp.formula hunary hf
      | cons => cases h

end Reading

/-- Reading accepts nothing but what the grammar derives. -/
theorem Formula.derives_of_ofTokens {tokens : List Token} {endColumn : Nat} {f : Formula}
    (h : Formula.ofTokens tokens endColumn = .ok f) : Derives .iff tokens f := by
  have hstart : Reading.start.SpelledBy [] := .operand .nil Pending.spelledBy_empty
  cases tokens with
  | nil => cases h
  | cons t ts =>
      obtain ⟨s, hrun, hfinish⟩ := bind_eq_ok.1 h
      exact (hstart.foldlM hrun).finish hfinish

/-- Of a text that can be cut into tokens, reading gives exactly the formula that the tokens derive,
    and no tokens derive two formulas. -/
theorem Formula.parse_eq_ok_iff_derives :
    (∀ {text : String} {tokens : List Token}, Token.scan text = .ok tokens →
      ∀ f, Formula.parse text = .ok f ↔ Derives .iff tokens f) ∧
    ∀ {tokens : List Token} {f g : Formula},
      Derives .iff tokens f → Derives .iff tokens g → f = g := by
  constructor
  · intro text tokens hscan f
    have hparse : Formula.parse text = Formula.ofTokens tokens (text.length + 1) := by
      rw [Formula.parse, hscan]
      rfl
    rw [hparse]
    exact ⟨derives_of_ofTokens, fun h => ofTokens_of_derives h _⟩
  · intro tokens f g hf hg
    have hread := ofTokens_of_derives hf 0
    rw [ofTokens_of_derives hg 0] at hread
    exact (Except.ok.inj hread).symm

theorem Formula.parse_eq_ok_iff_derives_mixed :
    ∃ tokens,
      Token.scan "forall x. P(x, exists y y) & _|_ -> Q -> ~R | S & T <-> (^|^)" = .ok tokens ∧
      ∀ f, Derives .iff tokens f ↔ f = .iff
        (.implies
          (.and (.quant .all "x" (.app "P" [.var "x", .quant .ex "y" (.var "y")])) .bottom)
          (.implies (.var "Q") (.or (.neg (.var "R")) (.and (.var "S") (.var "T")))))
        .top := by
  have hparse : Formula.parse "forall x. P(x, exists y y) & _|_ -> Q -> ~R | S & T <-> (^|^)" =
      .ok (.iff
        (.implies
          (.and (.quant .all "x" (.app "P" [.var "x", .quant .ex "y" (.var "y")])) .bottom)
          (.implies (.var "Q") (.or (.neg (.var "R")) (.and (.var "S") (.var "T")))))
        .top) := by
    rfl
  obtain ⟨tokens, hscan, -⟩ := bind_eq_ok.1 hparse
  have hderives := (Formula.parse_eq_ok_iff_derives.1 hscan _).1 hparse
  refine ⟨tokens, hscan, fun f => ⟨fun hf => Formula.parse_eq_ok_iff_derives.2 hf hderives, ?_⟩⟩
  rintro rfl
  exact hderives

end Deduction
