import Deduction.Formula.Basic
import Deduction.Token

set_option autoImplicit false

/-! # Reading formulas

The grammar, loosest binding first:

    iff        := implies ('<->' iff)?
    implies    := or ('->' implies)?
    or         := and ('|' and)*
    and        := unary ('&' unary)*
    unary      := '~' unary | quantifier | atom
    quantifier := ('forall' | 'exists') NAME (',' | '.')? unary
    atom       := '^|^' | '_|_' | NAME ('(' iff (',' iff)* ')')? | '(' iff ')'

The tokens are read one by one, each once. What has been read is kept as a `Reading`: for every
bracket that is still open, and for the outermost level, the operators that wait for a right
operand. A token that cannot continue the text read so far is refused at once, so an error always
points at the first token with which no formula goes on. -/

namespace Deduction

/-! ## One bracket level -/

/-- An operator in front of its operand. -/
inductive UnaryOp where
  | neg
  | quant (q : Quantifier) (name : String)

def UnaryOp.apply : UnaryOp → Formula → Formula
  | .neg, f => .neg f
  | .quant q name, f => .quant q name f

/-- What waits for a right operand at one bracket level: left sides of `<->` and of `->`, the
    nearest first, the disjunction and the conjunction so far, and the unary operators, the nearest
    first. -/
structure Pending where
  iffs : List Formula
  implications : List Formula
  disjunction : Option Formula
  conjunction : Option Formula
  unary : List UnaryOp

namespace Pending

def empty : Pending := ⟨[], [], none, none, []⟩

/-- An operand under the waiting unary operators. -/
def operand (p : Pending) (f : Formula) : Formula := p.unary.foldl (fun f op => op.apply f) f

/-- The conjunction that an operand completes. -/
def conjunct (p : Pending) (f : Formula) : Formula :=
  match p.conjunction with
  | none => f
  | some left => .and left f

/-- The disjunction that an operand completes. -/
def disjunct (p : Pending) (f : Formula) : Formula :=
  match p.disjunction with
  | none => p.conjunct f
  | some left => .or left (p.conjunct f)

/-- The implication that an operand completes. -/
def implication (p : Pending) (f : Formula) : Formula :=
  p.implications.foldl (fun right left => .implies left right) (p.disjunct f)

/-- The formula that an operand completes. -/
def formula (p : Pending) (f : Formula) : Formula :=
  p.iffs.foldl (fun right left => .iff left right) (p.implication f)

/-- A binary connective has been read behind the operand `f`. -/
def push (p : Pending) (op : Connective) (f : Formula) : Pending :=
  match op with
  | .and => { p with conjunction := some (p.conjunct f), unary := [] }
  | .or => { p with disjunction := some (p.disjunct f), conjunction := none, unary := [] }
  | .implies =>
    { p with implications := p.disjunct f :: p.implications, disjunction := none,
             conjunction := none, unary := [] }
  | .iff => { empty with iffs := p.implication f :: p.iffs }

end Pending

/-! ## The state of reading -/

/-- An open bracket: what waits outside of it and, for the brackets of an application, its name and
    the arguments read so far, the last one first. -/
structure Opened where
  outer : Pending
  call : Option (String × List Formula)

/-- What may come next. -/
inductive Expectation where
  /-- An operand. Right behind a bound name a comma or a dot may come before it. -/
  | operand (afterBinder : Bool)
  /-- The name that a quantifier binds. -/
  | binder (q : Quantifier)
  /-- Whatever follows a name, which may be the arguments of it. -/
  | afterName (name : String)
  /-- Whatever follows an operand that is complete, its unary operators included. -/
  | afterOperand (f : Formula)

structure Reading where
  opened : List Opened
  pending : Pending
  next : Expectation

namespace Reading

def start : Reading := ⟨[], .empty, .operand false⟩

/-- Refuses a token that cannot come here. -/
def refuse (t : Token) : Except ParseError Reading := .error ⟨t.column, .unexpected t.text⟩

/-- An operand is complete but for the waiting unary operators. -/
def complete (s : Reading) (f : Formula) : Reading :=
  { s with pending := { s.pending with unary := [] }, next := .afterOperand (s.pending.operand f) }

/-- A bracket has been opened. -/
def openBracket (s : Reading) (call : Option (String × List Formula)) : Reading :=
  ⟨⟨s.pending, call⟩ :: s.opened, .empty, .operand false⟩

/-- A token where an operand must come. -/
def readOperand (s : Reading) (afterBinder : Bool) (t : Token) : Except ParseError Reading :=
  match t.kind with
  | .not =>
    .ok { s with pending := { s.pending with unary := .neg :: s.pending.unary },
                 next := .operand false }
  | .all => .ok { s with next := .binder .all }
  | .ex => .ok { s with next := .binder .ex }
  | .top => .ok (s.complete .top)
  | .bottom => .ok (s.complete .bottom)
  | .name => .ok { s with next := .afterName t.text }
  | .leftParen => .ok (s.openBracket none)
  | .comma | .dot => if afterBinder then .ok { s with next := .operand false } else refuse t
  | _ => refuse t

/-- A token where the name that a quantifier binds must come. -/
def readBinder (s : Reading) (q : Quantifier) (t : Token) : Except ParseError Reading :=
  if t.kind = .name then
    .ok { s with pending := { s.pending with unary := .quant q t.text :: s.pending.unary },
                 next := .operand true }
  else
    .error ⟨t.column, .expected .name t.text⟩

/-- Refuses a token behind an operand: inside a bracket its end was due. -/
def refuseAfter (s : Reading) (t : Token) : Except ParseError Reading :=
  match s.opened with
  | [] => refuse t
  | _ :: _ => .error ⟨t.column, .expected .rightParen t.text⟩

/-- A token behind the complete operand `f`. -/
def readAfter (s : Reading) (f : Formula) (t : Token) : Except ParseError Reading :=
  match t.kind with
  | .and => .ok { s with pending := s.pending.push .and f, next := .operand false }
  | .or => .ok { s with pending := s.pending.push .or f, next := .operand false }
  | .implies => .ok { s with pending := s.pending.push .implies f, next := .operand false }
  | .iff => .ok { s with pending := s.pending.push .iff f, next := .operand false }
  | .comma =>
    match s.opened with
    | ⟨outer, some (name, args)⟩ :: opened =>
      .ok ⟨⟨outer, some (name, s.pending.formula f :: args)⟩ :: opened, .empty, .operand false⟩
    | _ => s.refuseAfter t
  | .rightParen =>
    match s.opened with
    | ⟨outer, none⟩ :: opened =>
      .ok (complete ⟨opened, outer, .operand false⟩ (s.pending.formula f))
    | ⟨outer, some (name, args)⟩ :: opened =>
      .ok (complete ⟨opened, outer, .operand false⟩
        (.app name (s.pending.formula f :: args).reverse))
    | [] => refuse t
  | _ => s.refuseAfter t

/-- Reads one more token. -/
def step (s : Reading) (t : Token) : Except ParseError Reading :=
  match s.next with
  | .operand afterBinder => s.readOperand afterBinder t
  | .binder q => s.readBinder q t
  | .afterName name =>
    if t.kind = .leftParen then .ok (s.openBracket (some (name, [])))
    else (s.complete (.var name)).readAfter (s.pending.operand (.var name)) t
  | .afterOperand f => s.readAfter f t

/-- The formula read, when the text ends at the given column. -/
def finish (s : Reading) (column : Nat) : Except ParseError Formula :=
  match s.next with
  | .operand _ => .error ⟨column, .unexpected ""⟩
  | .binder _ => .error ⟨column, .expected .name ""⟩
  | .afterName name =>
    match s.opened with
    | [] => .ok (s.pending.formula (s.pending.operand (.var name)))
    | _ :: _ => .error ⟨column, .expected .rightParen ""⟩
  | .afterOperand f =>
    match s.opened with
    | [] => .ok (s.pending.formula f)
    | _ :: _ => .error ⟨column, .expected .rightParen ""⟩

end Reading

namespace Formula

/-- The formula that the tokens of a text spell, the text ending before `endColumn`. -/
def ofTokens (tokens : List Token) (endColumn : Nat) : Except ParseError Formula :=
  match tokens with
  | [] => .error ⟨endColumn, .emptyExpression⟩
  | _ :: _ => do
    let s ← tokens.foldlM Reading.step Reading.start
    s.finish endColumn

/-- Reads a formula. -/
def parse (text : String) : Except ParseError Formula := do
  let tokens ← Token.scan text
  ofTokens tokens (text.length + 1)

/-- Reads a formula, or nothing if the text is none. -/
def parse? (text : String) : Option Formula := (parse text).toOption

end Formula

end Deduction
