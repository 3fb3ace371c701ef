import Deduction.Derivation.Visibility

set_option autoImplicit false

/-! # Structural edits

Insertions and removals change one scope and leave every other reference where it was. New parts take
the next numbers of the derivation. An edit that is refused, because its place does not exist or the
part may not go, changes nothing. While a line is held for a change no structural edit is allowed at
all. -/

namespace Deduction

/-! ## Edits of lines -/

namespace Lines

/-- Changes the scope of one subproof. -/
def modifyScope (id : Int) (change : Scope → Scope) : Lines → Lines
  | .nil => .nil
  | .step i content rest => .step i content (rest.modifyScope id change)
  | .subproof i premises body rest =>
    if i = id then
      let scope := change ⟨premises, body⟩
      .subproof i scope.premises scope.lines rest
    else .subproof i premises (body.modifyScope id change) (rest.modifyScope id change)

/-- Puts something in front of or behind one of the lines, in its scope. `new` is put in front of the
    lines that follow it. -/
def insertBeside (anchor : Ref) (after : Bool) (new : Lines → Lines) : Lines → Lines
  | .nil => .nil
  | .step i content rest =>
    if anchor = .step i then
      if after then .step i content (new rest) else new (.step i content rest)
    else .step i content (rest.insertBeside anchor after new)
  | .subproof i premises body rest =>
    if anchor = .subproof i then
      if after then .subproof i premises body (new rest) else new (.subproof i premises body rest)
    else
      .subproof i premises (body.insertBeside anchor after new)
        (rest.insertBeside anchor after new)

/-- Removes a step, or a subproof with all that is nested in it. -/
def erase (r : Ref) : Lines → Lines
  | .nil => .nil
  | .step i content rest => if r = .step i then rest else .step i content (rest.erase r)
  | .subproof i premises body rest =>
    if r = .subproof i then rest else .subproof i premises (body.erase r) (rest.erase r)

/-- Changes every list of premises. -/
def mapPremises (change : List Premise → List Premise) : Lines → Lines
  | .nil => .nil
  | .step i content rest => .step i content (rest.mapPremises change)
  | .subproof i premises body rest =>
    .subproof i (change premises) (body.mapPremises change) (rest.mapPremises change)

end Lines

/-- Puts a premise in front of or behind the premise of a given number, if that is in the list. -/
def insertPremise (anchor : Int) (after : Bool) (new : Premise) : List Premise → List Premise
  | [] => []
  | p :: ps =>
    if p.id = anchor then if after then p :: new :: ps else new :: p :: ps
    else p :: insertPremise anchor after new ps

/-- A subproof that takes three numbers from `id` on, with a blank premise and a blank step. -/
def Lines.blankSubproof (id : Int) : Lines → Lines :=
  .subproof id [⟨id + 1, none⟩] (.step (id + 2) .blank .nil)

namespace Derivation

/-! ## Refusals -/

/-- The derivation is held for the change of a line. -/
inductive AccessError where
  | held
deriving DecidableEq

def AccessError.message : AccessError → String
  | .held => "proof is held by a with_mut_* callback"

/-- The result of an edit, and the derivation after it. -/
abbrev Edited (α : Type) := Except AccessError (α × Derivation)

/-- A structural edit: not allowed while a line is held; a refused one gives `refused` and changes
    nothing. -/
def structural {α : Type} (d : Derivation) (refused : α) (change : Option (α × Derivation)) :
    Edited α :=
  if d.held.isSome then .error .held else .ok (change.getD (refused, d))

/-! ## Places -/

/-- Does the scope exist? None stands for the outermost one. -/
def hasScope (d : Derivation) : Option Ref → Bool
  | none => true
  | some r => (d.scope? r).isSome

/-- Is it a step or a subproof of this derivation? -/
def hasLine (d : Derivation) (r : Ref) : Bool := r.followsPremises && d.contains r

/-- Changes a scope that exists. -/
def modifyScope (d : Derivation) (within : Option Ref) (change : Scope → Scope) : Derivation :=
  match within with
  | none => { d with root := change d.root }
  | some r => { d with root := { d.root with lines := d.root.lines.modifyScope r.id change } }

/-- The derivation with the next `count` numbers taken. -/
def draw (d : Derivation) (count : Int) : Derivation := { d with nextId := d.nextId + count }

/-! ## Insertions -/

/-- Puts a premise behind the premises of a scope. -/
def addPremise (d : Derivation) (formula : Option Formula) (within : Option Ref) :
    Edited (Option Ref) :=
  d.structural none <|
    if d.hasScope within then
      let new : Premise := ⟨d.nextId, formula⟩
      some (some new.ref, (d.draw 1).modifyScope within fun scope =>
        { scope with premises := scope.premises ++ [new] })
    else none

/-- Puts a premise in front of or behind a premise, in the same scope. -/
def addPremiseBeside (d : Derivation) (formula : Option Formula) (anchor : Ref) (after : Bool) :
    Edited (Option Ref) :=
  d.structural none <|
    if (d.premise? anchor).isSome then
      let new : Premise := ⟨d.nextId, formula⟩
      let change := insertPremise anchor.id after new
      some (some new.ref, { d.draw 1 with
        root := ⟨change d.root.premises, d.root.lines.mapPremises change⟩ })
    else none

/-- Puts a step in front of the lines of a scope. -/
def prependStep (d : Derivation) (content : Step) (within : Option Ref) : Edited (Option Ref) :=
  d.structural none <|
    if d.hasScope within then
      some (some (.step d.nextId), (d.draw 1).modifyScope within fun scope =>
        { scope with lines := .step d.nextId content scope.lines })
    else none

/-- Puts a step behind the lines of a scope. -/
def addStep (d : Derivation) (content : Step) (within : Option Ref) : Edited (Option Ref) :=
  d.structural none <|
    if d.hasScope within then
      some (some (.step d.nextId), (d.draw 1).modifyScope within fun scope =>
        { scope with lines := scope.lines.append (.step d.nextId content .nil) })
    else none

/-- Puts lines in front of or behind a line, in the same scope. -/
def insertBeside (d : Derivation) (anchor : Ref) (after : Bool) (new : Lines → Lines) : Derivation :=
  { d with root := { d.root with lines := d.root.lines.insertBeside anchor after new } }

/-- Puts a step in front of or behind a step or subproof, in the same scope. -/
def addStepBeside (d : Derivation) (content : Step) (anchor : Ref) (after : Bool) :
    Edited (Option Ref) :=
  d.structural none <|
    if d.hasLine anchor then
      some (some (.step d.nextId), (d.draw 1).insertBeside anchor after (.step d.nextId content))
    else none

/-- Puts a subproof behind the lines of a scope. Unless it is to be empty it gets a blank premise and
    a blank step. -/
def addSubproof (d : Derivation) (within : Option Ref) (empty : Bool) : Edited (Option Ref) :=
  d.structural none <|
    if d.hasScope within then
      let new := if empty then Lines.subproof d.nextId [] .nil .nil else .blankSubproof d.nextId .nil
      some (some (.subproof d.nextId), (d.draw (if empty then 1 else 3)).modifyScope within
        fun scope => { scope with lines := scope.lines.append new })
    else none

/-- Puts a subproof with a blank premise and a blank step in front of or behind a step or subproof. -/
def addSubproofBeside (d : Derivation) (anchor : Ref) (after : Bool) : Edited (Option Ref) :=
  d.structural none <|
    if d.hasLine anchor then
      some (some (.subproof d.nextId),
        (d.draw 3).insertBeside anchor after (.blankSubproof d.nextId))
    else none

/-! ## Removals -/

/-- Steps may always be removed. Of the premises only those of the outermost scope may, and one of
    them has to stay. -/
def mayRemoveLine (d : Derivation) : Ref → Bool
  | .step id => (d.step? (.step id)).isSome
  | .premise id => d.root.premiseRefs.contains (.premise id) && decide (1 < d.root.premises.length)
  | .subproof _ => false

/-- Removes a premise or a step. -/
def removeLine (d : Derivation) (r : Ref) : Edited Bool :=
  d.structural false <|
    if d.mayRemoveLine r then
      some (true, { d with
        root := ⟨d.root.premises.filter fun p => p.ref ≠ r, d.root.lines.erase r⟩ })
    else none

/-- Removes a subproof and everything nested in it. -/
def removeSubproof (d : Derivation) (r : Ref) : Edited Bool :=
  d.structural false <|
    if (d.scope? r).isSome then
      some (true, { d with root := { d.root with lines := d.root.lines.erase r } })
    else none

end Derivation

end Deduction
