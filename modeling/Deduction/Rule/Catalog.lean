import Deduction.Rule.Equivalences
import Deduction.Text.Title
import Deduction.TruthTable

set_option autoImplicit false

/-! # The rule catalog

A catalog holds rules by their names, in order, and sorts them into named groups. It is built from a
definition, which may give pattern tables and groups of its own and say how much is to be checked.
Building stops at the first defect. -/

namespace Deduction

structure Catalog where
  /-- The rules, no two of one name. -/
  rules : List Rule
  /-- The groups, each with the names of its rules. -/
  groups : List (String × List String)
deriving DecidableEq

namespace Catalog

/-! ## Look-up -/

def lookup (c : Catalog) (name : String) : Option Rule := c.rules.find? (·.name == name)

def contains (c : Catalog) (name : String) : Bool := (c.lookup name).isSome

/-- The rules of the given names. -/
def members (c : Catalog) (names : List String) : List Rule := names.filterMap c.lookup

/-- Every group with its rules, in the order of the menu. -/
def classifications (c : Catalog) : List (String × List Rule) :=
  c.groups.map fun (group, names) => (group, c.members names)

/-- The rules of a group; none if there is no such group. -/
def rulesIn (c : Catalog) (group : String) : List Rule :=
  match c.groups.find? (·.1 == group) with
  | none => []
  | some (_, names) => c.members names

/-- The first group that a rule is in. -/
def groupOf (c : Catalog) (name : String) : Option String :=
  (c.groups.find? fun (_, names) => names.contains name).map Prod.fst

/-- A rule's name for display: `CONDITIONAL_IMPLICATION` is shown as `Conditional Implication`. -/
def displayName (name : String) : String :=
  Text.title (String.ofList (name.toList.map fun c => if c = '_' then ' ' else c))

/-! ## Building -/

/-- What a catalog is to be built from. -/
structure Definition where
  /-- The patterns of each rule; the built-in rules if there are no tables. -/
  tables : Option (List (String × List (String × String))) := none
  /-- The groups. Built-in rules fall back on the built-in groups, other rules on a single group. -/
  classifications : Option (List (String × List String)) := none
  /-- Is every clause to use each free name with one number of arguments? -/
  validate : Bool := true
  /-- Is every clause to be an equivalence? -/
  checkTruthTables : Bool := false
  /-- The limit of the truth-table check; none and zero stand for the usual one. -/
  maxSlots : Option Int := none

inductive BuildError where
  | badPattern (rule : String) (e : ParseError)
  | arity (conflict : ArityConflict)
  | unknownRules (group : String) (missing : List String)
  | unsound (e : SoundnessError)

def BuildError.message : BuildError → String
  | .badPattern rule e => rule ++ ": bad pattern: " ++ e.message
  | .arity conflict => conflict.message
  | .unknownRules group missing =>
    "group " ++ Text.quote group ++ " names unknown rules [" ++
      commaSeparated (missing.map Text.quote) ++ "]"
  | .unsound e => e.message

/-- Takes a rule into the catalog. -/
def acceptRule (validate : Bool) (rule : Rule) : Except BuildError Rule := do
  if validate then rule.validate.mapError .arity
  return rule

/-- Reads the patterns of a rule and takes it into the catalog. -/
def readRule (validate : Bool) (name : String) (patterns : List (String × String)) :
    Except BuildError Rule := do
  let rule ← (Rule.ofPatterns name patterns).mapError (.badPattern name)
  acceptRule validate rule

/-- The group that holds all rules when no groups are given. -/
def soleGroup : String := "Equivalence"

/-- A group may only name rules that there are. -/
def checkGroup (rules : List Rule) (group : String) (names : List String) :
    Except BuildError Unit :=
  let missing := names.filter fun name => !rules.any (·.name == name)
  if missing.isEmpty then .ok () else .error (.unknownRules group missing)

/-- The limit that a definition sets for the truth-table check. -/
def Definition.slotLimit (d : Definition) : Int :=
  match d.maxSlots with
  | none => defaultMaxSlots
  | some limit => if limit = 0 then defaultMaxSlots else limit

/-- The rules of a definition. -/
def Definition.rules (d : Definition) : Except BuildError (List Rule) :=
  match d.tables with
  | none => Equivalences.rules.mapM (acceptRule d.validate)
  | some tables =>
    (Assoc.ofPairs tables).mapM fun (name, patterns) => readRule d.validate name patterns

/-- The groups of a definition that has the given rules. -/
def Definition.groups (d : Definition) (rules : List Rule) : List (String × List String) :=
  match d.tables, d.classifications with
  | none, none => Equivalences.groups
  | none, some [] => Equivalences.groups
  | some _, none => [(soleGroup, rules.map Rule.name)]
  | _, some groups => Assoc.ofPairs groups

/-- Builds a catalog. -/
def build (d : Definition) : Except BuildError Catalog := do
  let rules ← d.rules
  let groups := d.groups rules
  groups.forM fun (group, names) => checkGroup rules group names
  if d.checkTruthTables then
    let _ ← (requireSound rules d.slotLimit).mapError .unsound
  return ⟨rules, groups⟩

/-- The built-in catalog. -/
def builtin : Catalog := ⟨Equivalences.rules, Equivalences.groups⟩

end Catalog

end Deduction
