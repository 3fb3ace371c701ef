import Deduction.Sample
import Deduction.Text.Integer
import Deduction.TruthTable

set_option autoImplicit false

/-! # Command-line arguments

Options are long words behind two dashes, which may be cut short as long as they stay unambiguous; a
value follows as the next argument or behind an equals sign. Help is also asked for by a short
option. There are no other arguments: a word that is no option is left over, and so is everything
behind a double dash, and left-over words are a mistake.

Arguments are dealt with in order. A request for help counts when it is reached, so mistakes in front
of it are reported and those behind it are not. A double dash behind an equals sign takes the value of
the option away. -/

namespace Deduction.CommandLine

/-- What the program is asked to do. -/
structure Options where
  sample : Option Sample := some .substitution
  catalog : Bool := false
  checkCatalog : Bool := false
  maxSlots : Option Int := some defaultMaxSlots
  dump : Bool := false
  /-- The file for the graph; the empty name stands for none. -/
  graphFile : String := ""
  verbose : Bool := false
  quiet : Bool := false

/-- Why there are no options to act on. -/
inductive Stop where
  /-- Help was asked for. -/
  | help
  /-- The arguments make no sense. -/
  | mistake
deriving DecidableEq

/-- Options without a value. -/
inductive Switch where
  | help | catalog | checkCatalog | dump | verbose | quiet
deriving DecidableEq

/-- Options with a value. -/
inductive Setting where
  | sample | maxSlots | graphFile
deriving DecidableEq

/-- The long word of a setting. -/
def Setting.word : Setting → String
  | .sample => "--demo"
  | .maxSlots => "--max-slots"
  | .graphFile => "--dot"

inductive Name where
  | switch (s : Switch)
  | setting (s : Setting)
deriving DecidableEq

/-- The options by their long words. -/
def names : List (String × Name) := [
  ("--help", .switch .help), ("--demo", .setting .sample), ("--catalog", .switch .catalog),
  ("--check-catalog", .switch .checkCatalog), ("--max-slots", .setting .maxSlots),
  ("--dump", .switch .dump), ("--dot", .setting .graphFile), ("--verbose", .switch .verbose),
  ("--quiet", .switch .quiet)]

/-- The notice that tells how to use the program. -/
def usage : String :=
  "usage: [-h] [--demo NAME] [--catalog] [--check-catalog] [--max-slots N] [--dump] [--dot FILE] "
    ++ "[--verbose | --quiet]"

/-! ## Words -/

/-- What an argument is, seen by itself. -/
inductive Word where
  /-- Something that can be the value of an option. -/
  | plain (text : String)
  /-- An option, maybe with a value behind an equals sign. -/
  | option (name : Name) (value : Option String)
  /-- The short option for help with characters behind it. -/
  | shortHelp (rest : List Char)
  /-- An option that there is not, or a double dash. -/
  | leftOver
  /-- The start of several options. -/
  | ambiguous
deriving DecidableEq

/-- A word up to its first equals sign, and what stands behind that. -/
def splitValue (cs : List Char) : List Char × Option String :=
  match cs.dropWhile (· ≠ '=') with
  | [] => (cs, none)
  | _ :: value => (cs.takeWhile (· ≠ '='), some (String.ofList value))

/-- The options that a word with two dashes can mean: the one it spells, or all that it starts. -/
def meanings (word : List Char) : List Name :=
  match names.lookup (String.ofList word) with
  | some name => [name]
  | none => (names.filter fun entry => word.isPrefixOf entry.1.toList).map Prod.snd

/-- A word that starts with a dash and is no known option: a negative number and a text with a space
    in it can be values. -/
def unknown (text : String) : Word :=
  if Text.looksNegative text || text.toList.contains ' ' then .plain text else .leftOver

def classify (text : String) : Word :=
  match text.toList with
  | '-' :: '-' :: cs =>
    let (word, value) := splitValue ('-' :: '-' :: cs)
    match meanings word with
    | [] => unknown text
    | [name] => .option name value
    | _ => .ambiguous
  | '-' :: 'h' :: cs => .shortHelp cs
  | '-' :: _ :: _ => unknown text
  | _ => .plain text

/-- The words of the arguments; behind a double dash all words are left over. -/
def words : List String → List Word
  | [] => []
  | text :: texts =>
    if text = "--" then .leftOver :: texts.map fun _ => .leftOver
    else classify text :: words texts

/-! ## Acting on words -/

/-- What the short option for help does with these characters behind it. The letter may be repeated,
    at once or behind an equals sign; nothing else may follow. -/
def shortHelpStop : List Char → Stop
  | ['='] => .mistake
  | '=' :: cs => if cs.all (· = 'h') then .help else .mistake
  | cs => if cs.all (· = 'h') then .help else .mistake

/-- Turns a switch on. Only one of the two that set how much is said may be on. -/
def Options.turnOn (o : Options) : Switch → Except Stop Options
  | .help => .error .help
  | .catalog => .ok { o with catalog := true }
  | .checkCatalog => .ok { o with checkCatalog := true }
  | .dump => .ok { o with dump := true }
  | .verbose => if o.quiet then .error .mistake else .ok { o with verbose := true }
  | .quiet => if o.verbose then .error .mistake else .ok { o with quiet := true }

/-- Gives a setting a value. -/
def Options.set (o : Options) (value : String) : Setting → Except Stop Options
  | .sample =>
    match Sample.find? value with
    | some sample => .ok { o with sample := some sample }
    | none => .error .mistake
  | .maxSlots =>
    match Text.readInteger? value with
    | some maxSlots => .ok { o with maxSlots := some maxSlots }
    | none => .error .mistake
  | .graphFile => .ok { o with graphFile := value }

/-- Takes the value of a setting away. -/
def Options.clear (o : Options) : Setting → Options
  | .sample => { o with sample := none }
  | .maxSlots => { o with maxSlots := none }
  | .graphFile => { o with graphFile := "" }

/-- Acts on the words in order; `clean` says that none was left over so far. -/
def interpret (o : Options) (clean : Bool) : List Word → Except Stop Options
  | [] => if clean then .ok o else .error .mistake
  | .plain _ :: rest => interpret o false rest
  | .leftOver :: rest => interpret o false rest
  | .ambiguous :: _ => .error .mistake
  | .shortHelp cs :: _ => .error (shortHelpStop cs)
  | .option (.switch s) none :: rest => do
    let o ← o.turnOn s
    interpret o clean rest
  | .option (.switch _) (some _) :: _ => .error .mistake
  | .option (.setting s) (some value) :: rest => do
    let o ← if value = "--" then .ok (o.clear s) else o.set value s
    interpret o clean rest
  | .option (.setting s) none :: .plain value :: rest => do
    let o ← o.set value s
    interpret o clean rest
  | .option (.setting _) none :: _ => .error .mistake

/-- The options that the arguments ask for. An ambiguous word is a mistake wherever it stands. -/
def parseArguments (args : List String) : Except Stop Options :=
  let ws := words args
  if ws.contains .ambiguous then .error .mistake else interpret {} true ws

end Deduction.CommandLine
