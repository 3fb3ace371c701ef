import Deduction.Text.Runs

set_option autoImplicit false

/-! # Blank characters

Blanks separate the tokens of a formula and surround numbers on the command line: the white space
and the line, paragraph and information separators of Unicode 14. -/

namespace Deduction.Text

/-- The blank code points. -/
def blanks : Runs := [
  (0x9, 0xd), (0x1c, 0x20), (0x85, 0x85), (0xa0, 0xa0), (0x1680, 0x1680), (0x2000, 0x200a),
  (0x2028, 0x2029), (0x202f, 0x202f), (0x205f, 0x205f), (0x3000, 0x3000)]

def isBlank (c : Char) : Bool := blanks.has c

/-- The four information separators. -/
def informationSeparators : Runs := [(0x1c, 0x1f)]

end Deduction.Text
