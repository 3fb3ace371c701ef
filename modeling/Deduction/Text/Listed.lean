set_option autoImplicit false

/-! # Lists in text -/

namespace Deduction

/-- Texts with a comma and a space between them. -/
def commaSeparated (texts : List String) : String := ", ".intercalate texts

end Deduction
