/-!
# Quoted text

A text is quoted by putting it between double quotes. The quote, the backslash, the tab, the two
line breaks and the null character are written with a backslash and a character of their own, every
other control character with a backslash and its number. All other characters are written as they
are, the apostrophe included. That goes too for characters beyond the control characters that
nothing is printed for, or that combine with the one before them; they are not told apart here.
-/

namespace ResilientCache

/-- Whether a character is a control character. -/
def isControl (c : Char) : Bool := c.toNat < 32 || 127 ≤ c.toNat && c.toNat < 160

/-- One character of a quoted text. -/
def escape : Char → String
  | '"' => "\\\""
  | '\\' => "\\\\"
  | '\t' => "\\t"
  | '\n' => "\\n"
  | '\r' => "\\r"
  | '\x00' => "\\0"
  | c =>
    if isControl c then "\\u\x7b" ++ String.ofList (Nat.toDigits 16 c.toNat) ++ "\x7d"
    else c.toString

/-- A text between double quotes. -/
def quote (s : String) : String := "\"" ++ String.join (s.toList.map escape) ++ "\""

/-- Items between square brackets, with a comma and a blank after each but the last. -/
def bracketed (items : List String) : String := "[" ++ ", ".intercalate items ++ "]"

end ResilientCache
