import DecisionTree.Text.Printable

/-!
# Quoted text

Text is shown between quotes on one line.  Single quotes are used, unless the text
holds a single quote and no double quote.  A backslash and the quote in use are
written after a backslash, line feed, tabulation and carriage return by their
letters, and every other character that is not printable by its code point in
hexadecimal digits.
-/

namespace DecisionTree.Text.Quoted

/-- The quote that surrounds a text. -/
def quote (chars : List Char) : Char :=
  if chars.contains '\'' && !chars.contains '"' then '"' else '\''

/-- The lower-case hexadecimal digits of a number, at least `width` of them. -/
def hexadecimal (width value : Nat) : List Char :=
  let digits := Nat.toDigits 16 value
  List.replicate (width - digits.length) '0' ++ digits

/-- How a character is written between two quotes. -/
def escape (quote char : Char) : List Char :=
  if char = quote || char = '\\' then ['\\', char]
  else if char = '\n' then ['\\', 'n']
  else if char = '\t' then ['\\', 't']
  else if char = '\r' then ['\\', 'r']
  else if isPrintable char then [char]
  else if char.toNat < 0x100 then '\\' :: 'x' :: hexadecimal 2 char.toNat
  else if char.toNat < 0x10000 then '\\' :: 'u' :: hexadecimal 4 char.toNat
  else '\\' :: 'U' :: hexadecimal 8 char.toNat

/-- A text with its quotes. -/
def text (content : String) : String :=
  let chars := content.toList
  let quote := quote chars
  String.ofList (quote :: chars.flatMap (escape quote) ++ [quote])

end DecisionTree.Text.Quoted
