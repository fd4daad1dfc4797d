import MarkovLogic.Text.Class

/-!
# Text in messages and reports

Messages show a text in quotes. Single quotes are the rule; a text that holds single quotes and no
double quote is put into double quotes. The backslash, the quote in use and every character without
a printed form are escaped.

Report lines align their cells in columns. A cell wider than its column is kept whole.
-/

namespace MarkovLogic.Text

/-! ## Quotes -/

/-- The quote around a text. -/
def quoteFor (cs : List Char) : Char :=
  if cs.contains '\x27' && !cs.contains '\x22' then '\x22' else '\x27'

/-- The number in base sixteen, padded with zeros to the width. -/
def hexDigits (width n : Nat) : List Char :=
  let digits := Nat.toDigits 16 n
  List.replicate (width - digits.length) '0' ++ digits

/-- One character of a text inside the given quote. -/
def escape (quote c : Char) : List Char :=
  if c == '\\' || c == quote then ['\\', c]
  else if c == '\n' then ['\\', 'n']
  else if c == '\r' then ['\\', 'r']
  else if c == '\t' then ['\\', 't']
  else if isPrintable c then [c]
  else if c.toNat < 0x100 then '\\' :: 'x' :: hexDigits 2 c.toNat
  else if c.toNat < 0x10000 then '\\' :: 'u' :: hexDigits 4 c.toNat
  else '\\' :: 'U' :: hexDigits 8 c.toNat

/-- The quoted form of a text. -/
def quoted (s : String) : String :=
  let quote := quoteFor s.toList
  String.ofList (quote :: s.toList.flatMap (escape quote) ++ [quote])

/-! ## Columns -/

/-- The text moved to the right end of a column. -/
def alignRight (width : Nat) (s : String) : String :=
  String.ofList (List.replicate (width - s.length) ' ') ++ s

/-- The text at the left end of a column. -/
def alignLeft (width : Nat) (s : String) : String :=
  s ++ String.ofList (List.replicate (width - s.length) ' ')

/-- The items in order with the separator between them. -/
def joined (separator : String) (items : List String) : String :=
  separator.intercalate items

end MarkovLogic.Text
