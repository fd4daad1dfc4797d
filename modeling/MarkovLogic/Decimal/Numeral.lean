import MarkovLogic.Text.Class

/-!
# Numerals

A numeral is an optional sign, digits with an optional point among or beside them, and an optional
exponent. Digits of every script count. `Numeral.read?` accepts exactly the texts of this form, and
`Numeral.toFloat` is the nearest floating-point value.

An option on the command line may hold more (`readOption?`): blanks around the numeral, single
underscores between its digits, and the words for infinity and for not a number.
-/

namespace MarkovLogic

/-- The number `coefficient * 10 ^ exponent` with a sign. -/
structure Numeral where
  negative : Bool
  coefficient : Nat
  exponent : Int
deriving DecidableEq, Repr

namespace Numeral

/-- An optional sign at the start: whether it is a minus, and the rest. -/
def takeSign : List Char → Bool × List Char
  | '-' :: cs => (true, cs)
  | '+' :: cs => (false, cs)
  | cs => (false, cs)

/-- The values of the digits at the start, and the rest. -/
def takeDigits : List Char → List Nat × List Char
  | [] => ([], [])
  | c :: cs =>
    match Text.digitValue? c with
    | none => ([], c :: cs)
    | some d => let (ds, rest) := takeDigits cs; (d :: ds, rest)

/-- The number with the given digits. -/
def ofDigits (ds : List Nat) : Nat :=
  ds.foldl (fun n d => 10 * n + d) 0

/-- The digits after a point at the start, if there is one, and the rest. -/
def takeFraction : List Char → List Nat × List Char
  | '.' :: cs => takeDigits cs
  | cs => ([], cs)

/-- The whole text as an exponent; an empty one is zero. -/
def readExponent? : List Char → Option Int
  | [] => some 0
  | c :: cs =>
    if c == 'e' || c == 'E' then
      match takeSign cs with
      | (negative, digits) =>
        match takeDigits digits with
        | (d :: ds, []) => some (if negative then -(ofDigits (d :: ds)) else ofDigits (d :: ds))
        | _ => none
    else none

/-- The numeral that makes up the whole text. -/
def read? (cs : List Char) : Option Numeral :=
  let (negative, cs) := takeSign cs
  let (whole, cs) := takeDigits cs
  let (fraction, cs) := takeFraction cs
  if whole.isEmpty && fraction.isEmpty then none
  else (readExponent? cs).map fun e =>
    ⟨negative, ofDigits (whole ++ fraction), e - fraction.length⟩

/-- The nearest floating-point value. Powers of ten far outside the range of floating-point values
are decided by the place of the leading digit. -/
def toFloat (n : Numeral) : Float :=
  let lead := n.exponent + (Nat.toDigits 10 n.coefficient).length
  let magnitude : Float :=
    if n.coefficient = 0 || lead < -400 then 0.0
    else if 400 < lead then 1.0 / 0.0
    else Float.ofScientific n.coefficient (n.exponent < 0) n.exponent.natAbs
  if n.negative then -magnitude else magnitude

/-! ## Numbers of options -/

/-- Blanks allowed around the number of an option: all but the four ASCII separators. -/
def isMargin (c : Char) : Bool :=
  Text.isBlank c && !(28 ≤ c.toNat && c.toNat ≤ 31)

/-- The text without its underscores, each of which has to stand between two digits; `last` says
whether a digit stands before the text. -/
def dropUnderscores? (last : Bool) : List Char → Option (List Char)
  | [] => some []
  | '_' :: c :: cs =>
    if last && Text.isDigit c then (dropUnderscores? true cs).map (c :: ·) else none
  | c :: cs =>
    if c == '_' then none else (dropUnderscores? (Text.isDigit c) cs).map (c :: ·)

/-- The words for the values that no numeral writes. -/
def readWord? (cs : List Char) : Option Float :=
  let (negative, cs) := takeSign cs
  let word := String.ofList (cs.map Char.toLower)
  if word == "inf" || word == "infinity" then
    some (if negative then -(1.0 / 0.0) else 1.0 / 0.0)
  else if word == "nan" then some (0.0 / 0.0)
  else none

/-- The value of an option that expects a number. -/
def readOption? (text : String) : Option Float := do
  let body := ((text.toList.dropWhile isMargin).reverse.dropWhile isMargin).reverse
  let plain ← dropUnderscores? false body
  (readWord? plain).or ((read? plain).map toFloat)

end Numeral

end MarkovLogic
