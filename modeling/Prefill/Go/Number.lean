import Prefill.Text.Basic

/-!
Number literals of Go. Each form is a scan that gives the text after it; the longest form that fits
is the literal.
-/

namespace Prefill.Go.Number

open Text

/-- Reads a form at the start of a text and gives the text after it. -/
abbrev Scan := Text → Option Text

def char (isWanted : Char → Bool) : Scan
  | c :: rest => if isWanted c then some rest else none
  | [] => none

/-- One form after the other. -/
def followedBy (first second : Scan) : Scan := fun text => (first text).bind second

/-- The form if it fits, and nothing otherwise. -/
def optionally (scan : Scan) : Scan := fun text => (scan text).or (some text)

/-- The longest of the forms that fit. -/
def longest (scans : List Scan) : Scan := fun text =>
  (scans.filterMap fun scan => scan text).foldl
    (fun best rest =>
      match best with
      | some chosen => if rest.length < chosen.length then some rest else some chosen
      | none => some rest)
    none

def oneOf (chars : String) : Scan := char fun c => chars.toList.contains c

/-- Digits after the first one, with single underscores between them. -/
def moreDigits (isDigit : Char → Bool) : Text → Text
  | '_' :: d :: rest => if isDigit d then moreDigits isDigit rest else '_' :: d :: rest
  | c :: rest => if isDigit c then moreDigits isDigit rest else c :: rest
  | [] => []

/-- At least one digit, with single underscores between digits. -/
def digits (isDigit : Char → Bool) : Scan := fun text =>
  (char isDigit text).map (moreDigits isDigit)

def isHexDigit (c : Char) : Bool := (hexValue? c).isSome

def isOctalDigit (c : Char) : Bool := '0' ≤ c && c ≤ '7'

def isBit (c : Char) : Bool := c == '0' || c == '1'

def underscore : Scan := optionally (oneOf "_")

/-- A zero and the letter of a base. -/
def base (letters : String) : Scan := followedBy (oneOf "0") (oneOf letters)

def decimal : Scan := digits isAsciiDigit

/-- The forms of an integer. A decimal one has no leading zero. -/
def integerForms : List Scan :=
  [followedBy (base "bB") (followedBy underscore (digits isBit)),
   oneOf "0",
   followedBy (oneOf "123456789") (optionally (followedBy underscore decimal)),
   followedBy (oneOf "0") (followedBy (optionally (oneOf "oO"))
    (followedBy underscore (digits isOctalDigit))),
   followedBy (base "xX") (followedBy underscore (digits isHexDigit))]

def exponent (letters : String) : Scan :=
  followedBy (oneOf letters) (followedBy (optionally (oneOf "+-")) decimal)

/-- The digits of a hexadecimal float, with or without a point. -/
def hexMantissa : Scan :=
  longest
    [followedBy underscore (followedBy (digits isHexDigit)
      (followedBy (oneOf ".") (optionally (digits isHexDigit)))),
     followedBy underscore (digits isHexDigit),
     followedBy (oneOf ".") (digits isHexDigit)]

/-- The forms of a float. -/
def floatForms : List Scan :=
  [followedBy decimal (followedBy (oneOf ".")
    (followedBy (optionally decimal) (optionally (exponent "eE")))),
   followedBy decimal (exponent "eE"),
   followedBy (oneOf ".") (followedBy decimal (optionally (exponent "eE"))),
   followedBy (base "xX") (followedBy hexMantissa (exponent "pP"))]

/-- Any number: an integer, a float, or either with the letter of the imaginary unit. -/
def scan : Scan :=
  let real := integerForms ++ floatForms
  longest (real ++ (decimal :: real).map fun form => followedBy form (oneOf "i"))

end Prefill.Go.Number
