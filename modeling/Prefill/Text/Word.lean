import Prefill.Text.Letter

/-!
Words and identifiers. A word is a run of alphabetic characters, decimal digits, marks and
connecting punctuation; an identifier follows the usual start and continue rules.
-/

namespace Prefill.Text

/-- Connecting punctuation, joiners and the marks that stand in a place of their own. -/
def connectorRanges : Ranges :=
  [(0xf3e, 0xf3f), (0x1715, 0x1715), (0x1734, 0x1734), (0x1b44, 0x1b44), (0x1baa, 0x1baa),
   (0x1bf2, 0x1bf3), (0x1ce1, 0x1ce1), (0x1cf7, 0x1cf7), (0x200d, 0x200d), (0x203f, 0x2040),
   (0x2054, 0x2054), (0xa953, 0xa953), (0xa9c0, 0xa9c0), (0xabec, 0xabec), (0xfe33, 0xfe34),
   (0xfe4d, 0xfe4f), (0xff3f, 0xff3f), (0x111c0, 0x111c0), (0x11235, 0x11235), (0x1134d, 0x1134d),
   (0x116b6, 0x116b6), (0x1193d, 0x1193d), (0x11f41, 0x11f41), (0x1d166, 0x1d166),
   (0x1d16d, 0x1d16d)]

/-- Letters that may not start an identifier, because they decompose into other characters. -/
def identifierStartExclusions : Ranges :=
  [(0x37a, 0x37a), (0xe33, 0xe33), (0xeb3, 0xeb3), (0x2e2f, 0x2e2f), (0xfc5e, 0xfc63),
   (0xfdfa, 0xfdfb), (0xfe70, 0xfe70), (0xfe72, 0xfe72), (0xfe74, 0xfe74), (0xfe76, 0xfe76),
   (0xfe78, 0xfe78), (0xfe7a, 0xfe7a), (0xfe7c, 0xfe7c), (0xfe7e, 0xfe7e), (0xff9e, 0xff9f)]

/-- Signs that may start an identifier although they are no letters. -/
def identifierStartAdditions : Ranges :=
  [(0x1885, 0x1886), (0x2118, 0x2118), (0x212e, 0x212e)]

/-- Word characters that may not stand in an identifier. -/
def identifierPartExclusions : Ranges :=
  [(0x37a, 0x37a), (0x488, 0x489), (0x1abe, 0x1abe), (0x200c, 0x200d), (0x20dd, 0x20e0),
   (0x20e2, 0x20e4), (0x24b6, 0x24e9), (0x2e2f, 0x2e2f), (0xa670, 0xa672), (0xfc5e, 0xfc63),
   (0xfdfa, 0xfdfb), (0xfe70, 0xfe70), (0xfe72, 0xfe72), (0xfe74, 0xfe74), (0xfe76, 0xfe76),
   (0xfe78, 0xfe78), (0xfe7a, 0xfe7a), (0xfe7c, 0xfe7c), (0xfe7e, 0xfe7e), (0x1f130, 0x1f149),
   (0x1f150, 0x1f169), (0x1f170, 0x1f189)]

/-- Signs that may continue an identifier although they belong to no word. -/
def identifierPartAdditions : Ranges :=
  [(0xb7, 0xb7), (0x387, 0x387), (0x1369, 0x1371), (0x19da, 0x19da), (0x2118, 0x2118),
   (0x212e, 0x212e)]

/-- A character that belongs to a word; a word boundary lies where this changes. -/
def isWordPart (c : Char) : Bool :=
  isAlphabetic c || isDecimal c || c == '_' ||
    (128 ≤ c.toNat && (markRanges.has c.toNat || connectorRanges.has c.toNat))

def isIdentifierStart (c : Char) : Bool :=
  isAsciiLetter c || c == '_' ||
    (128 ≤ c.toNat &&
      (((letterRanges.has c.toNat || letterNumberRanges.has c.toNat) &&
          !identifierStartExclusions.has c.toNat) ||
        identifierStartAdditions.has c.toNat))

def isIdentifierPart (c : Char) : Bool :=
  isAsciiWordPart c ||
    (128 ≤ c.toNat &&
      ((isWordPart c && !identifierPartExclusions.has c.toNat) ||
        identifierPartAdditions.has c.toNat))

/-- A name or a keyword of Go. -/
def isIdentifier : Text → Bool
  | [] => false
  | c :: rest => isIdentifierStart c && rest.all isIdentifierPart

end Prefill.Text
