import Prefill.Text.Basic

/-! Positions in a Go file. Bytes count from 0, lines and columns from 1, columns in bytes. -/

namespace Prefill.Go

structure Position where
  byte : Nat
  line : Nat
  column : Nat
  deriving DecidableEq, Repr

namespace Position

/-- The start of a file. -/
def origin : Position := ⟨0, 1, 1⟩

/-- The position after one more character. -/
def next (p : Position) (c : Char) : Position :=
  if c = '\n' then ⟨p.byte + 1, p.line + 1, 1⟩
  else ⟨p.byte + c.utf8Size, p.line, p.column + c.utf8Size⟩

/-- The position after a piece of text. -/
def past (p : Position) (text : Text) : Position := text.foldl next p

end Position

/-- A part of a file, from its first byte to the one after its last. -/
structure Span where
  start : Position
  stop : Position
  deriving DecidableEq, Repr

/-- The text of a part of a file. -/
def Span.textIn (span : Span) (source : Text) : Text :=
  Text.slice span.start.byte span.stop.byte source

end Prefill.Go
