/-
  PackageIndex.Source.Place — places in a text.

  Lines and columns are counted from one, columns and offsets in bytes.
-/

namespace PackageIndex.Source

structure Place where
  offset : Nat := 0
  line : Nat := 1
  column : Nat := 1
  deriving DecidableEq, Repr, Inhabited

namespace Place

def pass (p : Place) (c : Char) : Place :=
  { p with offset := p.offset + c.utf8Size, column := p.column + c.utf8Size }

def next (p : Place) (c : Char) : Place :=
  if c = '\n' then { offset := p.offset + 1, line := p.line + 1, column := 1 } else p.pass c

def after (p : Place) (s : List Char) : Place := s.foldl next p

/-- The place after a text that is taken to be of one line, whatever it holds. -/
def along (p : Place) (s : List Char) : Place := s.foldl pass p

def text (p : Place) : String := toString p.line ++ ":" ++ toString p.column

end Place

end PackageIndex.Source
