/-
  PackageIndex.Source.Synopsis — the first sentence of a package comment.

  A sentence ends before the white space after a full stop, unless the letter before the
  stop is a capital and the one before that is not ("by J. Doe"), and after an
  ideographic full stop. Its white space is collapsed, doubled quotes become curly, and
  notices of copyright are no synopsis.
-/

import PackageIndex.Text.Blank
import PackageIndex.Text.Letter

namespace PackageIndex.Source

/-- The text up to the end of its first sentence, given the three characters before it. -/
def sentence (third second first : Char) : List Char → List Char
  | [] => []
  | c :: s =>
    let q := if c = '\n' ∨ c = '\r' ∨ c = '\t' then ' ' else c
    if q = ' ' ∧ first = '.' ∧ (¬ isUppercase second ∨ isUppercase third) then []
    else if first = '\u3002' ∨ first = '\uff0e' then []
    else c :: sentence second first q s

def curlyQuotes : List Char → List Char
  | '`' :: '`' :: s => '\u201c' :: curlyQuotes s
  | '\'' :: '\'' :: s => '\u201d' :: curlyQuotes s
  | c :: s => c :: curlyQuotes s
  | [] => []

def noticeOpenings : List (List Char) :=
  ["copyright".toList, "all rights".toList, "author".toList]

def isNotice (s : List Char) : Bool :=
  noticeOpenings.any (·.isPrefixOf (s.map Char.toLower))

def synopsis (text : List Char) : List Char :=
  let collapsed := (words (sentence '\x00' '\x00' '\x00' text)).intersperse [' '] |>.flatten
  if isNotice collapsed then [] else curlyQuotes collapsed

end PackageIndex.Source
