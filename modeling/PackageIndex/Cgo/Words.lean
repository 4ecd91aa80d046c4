/-
  PackageIndex.Cgo.Words — arguments written as a shell takes them.

  White space bounds a word, quotes of either kind hold one together and make one even
  where nothing stands between them. A backslash takes the next character as it is, in
  quotes too.
-/

import PackageIndex.Text.Blank

namespace PackageIndex.Cgo

/-- The words of a text that goes on inside the quotes `quote` and the word `word`. A text that
ends inside quotes, or behind a backslash, has none. -/
def wordsFrom (quote : Option Char) (word : Option (List Char)) : List Char → Option (List (List Char))
  | [] => if quote.isSome then none else some word.toList
  | ['\\'] => none
  | '\\' :: c :: s => wordsFrom quote (some (word.getD [] ++ [c])) s
  | c :: s =>
    if quote = some c then wordsFrom none word s
    else if quote.isSome then wordsFrom quote (some (word.getD [] ++ [c])) s
    else if c = '"' ∨ c = '\'' then wordsFrom (some c) (some (word.getD [])) s
    else if isBlank c then (wordsFrom none none s).map (word.toList ++ ·)
    else wordsFrom none (some (word.getD [] ++ [c])) s

def shellWords? (s : List Char) : Option (List (List Char)) := wordsFrom none none s

end PackageIndex.Cgo
