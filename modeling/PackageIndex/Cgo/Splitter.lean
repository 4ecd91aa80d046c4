/-
  PackageIndex.Cgo.Splitter — the words of a text, told apart character by character.

  What is known behind a character is the words that are finished, the one that is begun, and
  how the next character is to be taken. A word that had quotes counts even if nothing stands
  between them.
-/

import PackageIndex.Text.Blank

namespace PackageIndex.Cgo

inductive Unfinished where
  | quote
  | escape
  deriving DecidableEq, Repr

def Unfinished.message : Unfinished → String
  | quote => "unclosed quote"
  | escape => "unfinished escaping"

structure Splitter where
  done : List (List Char) := []
  word : List Char := []
  /-- A backslash takes the next character as it is. -/
  escaped : Bool := false
  /-- The word that is begun had quotes. -/
  quoted : Bool := false
  /-- The quotes that the next character stands between. -/
  quote : Option Char := none
  deriving DecidableEq, Repr

namespace Splitter

def endWord (st : Splitter) : Splitter :=
  if st.quoted ∨ st.word ≠ [] then { st with done := st.done ++ [st.word], word := [], quoted := false } else st

def step (st : Splitter) (c : Char) : Splitter :=
  if st.escaped then { st with word := st.word ++ [c], escaped := false }
  else if c = '\\' then { st with escaped := true }
  else if st.quote = some c then { st with quote := none }
  else if st.quote.isSome then { st with word := st.word ++ [c] }
  else if c = '"' ∨ c = '\'' then { st with quoted := true, quote := some c }
  else if isBlank c then st.endWord
  else { st with word := st.word ++ [c] }

def finish (st : Splitter) : Except Unfinished (List (List Char)) :=
  if st.quote.isSome then .error .quote
  else if st.escaped then .error .escape
  else .ok st.endWord.done

end Splitter

def splitWords (s : List Char) : Except Unfinished (List (List Char)) := (s.foldl Splitter.step {}).finish

end PackageIndex.Cgo
