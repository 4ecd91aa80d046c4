/-
  PackageIndex.Json.Printer — JSON text with a line for each item.

  Items are indented by two spaces for each bracket around them; empty brackets stay
  together.
-/

import PackageIndex.Json.Basic

namespace PackageIndex.Json

def newLine (depth : Nat) : List Char := '\n' :: List.replicate (2 * depth) ' '

mutual

def pretty (depth : Nat) : Json → List Char
  | .null => "null".toList
  | .bool true => "true".toList
  | .bool false => "false".toList
  | .number digits => digits
  | .string body => '"' :: body ++ ['"']
  | .array [] => ['[', ']']
  | .array (v :: vs) =>
    '[' :: newLine (depth + 1) ++ v.pretty (depth + 1) ++ prettyItems (depth + 1) vs ++ newLine depth ++ [']']
  | .object [] => ['\x7b', '\x7d']
  | .object ((key, v) :: ms) =>
    '\x7b' :: newLine (depth + 1) ++ ('"' :: key ++ ['"', ':', ' ']) ++ v.pretty (depth + 1) ++
      prettyMembers (depth + 1) ms ++ newLine depth ++ ['\x7d']

def prettyItems (depth : Nat) : List Json → List Char
  | [] => []
  | v :: vs => ',' :: newLine depth ++ v.pretty depth ++ prettyItems depth vs

def prettyMembers (depth : Nat) : List (List Char × Json) → List Char
  | [] => []
  | (key, v) :: ms =>
    ',' :: newLine depth ++ ('"' :: key ++ ['"', ':', ' ']) ++ v.pretty depth ++ prettyMembers depth ms

end

def text (j : Json) : String := String.ofList (j.pretty 0)

end PackageIndex.Json
