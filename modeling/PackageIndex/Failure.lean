/-
  PackageIndex.Failure — why an operation fails as a whole.

  Faults of single files do not stop an operation and are no errors in this sense: the
  records and the build package carry them.
-/

import PackageIndex.Constraint.Token
import PackageIndex.Text.Utf8

namespace PackageIndex

inductive IoFault where
  | emptyPath
  | notText
  | zeroInPath
  | notFound
  | busy
  | exists
  | notDirectory
  | isDirectory
  | tooManyLinks
  deriving DecidableEq, Repr

def IoFault.message : IoFault → String
  | .emptyPath => "cannot make an empty path absolute"
  | .notText => "stream did not contain valid UTF-8"
  | .zeroInPath => "file name contained an unexpected NUL byte"
  | .notFound => "No such file or directory (os error 2)"
  | .busy => "Device or resource busy (os error 16)"
  | .exists => "File exists (os error 17)"
  | .notDirectory => "Not a directory (os error 20)"
  | .isDirectory => "Is a directory (os error 21)"
  | .tooManyLinks => "Too many levels of symbolic links (os error 40)"

/-- What is wrong with the bytes of an index, or keeps records from being written as one.
Offsets and sizes count bytes. -/
inductive FormatError where
  | truncatedHeader
  | version (found : List UInt8)
  | tableOffset (offset size : Nat)
  | packageTable (count : Nat)
  | truncatedTable
  | stringPastEnd (offset size : Nat)
  | unendedString (offset : Nat)
  | notUtf8 (offset : Nat) (fault : Utf8.Fault)
  | readPastEnd (count offset size : Nat)
  | notBool (value offset : Nat)
  | filePastEnd (offset size : Nat)
  | listLength (count : Nat)
  | listPastEnd (count offset : Nat)
  | nulInString (s : String)
  | tableTooLong
  | indexTooLong
  | listTooLong
  deriving DecidableEq, Repr

def FormatError.message : FormatError → String
  | .truncatedHeader => "truncated index header"
  | .version found => "bad index version string: " ++ Quoted.ofString (String.ofList (Utf8.lossy found))
  | .tableOffset offset size => s!"string table offset {offset} out of range for {size} byte index"
  | .packageTable count => s!"package table for {count} packages overruns the string table"
  | .truncatedTable => "truncated string table"
  | .stringPastEnd offset size =>
    s!"string offset {offset} is past the end of the string table ({size} bytes)"
  | .unendedString offset => s!"reached end of string table reading string at offset {offset}"
  | .notUtf8 offset fault => s!"string at offset {offset} is not UTF-8: " ++ fault.message
  | .readPastEnd count offset size =>
    s!"read of {count} words at offset {offset} runs past the record area ({size} bytes)"
  | .notBool value offset => s!"invalid bool value {value} at offset {offset}"
  | .filePastEnd offset size =>
    s!"file record at offset {offset} runs past the record area ({size} bytes)"
  | .listLength count => s!"list length {count} is out of range"
  | .listPastEnd count offset =>
    s!"list of {count} entries at offset {offset} runs past the record area"
  | .nulInString s => "string " ++ Quoted.ofString s ++ " contains a NUL byte"
  | .tableTooLong => "string table exceeds 4 GiB"
  | .indexTooLong => "index exceeds 4 GiB"
  | .listTooLong => "list too long"

inductive ContextError where
  | cgoEnabled (value : String)
  | unreadable (path : String) (fault : IoFault)
  | unparsable (path : String)
  deriving DecidableEq, Repr

def ContextError.message : ContextError → String
  | .cgoEnabled value =>
    "invalid CGO_ENABLED value " ++ Quoted.ofString value ++ ": must be 0 or 1"
  | .unreadable path fault => "failed to read " ++ path ++ ": " ++ fault.message
  | .unparsable path => "failed to parse " ++ path ++ ": not a build context"

inductive Failure where
  | io (fault : IoFault)
  | format (e : FormatError)
  | outsideModule (dir moduleDir : String)
  | constraint (file : String) (e : Constraint.SyntaxError)
  | context (e : ContextError)
  | pathNotFound (path : String)
  deriving DecidableEq, Repr

def Failure.message : Failure → String
  | .io fault => "IO error: " ++ fault.message
  | .format e => "module index format error: " ++ e.message
  | .outsideModule dir moduleDir =>
    "invalid path: " ++ dir ++ " is not inside module root " ++ moduleDir
  | .constraint file e => file ++ ": parsing //go:build line: " ++ e.message
  | .context e => "build context error: " ++ e.message
  | .pathNotFound path => "Path not found: " ++ path

end PackageIndex
