import PackageIndex.Main
import PackageIndex.Proofs.Index.Resolve
import PackageIndex.Proofs.Index.Truncation
import PackageIndex.Proofs.Resolve.Coherence
import PackageIndex.Proofs.Resolve.Consulted
import PackageIndex.Proofs.Resolve.Fingerprint
import PackageIndex.Proofs.Resolve.Order
import PackageIndex.Proofs.Constraint.Spelling
import PackageIndex.Proofs.Path
import PackageIndex.Proofs.Files.Tree
import PackageIndex.Proofs.Files.Writing
import PackageIndex.Proofs.Files.Survey
import PackageIndex.Proofs.Command
import PackageIndex.Proofs.Index.Size
import PackageIndex.Proofs.Source.Literal
import PackageIndex.Proofs.Source.Clause
import PackageIndex.Proofs.Source.Header
import PackageIndex.Proofs.Files.Storing
import PackageIndex.Proofs.Source.Documentation
import PackageIndex.Proofs.Source.Leading
import PackageIndex.Proofs.Source.Scanning
import PackageIndex.Proofs.Files.Recording
import PackageIndex.Proofs.Files.Walk
import PackageIndex.Proofs.Source.Lexing
import PackageIndex.Proofs.Source.Written
import PackageIndex.Proofs.Index.Canonical
import PackageIndex.Proofs.Resolve.Regrouping
import PackageIndex.Proofs.Index.Eager
import PackageIndex.Index.Session
import PackageIndex.Proofs.Index.Session
import PackageIndex.Proofs.Index.FrontToBack
import PackageIndex.Proofs.Index.Relative
import PackageIndex.Proofs.Resolve.Modes
import PackageIndex.Proofs.Resolve.Reports
import PackageIndex.Proofs.Resolve.Declared
import PackageIndex.Proofs.Source.LeadingRun
import PackageIndex.Proofs.Source.ImportPlaces
import PackageIndex.Proofs.Source.EmbedPlaces
import PackageIndex.Proofs.Source.Directives
import PackageIndex.Proofs.Source.Escapes
import PackageIndex.Proofs.Source.Arguments
import PackageIndex.Cgo.Apply
import PackageIndex.Proofs.Cgo.Apply
import PackageIndex.Cgo.Splitter
import PackageIndex.Proofs.Cgo.Splitter
import PackageIndex.Proofs.Cgo.Safety
import PackageIndex.Proofs.Context.FileName
import PackageIndex.Proofs.Source.Synopsis
import PackageIndex.Index.Interning
import PackageIndex.Proofs.Index.Interning
import PackageIndex.Proofs.Record.Sorting
import PackageIndex.Proofs.Cgo.Operands
import PackageIndex.Proofs.Constraint.Answers
