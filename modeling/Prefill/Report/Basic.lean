import Prefill.Report.Diagnostic
import Prefill.Report.JsonValue

/-! The report of a run: what was done, what was found, and how both are shown. -/

namespace Prefill

open Text

structure Report where
  projects : Nat := 0
  filesScanned : Nat := 0
  filesRewritten : Nat := 0
  placeholdersReplaced : Nat := 0
  regionsInjected : Nat := 0
  diagnostics : List Diagnostic := []
  deriving DecidableEq, Repr

namespace Report

def version : String := "0.1.0"

def count (report : Report) (severity : Severity) : Nat :=
  report.diagnostics.countP fun d => d.severity = severity

def hasErrors (report : Report) : Bool := report.count .error > 0

/-- The diagnostics, one after another. -/
def diagnosticLines (report : Report) : String :=
  String.join (report.diagnostics.map fun d => d.render ++ "\n")

/-- A line of the summary: a label and a number in columns. -/
def summaryLine (label : String) (n : Nat) : String :=
  let padding := String.ofList (List.replicate (24 - label.length) ' ')
  s!"    {label}{padding}{n}\n"

/-- The summary for readers. -/
def summary (report : Report) (path : String) : String :=
  let status := if report.hasErrors then "✗ FAILED" else "✓ OK"
  s!"\n  goahead {path}\n\n" ++
    summaryLine "Projects:" report.projects ++
    summaryLine "Files scanned:" report.filesScanned ++
    summaryLine "Files rewritten:" report.filesRewritten ++
    summaryLine "Placeholders replaced:" report.placeholdersReplaced ++
    summaryLine "Regions injected:" report.regionsInjected ++
    s!"\n  {status}  ({report.count .error} errors, {report.count .warning} warnings)\n\n"

/-- A diagnostic for programs; the file and the source line only where there are some. -/
def diagnosticValue (d : Diagnostic) : JsonValue :=
  .object <|
    [("severity", .string d.severity.name.toList), ("message", .string d.message.toList)] ++
    (if d.file.isEmpty then [] else [("file", .string d.file.toList)]) ++
    [("line", .number d.line)] ++
    (d.sourceLine.map fun line => ("source_line", .string line)).toList

/-- The report for programs. -/
def toJson (report : Report) (path : String) : JsonValue :=
  .object
    [("version", .string version.toList), ("path", .string path.toList),
      ("passed", .bool !report.hasErrors), ("projects", .number report.projects),
      ("files_scanned", .number report.filesScanned),
      ("files_rewritten", .number report.filesRewritten),
      ("placeholders_replaced", .number report.placeholdersReplaced),
      ("regions_injected", .number report.regionsInjected),
      ("diagnostics", .list (report.diagnostics.map diagnosticValue))]

/-- The report for programs as text. -/
def json (report : Report) (path : String) : String := str (report.toJson path).render ++ "\n"

end Report

end Prefill
