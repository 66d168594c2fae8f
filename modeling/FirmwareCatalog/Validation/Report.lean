import FirmwareCatalog.Validation.Finding

/-!
# Reports

A pass holds the findings about one matter, a report those of several passes. A
report is valid when it holds no fault.
-/

namespace FirmwareCatalog

/-- The findings about one matter. -/
structure Findings where
  faults : List Fault
  warnings : List Warning

namespace Findings

def ofFaults (faults : List Fault) : Findings := ⟨faults, []⟩

def none : Findings := ⟨[], []⟩

def fault (f : Fault) : Findings := ⟨[f], []⟩

def warning (w : Warning) : Findings := ⟨[], [w]⟩

instance : Append Findings := ⟨fun a b => ⟨a.faults ++ b.faults, a.warnings ++ b.warnings⟩⟩

/-- The findings about each item of a list, in order. -/
def forEach {α : Type} (items : List α) (check : α → Findings) : Findings :=
  ⟨items.flatMap fun a => (check a).faults, items.flatMap fun a => (check a).warnings⟩

def isClean (f : Findings) : Bool := f.faults.isEmpty && f.warnings.isEmpty

end Findings

structure Pass where
  title : String
  /-- What is said when there are no findings. -/
  success : String
  findings : Findings

def Pass.render (pass : Pass) : String :=
  pass.title ++ "...\n"
    ++ (if pass.findings.isClean then "  ✓ " ++ pass.success ++ "\n" else "")
    ++ String.join (pass.findings.faults.map fun f => "  ✗ " ++ f.message ++ "\n")
    ++ String.join (pass.findings.warnings.map fun w => "  ⚠ " ++ w.message ++ "\n")

structure Report where
  passes : List Pass

inductive Verdict where
  | passed
  | passedWithWarnings
  | failed
deriving DecidableEq

namespace Report

open Numeral

instance : Append Report := ⟨fun a b => ⟨a.passes ++ b.passes⟩⟩

def faults (report : Report) : List Fault := report.passes.flatMap (·.findings.faults)

def warnings (report : Report) : List Warning := report.passes.flatMap (·.findings.warnings)

def isValid (report : Report) : Bool := report.faults.isEmpty

def verdict (report : Report) : Verdict :=
  if !report.isValid then .failed
  else if report.warnings.isEmpty then .passed
  else .passedWithWarnings

def summary (report : Report) : String :=
  let counts := " (" ++ decimalText report.faults.length ++ " errors, " ++ decimalText report.warnings.length
    ++ " warnings)"
  match report.verdict with
  | .passed => "PASSED"
  | .passedWithWarnings => "PASSED WITH WARNINGS" ++ counts
  | .failed => "FAILED" ++ counts

/-- Each pass with an empty line behind it, then the verdict. -/
def render (report : Report) : String :=
  String.join (report.passes.map fun p => p.render ++ "\n") ++ "Status: " ++ report.summary

end Report

end FirmwareCatalog
