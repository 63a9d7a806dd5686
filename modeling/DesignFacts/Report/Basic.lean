import DesignFacts.Document.File
import DesignFacts.Table.Document

/-!
# Reports

The outcome of a run over many files, as one document: the facts of every file, or the tables of
all files.
-/

namespace DesignFacts

open Document

def toolName : String := "vhdl-facts"

def toolVersion : String := "0.1.0"

/-- The forms of a report. -/
inductive ReportFormat where
  | json
  | tables
  | pretty
  deriving DecidableEq

namespace ReportFormat

def names : List String := ["json", "tables", "pretty"]

def ofName? (name : Text) : Option ReportFormat :=
  if name == "json".toList then some .json
  else if name == "tables".toList then some .tables
  else if name == "pretty".toList then some .pretty
  else none

end ReportFormat

/-- A file without facts, and why. -/
structure Failure where
  file : Text
  error : Text

def Failure.document (f : Failure) : Document :=
  object [("file", .text f.file), ("error", .text f.error)]

/-- The outcome of a run. -/
structure Report where
  path : Text
  facts : List FileFacts
  failures : List Failure

namespace Report

/-- The number of files that the run looked at. -/
def filesScanned (r : Report) : Nat := r.facts.length + r.failures.length

/-- The field for failures, left out if there are none. -/
def failureField (r : Report) : List (String × Document) :=
  if r.failures.isEmpty then [] else [("failures", rows Failure.document r.failures)]

def factDocument (r : Report) : Document :=
  object ([("version", word toolVersion), ("path", .text r.path),
    ("files_scanned", count r.filesScanned), ("files", rows FileFacts.document r.facts)]
    ++ r.failureField)

def tableDocument (r : Report) : Document :=
  object ([("version", word toolVersion), ("path", .text r.path)] ++ (Tables.ofFiles r.facts).fields
    ++ r.failureField)

end Report

end DesignFacts
