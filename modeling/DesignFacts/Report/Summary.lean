import DesignFacts.Report.Basic

/-!
# Summaries

A report for reading: a few lines for every file, then the failures and the number of facts. On a
terminal the parts are coloured.
-/

namespace DesignFacts.Summary

open Text

/-! ## Colours -/

/-- How a piece of a summary is shown. -/
inductive Style where
  | title
  | dimmed
  | bold
  | red
  | green
  | yellow
  | blue

def Style.codes : Style → String
  | title => "1;36"
  | dimmed => "2"
  | bold => "1"
  | red => "31"
  | green => "32"
  | yellow => "33"
  | blue => "34"

/-- The sequence that turns a style on. -/
def Style.opening (s : Style) : Text := '\x1b' :: '[' :: s.codes.toList ++ ['m']

/-- The sequence that turns all styles off. -/
def resetSequence : Text := "\x1b[0m".toList

/-- A text with a style turned on again wherever the text itself turns styles off. -/
def reopen (opening : Text) : Text → Text
  | '\x1b' :: '[' :: '0' :: 'm' :: cs => resetSequence ++ opening ++ reopen opening cs
  | c :: cs => c :: reopen opening cs
  | [] => []

/-- A text filled up with blanks. -/
def padTo (width : Nat) (t : Text) : Text := t ++ List.replicate (width - t.length) ' '

/-- A text in a style, filled up to a width. -/
def styled (colour : Bool) (s : Style) (width : Nat) (t : Text) : Text :=
  if colour then
    s.opening ++ padTo width (reopen s.opening t) ++ resetSequence
  else padTo width t

/-! ## Lines -/

/-- The numbers and texts of a line, one after another. -/
def line (parts : List Text) : Text := parts.flatten ++ ['\n']

/-- A line that starts with a dimmed heading. -/
def headed (colour : Bool) (heading : String) (parts : List Text) : Text :=
  line ("    ".toList :: styled colour .dimmed 14 heading.toList :: parts)

/-- A line for a number of things, if there are any. -/
def countLine (colour : Bool) (heading : String) (n : Nat) : Text :=
  if n = 0 then [] else headed colour heading [Numeral.decimal n]

/-- The units of a file in words. -/
def unitTexts (f : FileFacts) : List Text :=
  f.entities.map (fun e => "entity ".toList ++ e.name)
    ++ f.architectures.map (fun a =>
      "architecture ".toList ++ a.name ++ " of ".toList ++ a.entityName)
    ++ f.packages.map fun p => "package ".toList ++ p.name

/-- The line for the units of a file. -/
def unitLine (colour : Bool) (f : FileFacts) : Text :=
  match unitTexts f with
  | [] => []
  | units => headed colour "units" [join ", " units]

/-- The line for the processes of a file. -/
def processLine (colour : Bool) (f : FileFacts) : Text :=
  let sequential := f.processes.countP (·.isSequential)
  if f.processes.isEmpty then []
  else headed colour "processes" [Numeral.decimal f.processes.length, " (".toList,
    Numeral.decimal sequential, " sequential, ".toList,
    Numeral.decimal (f.processes.length - sequential), " combinational)".toList]

/-- The line for a clock domain. -/
def clockLine (colour : Bool) (d : ClockDomain) : Text :=
  headed colour "clock" [styled colour .yellow 0 d.clock, [' '], d.edge.keyword.toList,
    " in ".toList, d.process, " (".toList, Numeral.decimal d.registers.length,
    " registers)".toList]

/-- The line for a crossing. -/
def crossingLine (colour : Bool) (c : Crossing) : Text :=
  let state := if c.isSynchronized then
      styled colour .green 0
        ("synchronized, ".toList ++ Numeral.decimal c.stages ++ " stages".toList)
    else styled colour .red 0 "unsynchronized".toList
  headed colour "crossing" [c.signal, [' '], c.sourceClock, " -> ".toList, c.destClock,
    (if c.isMultiBit then " multi-bit".toList else []), " (".toList, state, [')']]

def fileSummary (colour : Bool) (f : FileFacts) : Text :=
  line ["  ".toList, styled colour .blue 0 f.file, [' '],
      styled colour .dimmed 0
        ('(' :: Numeral.decimal f.toHarvest.count ++ " facts)".toList)]
    ++ unitLine colour f ++ processLine colour f
    ++ countLine colour "signals" f.signals.length
    ++ countLine colour "instances" f.instances.length
    ++ countLine colour "assignments" f.assignments.length
    ++ countLine colour "generates" f.generates.length
    ++ f.clockDomains.flatMap (clockLine colour)
    ++ f.crossings.flatMap (crossingLine colour)
    ++ line []

/-- The part of a summary for failures. -/
def failureSummary (colour : Bool) (failures : List Failure) : Text :=
  if failures.isEmpty then []
  else
    line ["  ".toList, styled colour .bold 0 "Failures".toList, " (".toList,
      Numeral.decimal failures.length, "):".toList]
    ++ (failures.flatMap fun f =>
      line ["    ".toList, styled colour .red 0 "ERROR".toList, [' '],
        styled colour .blue 0 f.file]
      ++ line ["            ".toList, f.error])
    ++ line []

end Summary

namespace Report

open Text Summary

def summary (colour : Bool) (r : Report) : Text :=
  let total := r.facts.foldr (fun f n => f.toHarvest.count + n) 0
  let status := if r.failures.isEmpty then styled colour .green 0 "OK".toList
    else styled colour .red 0 "INCOMPLETE".toList
  line [] ++ line ["  ".toList, styled colour .title 0 toolName.toList, " v".toList,
      toolVersion.toList]
    ++ line []
    ++ line ["  ".toList, styled colour .dimmed 0 "Scanning: ".toList, r.path]
    ++ line ["  ".toList, styled colour .dimmed 0 "Files:    ".toList,
      Numeral.decimal r.filesScanned, " (".toList, Numeral.decimal r.failures.length,
      " failed)".toList]
    ++ line [] ++ r.facts.flatMap (fileSummary colour) ++ failureSummary colour r.failures
    ++ line ["  ".toList,
      styled colour .dimmed 0 ("Facts: ".toList ++ Numeral.decimal total), "  ".toList, status]
    ++ line []

/-- A report in a form. -/
def render (colour : Bool) (format : ReportFormat) (r : Report) : Text :=
  match format with
  | .json => r.factDocument.pretty ++ ['\n']
  | .tables => r.tableDocument.pretty ++ ['\n']
  | .pretty => r.summary colour

end Report

end DesignFacts
