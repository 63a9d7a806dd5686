import DesignFacts.Json.Value
import DesignFacts.Tree.Dump

/-!
# Tree dumps in JSON

The JSON form of a dump is an object with `source` and `root`; a node is an object with `type`
(or `kind`), `start_byte`, `end_byte` and possibly `named`, `field`, `start_row` and `children`.
Other keys are passed over, a repeated known key is refused. Both kinds of object may also be
written as the array of their values in this order:
`[source, root]` and `[type, named, field, start_byte, end_byte, start_row, children]`, where a
node may leave out values at its end that have a default.

Arrays and objects that matter are nested at most `maxDepth` deep.
-/

namespace DesignFacts.Json

/-- How deep the arrays and objects of a dump may be nested. -/
def maxDepth : Nat := 127

/-- The entries of an object, if every key is a text. -/
def keyed (entries : List (List Piece × Value)) : Option (List (Text × Value)) :=
  entries.mapM fun (key, v) => (decode key).map fun k => (k, v)

/-- The value under one of some keys: `none` if there are several, `some none` if there is
none. -/
def entry? (keys : List String) (entries : List (Text × Value)) : Option (Option Value) :=
  match entries.filter fun (k, _) => keys.any fun key => key.toList == k with
  | [] => some none
  | [(_, v)] => some (some v)
  | _ => none

def text? : Value → Option Text
  | .string s => decode s
  | _ => none

/-- A truth value. -/
def bool? : Value → Option Bool
  | .bool b => some b
  | _ => none

/-- A number of 64 bits. -/
def word? : Value → Option Nat
  | .number (some n) => if n < Numeral.word64 then some n else none
  | _ => none

/-- A value that may be `null`. -/
def nullable {α : Type} (read : Value → Option α) : Value → Option (Option α)
  | .null => some none
  | v => (read v).map some

/-- A value that may be left out. -/
def orDefault {α : Type} (default : α) (read : Value → Option α) : Option Value → Option α
  | none => some default
  | some v => read v

/-- The values of a node's fields in their order, before they are read. -/
structure NodeFields where
  tag : Option Value
  named : Option Value
  field : Option Value
  start : Option Value
  stop : Option Value
  row : Option Value
  children : Option Value

/-- The fields of a node written as an object or as an array. -/
def nodeFields? : Value → Option NodeFields
  | .object entries => do
    let entries ← keyed entries
    return {
      tag := ← entry? ["type", "kind"] entries
      named := ← entry? ["named"] entries
      field := ← entry? ["field"] entries
      start := ← entry? ["start_byte"] entries
      stop := ← entry? ["end_byte"] entries
      row := ← entry? ["start_row"] entries
      children := ← entry? ["children"] entries }
  | .array items =>
    if items.length ≤ 7 then
      some ⟨items[0]?, items[1]?, items[2]?, items[3]?, items[4]?, items[5]?, items[6]?⟩
    else none
  | _ => none

/-- A node of a dump, whose arrays and objects are nested at most `depth` deep. -/
def node? (depth : Nat) (v : Value) : Option DumpNode :=
  match depth with
  | 0 => none
  | inner + 1 => do
    let f ← nodeFields? v
    let tag ← f.tag.bind text?
    let named ← orDefault true bool? f.named
    let field ← orDefault none (nullable text?) f.field
    let start ← f.start.bind word?
    let stop ← f.stop.bind word?
    let row ← orDefault none (nullable word?) f.row
    let children ← match inner, f.children with
      | _, none => some []
      | below + 1, some (.array items) => items.mapM (node? below)
      | _, some _ => none
    return { tag := String.ofList tag, named, field := field.map String.ofList, start, stop, row,
             children }

/-- The source and the root of a dump written as an object or as an array, before they are
read. -/
def dumpFields? : Value → Option (Option Value × Option Value)
  | .object entries => do
    let entries ← keyed entries
    return (← entry? ["source"] entries, ← entry? ["root"] entries)
  | .array [source, root] => some (some source, some root)
  | _ => none

def dump? (v : Value) : Option Dump := do
  let (source, root) ← dumpFields? v
  let source ← source.bind text?
  let root ← root.bind (node? (maxDepth - 1))
  return { source, root }

def parseDump (text : Text) : Option Dump := (parse text).bind dump?

end DesignFacts.Json
