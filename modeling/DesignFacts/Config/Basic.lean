import DesignFacts.Fact.Process

/-!
# Configuration

What a user can set: names that are never signal reads, which names look like resets, which
functions detect clock edges, which analyses run, and which paths are left out.
-/

namespace DesignFacts

def configFileName : Text := "vhdl-facts.yaml".toList

/-- The settings of an extraction. -/
structure Config where
  /-- Further names that are never signal reads. -/
  extraBuiltins : List Text := []
  /-- Pieces of a name that make it a reset. -/
  resetPatterns : List Text := ["rst".toList, "reset".toList]
  /-- Functions that detect a rising edge. -/
  risingEdges : List Text := ["rising_edge".toList]
  /-- Functions that detect a falling edge. -/
  fallingEdges : List Text := ["falling_edge".toList]
  /-- Whether the iterations of generates are computed. -/
  elaborateGenerates : Bool := true
  /-- Whether clock crossings are looked for. -/
  detectCrossings : Bool := true
  /-- Patterns of paths that are left out when files are collected. -/
  excludedPaths : List Text := []

/-- The functions, conversions and values that the language and its standard packages bring:
edge detection, conversions, shifts and rotations, reductions, type marks, mathematics, text
output, and predefined values. -/
def builtinNames : List String :=
  ["rising_edge", "falling_edge",
    "to_unsigned", "to_signed", "to_integer", "to_natural", "resize", "unsigned", "signed",
    "std_logic_vector", "std_ulogic_vector", "bit_vector", "to_stdlogicvector",
    "to_stdulogicvector", "to_slv", "to_bitvector", "to_bit", "to_x01", "to_x01z", "to_ux01",
    "to_01", "is_x", "std_match", "shift_left", "shift_right", "rotate_left", "rotate_right",
    "find_leftmost", "find_rightmost",
    "conv_integer", "conv_unsigned", "conv_signed", "conv_std_logic_vector", "ext", "sxt",
    "and_reduce", "or_reduce", "xor_reduce", "nand_reduce", "nor_reduce", "xnor_reduce",
    "integer", "natural", "positive", "real", "boolean", "character", "string", "time",
    "minimum", "maximum", "ceil", "floor", "round", "trunc", "log2", "sqrt", "uniform",
    "to_real",
    "to_sfixed", "to_ufixed", "to_float",
    "to_string", "to_hstring", "to_ostring", "to_bstring", "endfile", "readline", "writeline",
    "read", "write", "hread", "hwrite", "oread", "owrite",
    "now", "true", "false", "null"]

/-- Whether a small-letter name belongs to the language or its standard packages. -/
def isStandardName (name : Text) : Bool := builtinNames.any fun b => b.toList == name

namespace Config

/-- The edge that a function detects. -/
def edgeKind (c : Config) (name : Text) : Option ClockEdge :=
  if c.risingEdges.any (Text.same name) then some .rising
  else if c.fallingEdges.any (Text.same name) then some .falling
  else none

/-- Whether a name looks like a reset. -/
def isResetName (c : Config) (name : Text) : Bool :=
  c.resetPatterns.any fun p => (Text.cut (Text.lower p) (Text.lower name)).isSome

/-- Whether a small-letter name is never a signal read. -/
def isBuiltin (c : Config) (name : Text) : Bool :=
  isStandardName name || (c.edgeKind name).isSome || c.extraBuiltins.any (Text.same name)

end Config

end DesignFacts
