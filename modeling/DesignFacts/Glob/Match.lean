import DesignFacts.Glob.Basic

/-!
# Matching paths

A path is matched byte by byte of its UTF-8 form. For every part of a pattern, `Token.rests` gives
what can remain of a path after a piece that the part stands for.
-/

namespace DesignFacts.Glob

open Text

abbrev ByteRange := UInt8 × UInt8

/-- The byte ranges of a range of characters. A class stands for single bytes, so only the last
byte of the first character and the first byte of the last one are the ends of a true range; the
other bytes stand for themselves. -/
def byteRanges (range : Char × Char) : List ByteRange :=
  let alone (b : UInt8) : ByteRange := (b, b)
  if range.1 == range.2 then (charBytes range.1).map alone
  else
    let first := charBytes range.1
    let last := charBytes range.2
    first.dropLast.map alone ++ [(first.getLast?.getD 0, last.head?.getD 0)]
      ++ (last.drop 1).map alone

def inClass (negated : Bool) (ranges : List (Char × Char)) (b : UInt8) : Bool :=
  (ranges.flatMap byteRanges).any (fun r => r.1 ≤ b && b ≤ r.2) != negated

/-- All ends of a row of bytes, itself first. -/
def tails : List UInt8 → List (List UInt8)
  | [] => [[]]
  | b :: bs => (b :: bs) :: tails bs

/-- What remains after the bytes of a piece. -/
def dropPiece (piece bytes : List UInt8) : List (List UInt8) :=
  if piece.isPrefixOf bytes then [bytes.drop piece.length] else []

def slash : UInt8 := 47

/-- What remains after any bytes and a slash. -/
def afterSlashes (bytes : List UInt8) : List (List UInt8) :=
  (tails bytes).flatMap (dropPiece [slash])

/-- Each remainder once; remainders of one path are told apart by their lengths. -/
def eachOnce (rests : List (List UInt8)) : List (List UInt8) :=
  rests.foldl (fun kept r => if kept.any (·.length == r.length) then kept else kept ++ [r]) []

mutual

/-- Whether a part stands for nothing: a group whose branches all do. -/
def Token.isNothing : Token → Bool
  | .alternates branches => areNothing branches
  | _ => false

/-- Whether a branch stands for nothing. -/
def isNothing : List Token → Bool
  | [] => true
  | t :: ts => t.isNothing && isNothing ts

/-- Whether all branches stand for nothing. -/
def areNothing : List (List Token) → Bool
  | [] => true
  | branch :: branches => isNothing branch && areNothing branches

end

mutual

/-- What can remain of a path after a part of a pattern. -/
def Token.rests : Token → List UInt8 → List (List UInt8)
  | .literal c, bytes => dropPiece (charBytes c) bytes
  | .any, bytes =>
    match bytes with
    | [] => []
    | _ :: rest => [rest]
  | .zeroOrMore, bytes => tails bytes
  | .leadingDirectories, bytes => bytes :: dropPiece [slash] bytes ++ afterSlashes bytes
  | .everythingBelow, bytes => (dropPiece [slash] bytes).flatMap tails
  | .innerDirectories, bytes =>
    (dropPiece [slash] bytes).flatMap fun rest => rest :: afterSlashes rest
  | .charClass negated ranges, bytes =>
    match bytes with
    | [] => []
    | b :: rest => if inClass negated ranges b then [rest] else []
  | .alternates branches, bytes =>
    if areNothing branches then [bytes] else branchRests branches bytes

/-- What can remain after a row of parts. -/
def restsAfter : List Token → List (List UInt8) → List (List UInt8)
  | [], starts => starts
  | t :: ts, starts => restsAfter ts (eachOnce (starts.flatMap fun s => t.rests s))

/-- What can remain after one of some branches. Branches that stand for nothing do not count. -/
def branchRests : List (List Token) → List UInt8 → List (List UInt8)
  | [], _ => []
  | branch :: branches, bytes =>
    (if isNothing branch then [] else restsAfter branch [bytes]) ++ branchRests branches bytes

end

/-- Whether a pattern stands for a path. A pattern of leading directories alone stands for all. -/
def isMatch (tokens : List Token) (path : Text) : Bool :=
  match tokens with
  | [.leadingDirectories] => true
  | _ => (restsAfter tokens [textBytes path]).any List.isEmpty

end DesignFacts.Glob
