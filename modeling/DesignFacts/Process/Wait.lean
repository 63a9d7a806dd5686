import DesignFacts.Tree.Node

/-!
# Parts of a wait statement

`wait on s until c for t;` has three sections, each opened by its keyword or by a clause node.
A section goes on until another one is opened, also beyond the clause that opened it.
-/

namespace DesignFacts

open Text

inductive WaitSection where
  | signals
  | condition
  | timeout
  deriving DecidableEq

/-- What is found in a wait statement: the opening of a section, or an expression. -/
inductive WaitPiece where
  | opening (s : WaitSection)
  | item (n : Node)

namespace Node

/-- The section that a token opens. -/
def waitKeyword? (n : Node) : Option WaitSection :=
  if n.isToken "on" then some .signals
  else if n.isToken "until" then some .condition
  else if n.isToken "for" then some .timeout
  else none

def waitClause? (n : Node) : Option WaitSection :=
  match n.kind with
  | .sensitivityClause => some .signals
  | .conditionClause => some .condition
  | .timeoutClause => some .timeout
  | _ => none

/-- The pieces of a child of a wait statement that is no clause. -/
def ownWaitPieces (n : Node) : List WaitPiece :=
  if !n.named then n.waitKeyword?.toList.map .opening
  else if n.isComment then []
  else if n.kind == .sensitivityList then .opening .signals :: n.operandChildren.map .item
  else if n.isUnder "label" then []
  else [.item n]

mutual

/-- The pieces in a wait statement or in a clause of one. -/
def waitPieces : Node → List WaitPiece
  | ⟨_, _, _, _, _, _, _, children⟩ => waitPiecesAmong children

/-- The pieces of some children of a wait statement. -/
def waitPiecesAmong : List Node → List WaitPiece
  | [] => []
  | n :: ns =>
    (match n.waitClause? with
      | some s => .opening s :: waitPieces n
      | none => n.ownWaitPieces)
      ++ waitPiecesAmong ns

end

end Node

/-- The expressions in one section, while `current` is the section that is open. -/
def WaitPiece.itemsIn (wanted : WaitSection) (current : Option WaitSection) :
    List WaitPiece → List Node
  | [] => []
  | .opening s :: ps => itemsIn wanted (some s) ps
  | .item n :: ps =>
    if current = some wanted then n :: itemsIn wanted current ps else itemsIn wanted current ps

/-- The expressions in one section of a wait statement. -/
def Node.waitItems (n : Node) (wanted : WaitSection) : List Node :=
  WaitPiece.itemsIn wanted none n.waitPieces

end DesignFacts
