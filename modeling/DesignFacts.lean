import DesignFacts.Main
import DesignFacts.Proofs.Bound.BasedLiteral
import DesignFacts.Proofs.Bound.Declaration
import DesignFacts.Proofs.Concurrent.Placement
import DesignFacts.Proofs.Crossing.Comprehension
import DesignFacts.Proofs.Crossing.ProcessOrder
import DesignFacts.Proofs.Crossing.StageChain
import DesignFacts.Proofs.Declaration.Object
import DesignFacts.Proofs.Declaration.Range
import DesignFacts.Proofs.Declaration.Subtype
import DesignFacts.Proofs.Expression.Relation
import DesignFacts.Proofs.Extraction.Attribution
import DesignFacts.Proofs.Extraction.Nesting
import DesignFacts.Proofs.Extraction.Sourced
import DesignFacts.Proofs.Generate.Elaboration
import DesignFacts.Proofs.Generate.Surroundings
import DesignFacts.Proofs.LetterCase.Extraction
import DesignFacts.Proofs.Name.Exposure
import DesignFacts.Proofs.Name.Index
import DesignFacts.Proofs.Name.Label
import DesignFacts.Proofs.Process.Classification
import DesignFacts.Proofs.Process.ClockName
import DesignFacts.Proofs.Process.Dependency
import DesignFacts.Proofs.Process.Guard
import DesignFacts.Proofs.Process.IfShape
import DesignFacts.Proofs.Process.LocalName
import DesignFacts.Proofs.Sexp.Rendering
import DesignFacts.Proofs.Table.Completeness
import DesignFacts.Proofs.Tree.Dump
import DesignFacts.Proofs.Width.Spacing
import DesignFacts.Proofs.Bound.LiteralWidth
import DesignFacts.Proofs.Tree.Span
import DesignFacts.Proofs.Document.Value
import DesignFacts.Proofs.Instance.Map
import DesignFacts.Proofs.Process.CaseReport
import DesignFacts.Proofs.Registry.LongestSuffix
import DesignFacts.Proofs.Text.WordSearch
import DesignFacts.Proofs.Sexp.Extent
