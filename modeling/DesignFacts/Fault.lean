/-!
# Faults

What an extraction can run into when a number leaves the machine words that hold it. A fault ends
the whole extraction.
-/

namespace DesignFacts

/-- A number that cannot be computed. -/
inductive Fault where
  /-- A based literal whose base has no digits. -/
  | literalBase
  /-- A line number beyond 64 bits. -/
  | lineNumber
  /-- A quotient beyond 64 bits. -/
  | quotient
  /-- A number of iterations beyond 64 bits. -/
  | iterations
  deriving DecidableEq

/-- A computation in two parts succeeds if both parts do. -/
theorem bind_eq_ok_iff {ε α β : Type} {x : Except ε α} {f : α → Except ε β} {b : β} :
    (x >>= f) = .ok b ↔ ∃ a, x = .ok a ∧ f a = .ok b := by
  cases x with
  | error e => simp [bind, Except.bind]
  | ok a => simp [bind, Except.bind]

end DesignFacts
