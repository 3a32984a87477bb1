/-!
# Spans of source text

A half-open span `[start, stop)` of character positions inside a pushed expression.
The interpreter reports one when the pushed value covers only a part of it.
-/

namespace PathFacts

/-- The characters from `start` up to, not including, `stop`. -/
structure TextSpan where
  start : Nat
  stop : Nat
deriving DecidableEq

namespace TextSpan

/-- Number of characters; a span that ends before it starts has none. -/
def length (s : TextSpan) : Nat := s.stop - s.start

/-- Whether the span has no character. -/
def isEmpty (s : TextSpan) : Bool := s.length == 0

/-- Whether `inner` starts and stops inside `s`; only the bounds are compared. -/
def contains (s inner : TextSpan) : Bool :=
  decide (s.start ≤ inner.start) && decide (inner.stop ≤ s.stop)

end TextSpan
end PathFacts
