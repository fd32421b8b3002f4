namespace PatternTree

/-- The bytes of a pattern from `start` up to but not including `stop`. Nothing keeps the two
    in order: a tree assembled by hand may carry any pair. -/
structure Span where
  start : Nat
  stop : Nat
  deriving DecidableEq, Repr

namespace Span

/-- The span of no bytes at an offset. -/
def empty (offset : Nat) : Span :=
  ⟨offset, offset⟩

/-- The span from the start of the first to the end of the second. -/
def through (first second : Span) : Span :=
  ⟨first.start, second.stop⟩

/-- The number of bytes of a span whose ends are in order. -/
def length (span : Span) : Nat :=
  span.stop - span.start

/-- Whether a span takes no bytes. -/
def isEmpty (span : Span) : Bool :=
  span.start == span.stop

/-- Whether no byte of `inner` lies outside `outer`. -/
def contains (outer inner : Span) : Bool :=
  outer.start ≤ inner.start && inner.stop ≤ outer.stop

end Span

end PatternTree
