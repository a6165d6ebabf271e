/-!
# Byte ranges of one source text

A span is the half-open byte range `start..stop`. Offsets are limited to 32 bits
where a range is admitted (`Span.ofRange`); all else is arithmetic on `Nat`, so a
span whose ends are swapped is a value like any other and only `Span.length?`
has nothing to say about it.
-/

set_option autoImplicit false

namespace IncrementalBuild

/-- The byte range from `start` up to, and without, `stop`. -/
structure Span where
  start : Nat
  stop : Nat
  deriving DecidableEq, Inhabited

namespace Span

/-- The largest offset a span may hold. -/
def maxOffset : Nat := 4294967295

/-- Why a byte range is refused as a span. -/
inductive RangeError where
  | startTooLarge (offset : Nat)
  | stopTooLarge (offset : Nat)
  deriving DecidableEq

/-- The text of a refusal. -/
def RangeError.message : RangeError → String
  | .startTooLarge offset => s!"span start {offset} exceeds u32::MAX"
  | .stopTooLarge offset => s!"span end {offset} exceeds u32::MAX"

/-- Admits a byte range whose ends fit in 32 bits; of two ends that do not fit, the
start is blamed. -/
def ofRange (start stop : Nat) : Except RangeError Span :=
  if maxOffset < start then .error (.startTooLarge start)
  else if maxOffset < stop then .error (.stopTooLarge stop)
  else .ok ⟨start, stop⟩

/-- The empty span at an offset. -/
def point (offset : Nat) : Span := ⟨offset, offset⟩

/-- The span of what has no place in a source text. -/
def nowhere : Span := ⟨0, 0⟩

/-- The number of bytes covered, which a span with swapped ends does not have. -/
def length? (s : Span) : Option Nat :=
  if s.start ≤ s.stop then some (s.stop - s.start) else none

/-- Whether both ends are one offset. -/
def isEmpty (s : Span) : Bool := s.start == s.stop

/-- Whether an offset lies in the span. -/
def contains (s : Span) (offset : Nat) : Bool :=
  decide (s.start ≤ offset) && decide (offset < s.stop)

/-- The smallest span that covers two spans. -/
def merge (s t : Span) : Span := ⟨min s.start t.start, max s.stop t.stop⟩

/-- The span moved `n` bytes to the right. -/
def shift (n : Nat) (s : Span) : Span := ⟨s.start + n, s.stop + n⟩

/-- The written form `start..stop`. -/
def text (s : Span) : String := s!"{s.start}..{s.stop}"

end Span

end IncrementalBuild
