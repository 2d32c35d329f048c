import BotScript.Word

namespace BotScript

/-!
# Source spans

A span is a half-open range of byte offsets into the program text.  Offsets
are 32-bit words, the form in which snapshots store them.
-/

/-- The half-open byte range `[start, stop)` of a program text. -/
structure Span where
  start : UInt32
  stop : UInt32
  deriving Repr, DecidableEq, Inhabited

namespace Span

/-- The span of parts that no source text stands for. -/
def none : Span :=
  ⟨0, 0⟩

/-- The span between two byte positions; positions beyond a word become the largest word. -/
def ofRange (start stop : Nat) : Span :=
  ⟨Word.ofNat start, Word.ofNat stop⟩

/-- The empty span at an offset. -/
def point (position : UInt32) : Span :=
  ⟨position, position⟩

/-- The number of bytes a span covers. -/
def length (span : Span) : UInt32 :=
  span.stop - span.start

/-- Whether a span covers no byte. -/
def isEmpty (span : Span) : Bool :=
  span.start == span.stop

/-- Whether an offset lies inside a span. -/
def contains (span : Span) (position : UInt32) : Bool :=
  span.start ≤ position && position < span.stop

/-- The smallest span that covers two spans. -/
def merge (left right : Span) : Span :=
  ⟨min left.start right.start, max left.stop right.stop⟩

/-- A span as it is shown in messages. -/
def text (span : Span) : String :=
  toString span.start.toNat ++ ".." ++ toString span.stop.toNat

end Span

end BotScript
