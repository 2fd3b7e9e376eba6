import MentorAllocation.Ui.TraceIndex

namespace Ui

def windowIndices (offset remaining : Nat) : List (Nat × Nat) → List Nat
  | [] => []
  | (windowStart, windowEnd) :: windows =>
    if windowEnd - windowStart ≤ offset then
      windowIndices (offset - (windowEnd - windowStart)) remaining windows
    else
      let absoluteStart := windowStart + offset
      let take := min remaining (windowEnd - absoluteStart)
      let indices := List.range' absoluteStart take
      if remaining - take = 0 then indices
      else indices ++ windowIndices 0 (remaining - take) windows

def pageWindowIndices (filteredWindows : List (Nat × Nat)) (start size : Int) : List Nat :=
  if start < 0 ∨ size ≤ 0 then [] else windowIndices start.toNat size.toNat filteredWindows

end Ui
