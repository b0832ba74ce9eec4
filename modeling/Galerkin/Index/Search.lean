/-! # Binary search for a partition point

`partitionPoint before first count` looks, among the `count` positions from `first` on, for the first
one that `before` does not accept. It probes the middle position and keeps the half that the probe
points to, so it needs `before` to accept an initial part only; on other predicates it still answers,
with the position its probes lead to. -/

namespace Galerkin

/-- **The first position that is not `before`,** by halving. -/
def partitionPoint (before : Nat → Bool) (first count : Nat) : Nat :=
  if count = 0 then first
  else
    let half := count / 2
    if before (first + half) then partitionPoint before (first + half + 1) (count - half - 1)
    else partitionPoint before first half
termination_by count
decreasing_by all_goals omega

/-- The answer is a position of the range or its end. -/
theorem partitionPoint_bounds (before : Nat → Bool) (first count : Nat) :
    first ≤ partitionPoint before first count ∧
      partitionPoint before first count ≤ first + count := by
  fun_induction partitionPoint before first count with
  | case1 first => omega
  | case2 first count _ half _ ih => omega
  | case3 first count _ half _ ih => omega

end Galerkin
