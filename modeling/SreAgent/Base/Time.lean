import Mathlib

/-!
# Points in time

`TIMESTAMPTZ` and aware `datetime` values, in microseconds.
-/

namespace SreAgent

/-- A point in time (`TIMESTAMPTZ`, `datetime`), in microseconds. -/
abbrev Timestamp := Int

/-- `interval 'n seconds'`. -/
def seconds (n : Int) : Int := n * 1000000

/-- `interval 'n minutes'`. -/
def minutes (n : Int) : Int := seconds (60 * n)

end SreAgent
