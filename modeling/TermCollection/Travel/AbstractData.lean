import TermCollection.Lib.Rounding

/-!
# The timetable (`AbstractData.h`)

A city is its ID, and the number of cities is part of the type of the timetable. Minutes are counted
from midnight; what the code subtracts from them is never the greater number.
-/

namespace TermCollection.Travel

abbrev QString := String

/-- `Airplane`, `Train` and `Car`. -/
inductive TransType where
  | airplane
  | train
  | car
  deriving DecidableEq

structure AbstractRoute (n : ℕ) where
  vehicleType : TransType
  destCity : Fin n
  startTime : ℕ
  costTime : ℕ
  serialNum : ℤ
  deriving DecidableEq

structure AbstractCity where
  /-- The value of the float. -/
  factor : ℚ
  name : QString
  factor_nonneg : 0 ≤ factor

structure AbstractData (n : ℕ) where
  cityIdHash : Fin n → AbstractCity
  routeMap : Fin n → List (AbstractRoute n)

/-- `RISK`. -/
def TransType.risk : TransType → ℕ
  | airplane => 9
  | train => 5
  | car => 2

end TermCollection.Travel
