/-!
# Integers of 32 and 64 bits

Whole numbers are computed without bound and then either fit a width or not. `int32?` and `int64?`
make that decision; nothing wraps around.
-/

namespace Formulary

def int32? (n : Int) : Option Int32 :=
  if -2147483648 ≤ n ∧ n < 2147483648 then some (Int32.ofInt n) else none

def int64? (n : Int) : Option Int64 :=
  if -9223372036854775808 ≤ n ∧ n < 9223372036854775808 then some (Int64.ofInt n) else none

theorem toInt_of_int32? {n : Int} {w : Int32} (h : int32? n = some w) : w.toInt = n := by
  unfold int32? at h
  split at h
  · cases h
    exact Int32.toInt_ofInt_of_le (by omega) (by omega)
  · cases h

theorem toInt_of_int64? {n : Int} {w : Int64} (h : int64? n = some w) : w.toInt = n := by
  unfold int64? at h
  split at h
  · cases h
    exact Int64.toInt_ofInt_of_le (by omega) (by omega)
  · cases h

def widen (n : Int32) : Int64 := Int64.ofInt n.toInt

end Formulary
