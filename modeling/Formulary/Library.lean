import Formulary.Library.Arithmetic
import Formulary.Library.Choice
import Formulary.Library.Content
import Formulary.Library.Time

/-!
# The library of functions

Thirty-seven names are known to every expression. Functions that look at the clock or draw lots are
given the moment and the lot, so that everything else about them stands in the open.
-/

namespace Formulary

/-- What functions see of the world: the moment, and a lot drawn from 0 up to 1. -/
structure Ambient where
  now : Instant
  lot : Float

namespace Library

/-- The functions of the library in the order of their registration. -/
def builtins (world : Ambient) : List Builtin :=
  [.value "Ticks" (.long (Int64.ofInt world.now.millis)), timeSpan,
    .value "Now" (.dateTime world.now), date, dayOfWeek, min, max, sum, ifElse, choose, e, pi,
    .value "Rnd" (.double world.lot), .value "Random" (.double world.lot), abs]
  ++ transcendental ++ round :: truncate ++ [empty, null, contains, array]

def functions (world : Ambient) : Functions :=
  (builtins world).foldl (fun fs f => fs.add f.name f.body) .empty

end Library

end Formulary
