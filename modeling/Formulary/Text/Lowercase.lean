import Formulary.Text.CaseTable

/-!
# Small letters

`lowercase` writes a text in small letters. It is what makes two spellings of a name the same
name. A capital sigma becomes the final small sigma at the end of a word and the ordinary one
elsewhere; a capital I with a dot becomes an `i` followed by the combining dot; every other letter
is replaced on its own.
-/

namespace Formulary.Text

/-- The small form of a letter that is not a capital sigma. -/
def lowerLetter (c : Char) : List Char :=
  if c.toNat < 0x80 then [c.toLower]
  else if c.toNat == 0x130 then ['i', Char.ofNat 0x307]
  else match capitalRuns.find? (·.holds c.toNat) with
    | some run => [Char.ofNat ((c.toNat : Int) + run.shift).toNat]
    | none => [c]

/-- Whether the next letter, looking through ignorable marks, is one that has a case. -/
def casedAhead (cs : List Char) : Bool :=
  match cs.dropWhile isCaseIgnorable with
  | c :: _ => isCased c
  | [] => false

/-- The small form of a capital sigma between `behind` (nearest character first) and `ahead`. -/
def lowerSigma (behind ahead : List Char) : Char :=
  if casedAhead behind && !casedAhead ahead then Char.ofNat 0x3C2 else Char.ofNat 0x3C3

/-- Small letters of the text `ahead` that follows `behind` (nearest character first). -/
def lowerAfter (behind : List Char) : List Char → List Char
  | [] => []
  | c :: ahead =>
    (if c.toNat == 0x3A3 then [lowerSigma behind ahead] else lowerLetter c)
      ++ lowerAfter (c :: behind) ahead

def lowercase (s : String) : String := String.ofList (lowerAfter [] s.toList)

example : lowercase "PRICE" = "price" := by decide
example : lowercase "ΣΑΣ" = "σας" := by decide +kernel
example : lowercase "É" = "é" := by decide +kernel

end Formulary.Text
