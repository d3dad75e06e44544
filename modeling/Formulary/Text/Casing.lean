/-!
# Letters without regard to ASCII case

Reserved words, truth words, section names and field names are compared letter by letter, a
capital ASCII letter counting as its small one. No other letter has a counterpart here.
-/

namespace Formulary.Text

/-- The same characters up to the case of ASCII letters. -/
def equalIgnoringCase (s t : List Char) : Bool := s.map Char.toLower == t.map Char.toLower

/-- Whether one of the words is spelled by the characters, whatever the case. -/
def isOneOf (words : List String) (s : List Char) : Bool :=
  words.any fun word => equalIgnoringCase word.toList s

theorem equalIgnoringCase_refl (s : List Char) : equalIgnoringCase s s = true := by
  simp [equalIgnoringCase]

end Formulary.Text
