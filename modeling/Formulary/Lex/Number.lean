import Formulary.Lex.Cursor
import Formulary.Lex.Token

/-!
# Numbers in a text

A number has digits, or a point with digits behind it, or both. A minus sign in front and an
exponent behind belong to it where the rule says so. A point or an exponent mark without a digit
behind it is left to the next token.

`read` takes a number from a cursor, looking one or two characters ahead and stepping back when
there is none. `scan` says what it takes as a function of the text in front of the cursor.
-/

namespace Formulary

/-- What belongs to a number besides digits and a fraction. -/
structure NumberRule where
  sign : Bool
  exponent : Bool
deriving DecidableEq, Repr

structure NumberParts where
  sign : List Char
  whole : List Char
  fraction : List Char
  power : List Char

namespace NumberParts

def chars (parts : NumberParts) : List Char :=
  parts.sign ++ parts.whole ++ parts.fraction ++ parts.power

/-- A number with neither a fraction nor an exponent is whole. -/
def kind (parts : NumberParts) : TokenKind :=
  if parts.fraction.isEmpty && parts.power.isEmpty then .integer else .float

end NumberParts

variable {cs chars : List Char}

theorem isPrefix_append_of_drop {front more : List Char} (hfront : front <+: cs)
    (hmore : more <+: cs.drop front.length) : front ++ more <+: cs := by
  obtain ⟨rest, rfl⟩ := hfront
  rw [List.drop_left] at hmore
  exact (List.prefix_append_right_inj front).mpr hmore

namespace NumberRule

def minus : List Char → List Char
  | '-' :: _ => ['-']
  | _ => []

/-- A point with digits behind it in front of a text. -/
def fraction : List Char → List Char
  | '.' :: rest =>
    let digits := rest.takeWhile Char.isDigit
    if digits.isEmpty then [] else '.' :: digits
  | _ => []

/-- An exponent mark with a sign or none and digits behind it in front of a text. -/
def power : List Char → List Char
  | e :: rest =>
    if e == 'e' || e == 'E' then
      let sign := match rest with
        | c :: _ => if c == '+' || c == '-' then [c] else []
        | [] => []
      let digits := (rest.drop sign.length).takeWhile Char.isDigit
      if digits.isEmpty then [] else e :: sign ++ digits
    else []
  | [] => []

def scan (rule : NumberRule) (cs : List Char) : Option (TokenKind × List Char) :=
  let sign := if rule.sign then minus cs else []
  let unsigned := cs.drop sign.length
  let whole := unsigned.takeWhile Char.isDigit
  let afterWhole := unsigned.drop whole.length
  let fraction := fraction afterWhole
  if whole.isEmpty && fraction.isEmpty then none
  else
    let power := if rule.exponent then power (afterWhole.drop fraction.length) else []
    let kind := if fraction.isEmpty && power.isEmpty then TokenKind.integer else TokenKind.float
    some (kind, sign ++ whole ++ fraction ++ power)

/-- The parts that are taken, each as long as it can be. -/
def parts (rule : NumberRule) (cs : List Char) : NumberParts :=
  let sign := if rule.sign then minus cs else []
  let unsigned := cs.drop sign.length
  let whole := unsigned.takeWhile Char.isDigit
  let afterWhole := unsigned.drop whole.length
  let fraction := fraction afterWhole
  ⟨sign, whole, fraction, if rule.exponent then power (afterWhole.drop fraction.length) else []⟩

theorem scan_eq_parts (rule : NumberRule) (cs : List Char) : rule.scan cs =
    if (rule.parts cs).whole.isEmpty && (rule.parts cs).fraction.isEmpty then none
    else some ((rule.parts cs).kind, (rule.parts cs).chars) := rfl

def powerSign : List Char → List Char
  | c :: _ => if c == '+' || c == '-' then [c] else []
  | [] => []

theorem power_cons (e : Char) (rest : List Char) : power (e :: rest) =
    if e == 'e' || e == 'E' then
      let digits := (rest.drop (powerSign rest).length).takeWhile Char.isDigit
      if digits.isEmpty then [] else e :: powerSign rest ++ digits
    else [] := by
  unfold power powerSign
  rfl

/-! Reading from a cursor -/

def skipMinus (cursor : Cursor) : Cursor :=
  if cursor.peek? = some '-' then cursor.advance else cursor

/-- Reads a point with digits behind it. With it the number is no longer whole. -/
def readFraction (cursor : Cursor) : TokenKind × Cursor :=
  if cursor.peek? = some '.' ∧ (cursor.peekAt? 1).any Char.isDigit then
    (.float, cursor.advance.skipWhile Char.isDigit)
  else (.integer, cursor)

/-- Reads an exponent behind a number of a kind. A mark, and a sign behind it, are read only if a
digit follows. -/
def readPower (kind : TokenKind) (cursor : Cursor) : TokenKind × Cursor :=
  if cursor.peek? = some 'e' ∨ cursor.peek? = some 'E' then
    let digitsAt := if cursor.peekAt? 1 = some '+' ∨ cursor.peekAt? 1 = some '-' then 2 else 1
    if (cursor.peekAt? digitsAt).any Char.isDigit then
      (.float, (cursor.skip digitsAt).skipWhile Char.isDigit)
    else (kind, cursor)
  else (kind, cursor)

/-- Reads a number. If there is none, the cursor is back where it was. -/
def read (rule : NumberRule) (cursor : Cursor) : Option (TokenKind × List Char) × Cursor :=
  let start := cursor.offset
  let unsigned := if rule.sign then skipMinus cursor else cursor
  let whole := unsigned.run Char.isDigit
  let (kind, behind) := readFraction (unsigned.skipWhile Char.isDigit)
  if whole.isEmpty ∧ kind = .integer then (none, behind.retreatBy (behind.offset - start))
  else
    let (kind, after) := if rule.exponent then readPower kind behind else (kind, behind)
    (some (kind, after.since start), after)

theorem isEmpty_takeWhile (p : Char → Bool) (cs : List Char) :
    (cs.takeWhile p).isEmpty = !cs.head?.any p := by
  cases cs with
  | nil => rfl
  | cons c rest => cases h : p c <;> simp [h]

theorem skipMinus_eq (cursor : Cursor) :
    skipMinus cursor = cursor.skip (minus cursor.ahead).length := by
  unfold skipMinus minus Cursor.peek?
  split
  · next h =>
    obtain ⟨rest, hahead⟩ := List.head?_eq_some_iff.mp h
    rw [hahead]
    exact cursor.advance_eq_skip
  · next h =>
    split
    · next hahead => simp [hahead] at h
    · rfl

/-- Reading a fraction moves behind the fraction that stands in front, and tells whether there is
one. -/
theorem readFraction_eq (cursor : Cursor) : readFraction cursor =
    (if (fraction cursor.ahead).isEmpty then .integer else .float,
      cursor.skip (fraction cursor.ahead).length) := by
  unfold readFraction fraction Cursor.peek? Cursor.peekAt?
  split
  · next h =>
    obtain ⟨rest, hahead⟩ := List.head?_eq_some_iff.mp h.1
    have hdigits : (rest.takeWhile Char.isDigit).isEmpty = false := by
      have hnext := h.2
      rw [hahead, List.getElem?_cons_succ, ← List.head?_eq_getElem?] at hnext
      rw [isEmpty_takeWhile, hnext]
      rfl
    have htail : cursor.advance.ahead = rest := by simp [hahead]
    simp only [hahead, hdigits]
    rw [Cursor.skipWhile, Cursor.run, htail, Cursor.advance_eq_skip, Cursor.skip_skip]
    simp [Nat.add_comm]
  · next h =>
    split
    · next rest hahead =>
      have hdigits : (rest.takeWhile Char.isDigit).isEmpty = true := by
        rw [hahead, List.getElem?_cons_succ, ← List.head?_eq_getElem?] at h
        rw [isEmpty_takeWhile]
        simpa using h
      simp [hdigits, Cursor.skip]
    · rfl

/-- Reading an exponent moves behind the whole of it: a mark without digits behind it is given
back. -/
theorem readPower_eq (kind : TokenKind) (cursor : Cursor) : readPower kind cursor =
    (if (power cursor.ahead).isEmpty then kind else .float,
      cursor.skip (power cursor.ahead).length) := by
  cases hahead : cursor.ahead with
  | nil =>
    have hpeek : cursor.peek? = none := by simp [Cursor.peek?, hahead]
    simp [readPower, hpeek, power, Cursor.skip]
  | cons e rest =>
    have hpeek : cursor.peek? = some e := by simp [Cursor.peek?, hahead]
    have hmark : (e == 'e' || e == 'E') = true ↔ some e = some 'e' ∨ some e = some 'E' := by simp
    have hdigitsAt : (if cursor.peekAt? 1 = some '+' ∨ cursor.peekAt? 1 = some '-' then 2 else 1) =
        (powerSign rest).length + 1 := by
      simp only [Cursor.peekAt?, hahead, List.getElem?_cons_succ]
      cases rest with
      | nil => rfl
      | cons c more => by_cases h : c = '+' ∨ c = '-' <;> simp [powerSign, h]
    have hdigit : (cursor.peekAt? ((powerSign rest).length + 1)).any Char.isDigit =
        !((rest.drop (powerSign rest).length).takeWhile Char.isDigit).isEmpty := by
      rw [isEmpty_takeWhile, Bool.not_not, List.head?_drop, Cursor.peekAt?, hahead,
        List.getElem?_cons_succ]
    have hbehind : ((cursor.skip ((powerSign rest).length + 1)).run Char.isDigit) =
        (rest.drop (powerSign rest).length).takeWhile Char.isDigit := by
      simp [Cursor.run, hahead]
    rw [readPower, hpeek, power_cons]
    split
    · next h =>
      rw [if_pos (hmark.mpr h)]
      dsimp only
      rw [hdigitsAt, hdigit, Cursor.skipWhile, hbehind, Cursor.skip_skip]
      generalize (rest.drop (powerSign rest).length).takeWhile Char.isDigit = digits
      cases digits with
      | nil => rfl
      | cons d more => simp [Nat.add_comm, Nat.add_left_comm]
    · next h =>
      rw [if_neg (mt hmark.mp h)]
      rfl

theorem minus_isPrefix (cs : List Char) : minus cs <+: cs := by
  unfold minus
  split
  · exact ⟨_, rfl⟩
  · exact List.nil_prefix

theorem fraction_isPrefix (cs : List Char) : fraction cs <+: cs := by
  unfold fraction
  split
  · dsimp only
    split
    · exact List.nil_prefix
    · exact (List.prefix_cons_inj _).mpr (List.takeWhile_prefix _)
  · exact List.nil_prefix

theorem power_isPrefix (cs : List Char) : power cs <+: cs := by
  unfold power
  split
  · next e rest =>
    split
    · extract_lets sign digits
      have hsign : sign <+: rest := by
        cases rest with
        | nil => exact List.nil_prefix
        | cons c rest =>
          dsimp only [sign]
          split
          · exact ⟨rest, rfl⟩
          · exact List.nil_prefix
      split
      · exact List.nil_prefix
      · have hdigits : digits <+: rest.drop sign.length := List.takeWhile_prefix _
        exact (List.prefix_cons_inj e).mpr (isPrefix_append_of_drop hsign hdigits)
    · exact List.nil_prefix
  · exact List.nil_prefix

/-- The number that is found stands in front of the text. -/
theorem scan_isPrefix {rule : NumberRule} {kind : TokenKind}
    (h : rule.scan cs = some (kind, chars)) : chars <+: cs := by
  unfold scan at h
  extract_lets sign unsigned whole afterWhole fraction' power' kind' at h
  split at h
  · cases h
  · have hchars : sign ++ whole ++ fraction' ++ power' = chars :=
      congrArg Prod.snd (Option.some.inj h)
    have hsign : sign <+: cs := by
      dsimp only [sign]
      split
      · exact minus_isPrefix cs
      · exact List.nil_prefix
    have hwhole : sign ++ whole <+: cs :=
      isPrefix_append_of_drop hsign (List.takeWhile_prefix _)
    have hafter : afterWhole = cs.drop (sign ++ whole).length := by
      rw [List.length_append, ← List.drop_drop]
    have hfraction : sign ++ whole ++ fraction' <+: cs := by
      refine isPrefix_append_of_drop hwhole ?_
      rw [← hafter]
      exact fraction_isPrefix afterWhole
    rw [← hchars]
    refine isPrefix_append_of_drop hfraction ?_
    rw [List.length_append, ← List.drop_drop, ← hafter]
    dsimp only [power']
    split
    · exact power_isPrefix _
    · exact List.nil_prefix

/-- A number is read from a cursor as it stands in the text in front, and the cursor is behind it.
Without a number the cursor stays. -/
theorem read_eq (rule : NumberRule) (cursor : Cursor) :
    rule.read cursor = (rule.scan cursor.ahead,
      (rule.scan cursor.ahead).elim cursor fun found => cursor.skip found.2.length) := by
  let number := rule.parts cursor.ahead
  let signed := number.sign.length
  let counted := signed + number.whole.length
  let pointed := counted + number.fraction.length
  have hsign : (if rule.sign then skipMinus cursor else cursor) = cursor.skip signed := by
    dsimp only [signed, number, parts]
    split
    · exact skipMinus_eq cursor
    · rfl
  have hwhole : (cursor.skip signed).run Char.isDigit = number.whole := by
    rw [Cursor.run, Cursor.ahead_skip]
    rfl
  have hcounted : (cursor.skip signed).skipWhile Char.isDigit = cursor.skip counted := by
    rw [Cursor.skipWhile, hwhole, Cursor.skip_skip]
  have hfraction : readFraction (cursor.skip counted) =
      (if number.fraction.isEmpty then .integer else .float, cursor.skip pointed) := by
    rw [readFraction_eq, Cursor.ahead_skip, ← List.drop_drop, Cursor.skip_skip]
    rfl
  have hpower (kind : TokenKind) :
      (if rule.exponent then readPower kind (cursor.skip pointed) else (kind, cursor.skip pointed)) =
        (if number.power.isEmpty then kind else .float, cursor.skip number.chars.length) := by
    have hchars : number.chars.length = pointed + number.power.length := by
      simp [NumberParts.chars, pointed, counted, signed, Nat.add_assoc]
    dsimp only [number, parts] at hchars ⊢
    rw [hchars]
    split
    · rw [readPower_eq, Cursor.ahead_skip, ← List.drop_drop, ← List.drop_drop, Cursor.skip_skip]
      rfl
    · rfl
  have hread : rule.read cursor =
      if number.whole.isEmpty && number.fraction.isEmpty then (none, cursor)
      else (some (number.kind, (cursor.skip number.chars.length).since cursor.offset),
        cursor.skip number.chars.length) := by
    rw [read, hsign, hwhole, hcounted, hfraction]
    dsimp only
    rw [hpower]
    dsimp only [NumberParts.kind]
    rw [Cursor.retreatBy_skip]
    cases number.fraction.isEmpty <;> cases number.power.isEmpty <;> simp
  have hscan : rule.scan cursor.ahead =
      if number.whole.isEmpty && number.fraction.isEmpty then none
      else some (number.kind, number.chars) := scan_eq_parts rule cursor.ahead
  rw [hread, hscan]
  split
  · rfl
  · next hsome =>
    rw [if_neg hsome] at hscan
    rw [Cursor.since_skip, ← List.prefix_iff_eq_take.mp (scan_isPrefix hscan)]
    rfl

end NumberRule

end Formulary
