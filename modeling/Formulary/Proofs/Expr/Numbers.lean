import Formulary.Proofs.Expr.Completion
import Formulary.Proofs.Expr.Evaluation
import Formulary.Proofs.Expr.Literals
import Formulary.Proofs.Number.Writing
import Formulary.Proofs.Strategy.Whole

/-!
# Literals of whole numbers

A run of decimal digits is one token. It is read as a whole number of the narrower kind that holds
it, however many zeros are in front, and it is refused at its place if neither kind does. A minus
sign in front is a token of its own, so the digits stand one column later, and the sign of the
number that they are is changed in its kind. The least number of a kind has no such literal in it.
-/

namespace Formulary

structure IsDigits (digits : List Char) : Prop where
  ne_nil : digits ≠ []
  all : ∀ c ∈ digits, c.isDigit = true

variable {digits : List Char} {n : Nat}

/-! The value of the digits -/

theorem readInt?_of_isDigits (h : IsDigits digits) :
    readInt? digits = some (Nat.ofDigitChars 10 digits 0 : Int) := by
  have hall : digits.all Char.isDigit = true := List.all_eq_true.mpr h.all
  simp [readInt?, splitSign_of_isDigit h.all, hall, h.ne_nil, digitsValue_eq_ofDigitChars]

/-- The kind of the literals of a number from zero on. -/
inductive LiteralKind (n : Nat) : Kind → Prop
  | integer (h : n ≤ 2147483647) : LiteralKind n .integer
  | long (h : 2147483648 ≤ n ∧ n ≤ 9223372036854775807) : LiteralKind n .long

theorem LiteralKind.lt_limit {k : Kind} (h : LiteralKind n k) : (n : Int) < k.limit := by
  cases h <;> simp only [Kind.limit] <;> omega

namespace Sign

theorem wholeNumber_eq (h : IsDigits digits) : wholeNumber digits =
    ((int32? (Nat.ofDigitChars 10 digits 0 : Nat)).map .integer).or
      ((int64? (Nat.ofDigitChars 10 digits 0 : Nat)).map .long) := by
  rw [wholeNumber, readInt32?, readInt64?, readInt?_of_isDigits h, Option.bind_some,
    Option.bind_some]

theorem int32?_eq_none {n : Int} (h : 2147483648 ≤ n) : int32? n = none := if_neg (by omega)

/-- Digits stand for the number that they write, of the kind that holds it. -/
theorem exists_wholeNumber (h : IsDigits digits) {k : Kind}
    (hk : LiteralKind (Nat.ofDigitChars 10 digits 0) k) :
    ∃ v, wholeNumber digits = some v ∧ v.Whole k (Nat.ofDigitChars 10 digits 0 : Nat) := by
  rw [wholeNumber_eq h]
  cases hk with
  | integer hsmall =>
    obtain ⟨x, hx⟩ := Option.isSome_iff_exists.mp
      (Kind.isSome_int32?_iff.mpr ⟨by simp only [Kind.limit]; omega,
        (LiteralKind.integer hsmall).lt_limit⟩)
    rw [hx]
    exact ⟨.integer x, rfl, rfl, congrArg some (toInt_of_int32? hx)⟩
  | long hlarge =>
    obtain ⟨x, hx⟩ := Option.isSome_iff_exists.mp
      (Kind.isSome_int64?_iff.mpr ⟨by simp only [Kind.limit]; omega,
        (LiteralKind.long hlarge).lt_limit⟩)
    rw [int32?_eq_none (by omega), hx]
    exact ⟨.long x, rfl, rfl, congrArg some (toInt_of_int64? hx)⟩

theorem wholeNumber_eq_none (h : IsDigits digits)
    (hlarge : 9223372036854775808 ≤ Nat.ofDigitChars 10 digits 0) :
    wholeNumber digits = none := by
  have hlong : int64? (Nat.ofDigitChars 10 digits 0 : Nat) = none := if_neg (by omega)
  rw [wholeNumber_eq h, int32?_eq_none (by omega), hlong]
  rfl

theorem ofTokens_digits (digits : List Char) (p : Position) :
    ofTokens [⟨.integer, String.ofList digits, p⟩] =
      (ofNumber ⟨.integer, String.ofList digits, p⟩ (wholeNumber digits)).map
        fun sign => [⟨sign, p⟩] := by
  have hvalue : wholeNumber (String.ofList digits).toList = wholeNumber digits := by
    rw [String.toList_ofList]
  rw [ofTokens, ofTokenBefore_of_uncalled rfl, ofToken, hvalue]
  cases wholeNumber digits <;> rfl

theorem ofTokens_minus {tokens : List Token} (h : calls tokens = false) (p : Position) :
    ofTokens (⟨.symbol, "-", p⟩ :: tokens) =
      (ofTokens tokens).map (⟨.operator .sub, p⟩ :: ·) := by
  rw [ofTokens, ofTokenBefore_of_uncalled h]
  cases ofTokens tokens <;> rfl

end Sign

/-! The tokens -/

namespace Expr

theorem scan_digits {c : Char} {rest : List Char} (h : ∀ d ∈ c :: rest, d.isDigit = true) :
    lexicon.scan c rest = .ok ⟨.integer, c :: rest⟩ := by
  have hwhole : (c :: rest).takeWhile Char.isDigit = c :: rest := List.takeWhile_eq_self_iff.mpr h
  have hscan : numberRule.scan (c :: rest) = some (.integer, c :: rest) := by
    simp [NumberRule.scan, numberRule, hwhole, NumberRule.fraction, NumberRule.power]
  have hroute : lexicon.routes.get? c = some (.number numberRule) := by
    rw [route_eq, stateOf_of_number (.inr (h c List.mem_cons_self))]
  rw [scan_iff hroute, State.scan, hscan]

theorem scan_minus (rest : List Char) : lexicon.scan '-' rest = .ok ⟨.symbol, ['-']⟩ := by
  rw [scan_iff (route_eq '-')]
  change Except.ok (State.scanSymbol (.ofList operators) ('-' :: rest)) = _
  rw [State.scanSymbol_cons]
  rfl

theorem divide_digits (cursor : Cursor) (h : IsDigits digits)
    (hahead : cursor.ahead = digits) :
    ∃ place, lexicon.divide cursor =
      .ok [⟨.integer, String.ofList digits, cursor.nextPlace⟩, ⟨.eof, "", place⟩] := by
  obtain ⟨c, rest, rfl⟩ := List.exists_cons_of_ne_nil h.ne_nil
  have hbehind : (cursor.skip (c :: rest).length).ahead = [] := by
    rw [Cursor.ahead_skip, hahead]
    exact List.drop_length
  refine ⟨(cursor.skip (c :: rest).length).nextPlace, ?_⟩
  rw [Rules.divide_of_scan hahead (scan_digits h.all), Rules.divide_of_end hbehind]
  rfl

end Expr

theorem Cursor.placeAfter_of_isDigit {c : Char} (hc : c.isDigit = true) (p : Position)
    (before after : Option Char) : placeAfter p before c after = ⟨p.line, p.column + 1⟩ := by
  have hfeed : (c == '\n') = false := by
    rw [beq_eq_false_iff_ne]
    rintro rfl
    cases hc
  have hreturn : (c == '\r') = false := by
    rw [beq_eq_false_iff_ne]
    rintro rfl
    cases hc
  simp [placeAfter, endsLine, hfeed, hreturn]

theorem Cursor.nextPlace_of_isDigits {cursor : Cursor} (h : IsDigits digits)
    (hahead : cursor.ahead = digits) :
    cursor.nextPlace = ⟨cursor.place.line, cursor.place.column + 1⟩ := by
  obtain ⟨c, rest, rfl⟩ := List.exists_cons_of_ne_nil h.ne_nil
  rw [nextPlace, hahead]
  exact placeAfter_of_isDigit (h.all c List.mem_cons_self) _ _ _

namespace Formula

theorem tokenize_digits (h : IsDigits digits) : ∃ place,
    tokenize (String.ofList digits) =
      .ok [⟨.integer, String.ofList digits, ⟨1, 1⟩⟩, ⟨.eof, "", place⟩] := by
  have hahead : (Cursor.ofText (String.ofList digits)).ahead = digits := String.toList_ofList
  obtain ⟨place, hdivide⟩ := Expr.divide_digits _ h hahead
  refine ⟨place, ?_⟩
  rw [tokenize_eq, hdivide, Cursor.nextPlace_of_isDigits h hahead]
  rfl

theorem tokenize_minus_digits (h : IsDigits digits) : ∃ place,
    tokenize (String.ofList ('-' :: digits)) =
      .ok [⟨.symbol, "-", ⟨1, 1⟩⟩, ⟨.integer, String.ofList digits, ⟨1, 2⟩⟩,
        ⟨.eof, "", place⟩] := by
  let cursor := Cursor.ofText (String.ofList ('-' :: digits))
  have hahead : cursor.ahead = '-' :: digits := String.toList_ofList
  have hfirst : cursor.nextPlace = ⟨1, 1⟩ := by
    rw [Cursor.nextPlace, hahead]
    rfl
  have hbehind : cursor.skip 1 = ⟨[('-', ⟨1, 1⟩)], digits⟩ := by
    rw [← Cursor.advance_eq_skip, Cursor.advance_of_ahead hahead, hfirst]
    rfl
  obtain ⟨place, hdivide⟩ := Expr.divide_digits (cursor.skip 1) h (by rw [hbehind])
  have hsecond : (cursor.skip 1).nextPlace = ⟨1, 2⟩ := by
    rw [Cursor.nextPlace_of_isDigits h (by rw [hbehind]), hbehind]
    rfl
  rw [hsecond] at hdivide
  refine ⟨place, ?_⟩
  rw [tokenize_eq, Rules.divide_of_scan hahead (Expr.scan_minus digits), hfirst]
  change (((Expr.lexicon.divide (cursor.skip 1)).map _).map _).mapError _ = _
  rw [hdivide]
  rfl

end Formula

namespace Calculator

/-- A calculator takes a text as a formula, and its value is a whole number of a kind, whatever the
variables and the functions are. -/
def Computes (c : Calculator) (text : String) (k : Kind) (n : Int) : Prop :=
  ∃ c', c.setText text = (.ok (), c') ∧ ∀ vars functions,
    ∃ v, c'.evaluateWith vars functions = .ok v ∧ v.Whole k n

/-- A calculator refuses a text for a number at a place. -/
def Refuses (c : Calculator) (text number : String) (p : Position) : Prop :=
  (c.setText text).1 = .error (.lex (.invalidNumber number p))

variable {c : Calculator} {text : String}

/-- A calculator computes the value of the expression that a text is read as. -/
theorem computes_of_read {f : Formula} {e : Expr} {k : Kind} {n : Int}
    (hread : Formula.read text = .ok f) (htree : f.tree = some e) (hcount : e.Countable)
    (hvalue : ∀ vars functions,
      ∃ v, e.evaluate ⟨vars, functions, c.strategy⟩ = .ok v ∧ v.Whole k n) :
    c.Computes text k n := by
  refine ⟨_, setText_of_ok hread, fun vars functions => ?_⟩
  obtain ⟨v, hv, hwhole⟩ := hvalue (vars.getD _) (functions.getD c.functions)
  refine ⟨v, ?_, hwhole⟩
  have hprogram : f.program = e.program := by rw [Formula.program, htree, Option.elim_some]
  rw [evaluateWith, Formula.evaluate, hprogram, e.evaluate_program hcount, hv]
  rfl

theorem refuses_of_read {number : String} {p : Position}
    (hread : Formula.read text = .error (.lex (.invalidNumber number p))) :
    c.Refuses text number p := by
  rw [Refuses, setText_of_error hread]

end Calculator

namespace Formula

/-- Digits that are a number are read as a constant. -/
theorem read_digits (h : IsDigits digits) {v : Value} (hv : Sign.wholeNumber digits = some v) :
    ∃ f, read (String.ofList digits) = .ok f ∧ f.tree = some (.constant v ⟨1, 1⟩) := by
  obtain ⟨place, htokenize⟩ := tokenize_digits h
  let phrase := Phrase.constant v ⟨1, 1⟩
  have hsigns : Sign.ofTokens [⟨.integer, String.ofList digits, ⟨1, 1⟩⟩] = .ok phrase.tokens := by
    rw [Sign.ofTokens_digits, hv]
    rfl
  have hnesting : phrase.nesting ≤ Expr.levels := by simp [phrase, Phrase.nesting, Expr.levels]
  exact ⟨_, read_of_tokens htokenize rfl hsigns rfl hnesting, rfl⟩

/-- With a minus sign in front they are read as the opposite of a constant. -/
theorem read_minus_digits (h : IsDigits digits) {v : Value}
    (hv : Sign.wholeNumber digits = some v) :
    ∃ f, read (String.ofList ('-' :: digits)) = .ok f ∧
      f.tree = some (.unary .negative (.constant v ⟨1, 2⟩) ⟨1, 1⟩) := by
  obtain ⟨place, htokenize⟩ := tokenize_minus_digits h
  let phrase := Phrase.front .minus ⟨1, 1⟩ (.constant v ⟨1, 2⟩)
  have hsigns : Sign.ofTokens [⟨.symbol, "-", ⟨1, 1⟩⟩, ⟨.integer, String.ofList digits, ⟨1, 2⟩⟩] =
      .ok phrase.tokens := by
    rw [Sign.ofTokens_minus rfl, Sign.ofTokens_digits, hv]
    rfl
  have hnesting : phrase.nesting ≤ Expr.levels := by simp [phrase, Phrase.nesting, Expr.levels]
  exact ⟨_, read_of_tokens htokenize rfl hsigns rfl hnesting, rfl⟩

/-- Digits of a number that no kind of literals holds are refused at the start of the text. -/
theorem read_large_digits (h : IsDigits digits) (hnone : Sign.wholeNumber digits = none) :
    read (String.ofList digits) =
      .error (.lex (.invalidNumber (String.ofList digits) ⟨1, 1⟩)) := by
  obtain ⟨place, htokenize⟩ := tokenize_digits h
  have hsigns : Sign.ofTokens [⟨.integer, String.ofList digits, ⟨1, 1⟩⟩] =
      .error (.lex (.invalidNumber (String.ofList digits) ⟨1, 1⟩)) := by
    rw [Sign.ofTokens_digits, hnone]
    rfl
  exact read_of_fault htokenize rfl hsigns

/-- Behind a minus sign such digits are refused where they stand. -/
theorem read_minus_large_digits (h : IsDigits digits) (hnone : Sign.wholeNumber digits = none) :
    read (String.ofList ('-' :: digits)) =
      .error (.lex (.invalidNumber (String.ofList digits) ⟨1, 2⟩)) := by
  obtain ⟨place, htokenize⟩ := tokenize_minus_digits h
  have hsigns : Sign.ofTokens [⟨.symbol, "-", ⟨1, 1⟩⟩, ⟨.integer, String.ofList digits, ⟨1, 2⟩⟩] =
      .error (.lex (.invalidNumber (String.ofList digits) ⟨1, 2⟩)) := by
    rw [Sign.ofTokens_minus rfl, Sign.ofTokens_digits, hnone]
    rfl
  exact read_of_fault htokenize rfl hsigns

end Formula

/-- A run of digits is an expression and has the value of its digits, in 32 bits if they hold it and
otherwise in 64 bits. With a minus sign in front the value is the opposite number, in the same kind,
under both strategies. If 64 bits do not hold the digits, they are refused where they stand, with
and without the sign. -/
theorem Calculator.whole_literals (h : IsDigits digits) (c : Calculator) :
    let n := Nat.ofDigitChars 10 digits 0
    (∀ k, LiteralKind n k → c.Computes (String.ofList digits) k n ∧
      (c.strategy = .lenient ∨ c.strategy = .strict →
        c.Computes (String.ofList ('-' :: digits)) k (-n))) ∧
    (9223372036854775807 < n →
      c.Refuses (String.ofList digits) (String.ofList digits) ⟨1, 1⟩ ∧
      c.Refuses (String.ofList ('-' :: digits)) (String.ofList digits) ⟨1, 2⟩) := by
  intro n
  refine ⟨fun k hk => ?holds, fun hlarge => ?refused⟩
  case holds =>
    obtain ⟨v, hv, hwhole⟩ := Sign.exists_wholeNumber h hk
    refine ⟨?plain, fun hs => ?opposite⟩
    case plain =>
      obtain ⟨f, hread, htree⟩ := Formula.read_digits h hv
      exact computes_of_read hread htree trivial fun _ _ => ⟨v, rfl, hwhole⟩
    case opposite =>
      obtain ⟨f, hread, htree⟩ := Formula.read_minus_digits h hv
      have hlimit : (n : Int) ≠ -k.limit := by
        have hsmall := hk.lt_limit
        omega
      obtain ⟨w, hw, hopposite⟩ := (Value.yieldsIf_negate hwhole).value hlimit
      have hnegative : c.strategy.negative v = v.negate := by
        rcases hs with hs | hs <;> rw [hs] <;> exact Coercion.negative_integer _ hwhole
      exact computes_of_read hread htree trivial fun _ _ => ⟨w, hnegative.trans hw, hopposite⟩
  case refused =>
    have hnone := Sign.wholeNumber_eq_none h hlarge
    exact ⟨refuses_of_read (Formula.read_large_digits h hnone),
      refuses_of_read (Formula.read_minus_large_digits h hnone)⟩

/-- The first number that 32 bits do not hold, with zeros in front, and the first that 64 bits do
not hold. -/
theorem Calculator.whole_literals_limits :
    let c : Calculator := ⟨.new, .empty, .strict⟩
    IsDigits "0002147483648".toList ∧ LiteralKind 2147483648 .long ∧
      c.strategy = .strict ∧ c.Computes "0002147483648" .long 2147483648 ∧
      c.Computes "-0002147483648" .long (-2147483648) ∧
      IsDigits "9223372036854775808".toList ∧
      c.Refuses "-9223372036854775808" "9223372036854775808" ⟨1, 2⟩ := by
  intro c
  have hpadded : IsDigits "0002147483648".toList := ⟨by decide, by simp⟩
  have hlarge : IsDigits "9223372036854775808".toList := ⟨by decide, by simp⟩
  have hkind : LiteralKind 2147483648 .long := .long (by decide)
  obtain ⟨hplain, hopposite⟩ := (whole_literals hpadded c).1 .long hkind
  exact ⟨hpadded, hkind, rfl, hplain, hopposite (.inr rfl), hlarge,
    ((whole_literals hlarge c).2 (by decide)).2⟩

end Formulary
