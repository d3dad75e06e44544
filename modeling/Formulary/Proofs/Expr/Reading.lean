import Formulary.Expr.Parser
import Formulary.Proofs.Expr.Grouping

/-!
# Reading what phrases write

The tokens of a clear phrase are read as the phrase's expression whenever there are levels enough
for its nesting, whatever stands behind them; with fewer levels reading fails for want of levels and
for no other reason. The induction is on the phrase. What stands behind it is arbitrary up to
`EndsBefore`, and a left operand is read by the reader of the whole: reading a phrase comes down to
extending its expression by what stands behind it.
-/

namespace Formulary

namespace Expr

/-- How tight the next tokens hold what stands before them. -/
def leftPowerAhead? : List (Placed Sign) → Option Nat
  | ⟨.openBracket, _⟩ :: _ => some (BinaryOperation.leftPower .element)
  | ⟨.is, _⟩ :: _ => some testPower
  | tokens => (binaryAhead? tokens).map (·.1.leftPower)

/-- Whether the next token makes a call of a name before it. -/
def callAhead : List (Placed Sign) → Bool
  | ⟨.openParenthesis, _⟩ :: _ => true
  | _ => false

/-- An outcome that is another one if there are levels enough, and is the lack of levels if not. -/
structure Attains {α : Type} (enough : Prop) (x y : Except (Stuck (Placed Sign)) α) : Prop where
  reached : enough → x = y
  exhausted : ¬ enough → ∃ left, x = .error ⟨.nestingTooDeep levels, left⟩

namespace Attains

variable {α β : Type} {P Q : Prop} {x y z : Except (Stuck (Placed Sign)) α}

theorem of_eq (hP : P) (h : x = y) : Attains P x y := ⟨fun _ => h, fun hn => absurd hP hn⟩

theorem trans (h : Attains P x y) (h' : Attains Q y z) : Attains (P ∧ Q) x z := by
  refine ⟨fun ⟨hP, hQ⟩ => (h.reached hP).trans (h'.reached hQ), fun hn => ?_⟩
  by_cases hP : P
  · rw [h.reached hP]
    exact h'.exhausted fun hQ => hn ⟨hP, hQ⟩
  · exact h.exhausted hP

theorem bind {a : α} (f : α → Except (Stuck (Placed Sign)) β) (h : Attains P x (.ok a)) :
    Attains P (x.bind f) (f a) := by
  refine ⟨fun hP => by rw [h.reached hP]; rfl, fun hn => ?_⟩
  obtain ⟨left, hx⟩ := h.exhausted hn
  exact ⟨left, by rw [hx]; rfl⟩

theorem map {a : α} (f : α → β) (h : Attains P x (.ok a)) : Attains P (x.map f) (.ok (f a)) := by
  have hmap : x.map f = x.bind fun a => .ok (f a) := by cases x <;> rfl
  rw [hmap]
  exact h.bind fun a => .ok (f a)

end Attains

section Steps

variable {r : Reader} {power : Nat} {left e : Expr} {tokens rest : List (Placed Sign)} {P : Prop}

theorem extend_of_none (h : extendOnce r power left tokens = none) :
    extend r power left tokens = .ok (left, tokens) := by
  unfold extend
  split
  · rfl
  · next hstep => rw [h] at hstep; cases hstep
  · next hstep => rw [h] at hstep; cases hstep

theorem extend_of_error {s : Stuck (Placed Sign)}
    (h : extendOnce r power left tokens = some (.error s)) :
    extend r power left tokens = .error s := by
  unfold extend
  split
  · next hstep => rw [h] at hstep; cases hstep
  · next hstep => rw [h] at hstep; cases hstep; rfl
  · next hstep => rw [h] at hstep; cases hstep

theorem extend_of_ok (h : extendOnce r power left tokens = some (.ok (e, rest))) :
    extend r power left tokens = extend r power e rest := by
  conv => lhs; unfold extend
  split
  · next hstep => rw [h] at hstep; cases hstep
  · next hstep => rw [h] at hstep; cases hstep
  · next hstep => rw [h] at hstep; cases hstep; rfl

/-- An expression is extended by what one step makes of it. -/
theorem extend_attains {x : Reading (Placed Sign) Expr}
    (h : extendOnce r power left tokens = some x) (hx : Attains P x (.ok (e, rest))) :
    Attains P (extend r power left tokens) (extend r power e rest) := by
  refine ⟨fun hP => extend_of_ok (by rw [h, hx.reached hP]), fun hn => ?_⟩
  obtain ⟨stuck, hs⟩ := hx.exhausted hn
  exact ⟨stuck, extend_of_error (by rw [h, hs])⟩

/-- Nothing extends an expression exactly if what stands behind it holds it less tight. -/
theorem extendOnce_eq_none_iff : extendOnce r power left tokens = none ↔
    ∀ k, leftPowerAhead? tokens = some k → k < power := by
  unfold extendOnce
  split
  · simp [leftPowerAhead?, binaryAhead?]
  · simp [leftPowerAhead?]
  · simp [leftPowerAhead?]
  · next sign place more hbracket his =>
    have hahead : leftPowerAhead? (⟨sign, place⟩ :: more) =
        (binaryAhead? (⟨sign, place⟩ :: more)).map (·.1.leftPower) := by
      cases sign <;> first | rfl | exact (hbracket rfl).elim | exact (his rfl).elim
    rw [hahead]
    cases binaryAhead? (⟨sign, place⟩ :: more) <;> simp

theorem extendOnce_index (left : Expr) (place : Position)
    (h : power ≤ BinaryOperation.leftPower .element) :
    extendOnce r power left (⟨.openBracket, place⟩ :: tokens) =
      some ((r.read (BinaryOperation.rightPower .element) tokens).bind fun read =>
        (closeBracket read.2).map fun rest => (.binary .element left read.1 place, rest)) := by
  rw [extendOnce, if_neg (Nat.not_lt.mpr h)]

theorem extendOnce_test (left : Expr) (words : Test) (h : power ≤ testPower) :
    extendOnce r power left (words.tokens ++ rest) =
      some (.ok (.unary words.operation left words.place, rest)) := by
  cases words <;> rw [Test.tokens, List.cons_append, extendOnce, if_neg (Nat.not_lt.mpr h)] <;> rfl

/-- A link that reaches the power extends an expression by the operand behind it. -/
theorem extendOnce_link (left : Expr) (link : Link) (h : power ≤ link.operation.leftPower) :
    extendOnce r power left (link.tokens ++ tokens) =
      some ((r.read link.operation.rightPower tokens).map fun read =>
        (.binary link.operation left read.1 link.place, read.2)) := by
  have hstep : ¬ link.operation.leftPower < power := Nat.not_lt.mpr h
  cases link <;>
    simp only [Link.operation] at hstep <;>
    simp only [Link.tokens, Link.operation, Link.place, List.cons_append, List.nil_append,
      extendOnce, binaryAhead?, if_neg hstep]

theorem leftPowerAhead?_link (link : Link) :
    leftPowerAhead? (link.tokens ++ tokens) = some link.operation.leftPower := by
  cases link <;> rfl

theorem leftPowerAhead?_test (words : Test) :
    leftPowerAhead? (words.tokens ++ tokens) = some testPower := by
  cases words <;> rfl

theorem operand_reference (name : String) (place : Position)
    (h : callAhead tokens = false) :
    operand r (⟨.name name, place⟩ :: tokens) = .ok (.reference name place, tokens) := by
  match tokens with
  | [] => rfl
  | ⟨sign, p⟩ :: more => cases sign <;> first | rfl | cases h

theorem operand_call (name : String) (place opened : Position)
    (h : ∀ p more, tokens ≠ ⟨.closeParenthesis, p⟩ :: more) :
    operand r (⟨.name name, place⟩ :: ⟨.openParenthesis, opened⟩ :: tokens) =
      (arguments r tokens).map fun read => (.call name read.1 place, read.2) := by
  match tokens with
  | [] => rfl
  | ⟨sign, p⟩ :: more => cases sign <;> first | rfl | exact (h p more rfl).elim

theorem operand_group (opened : Position) {closed : Position}
    (h : Attains P (r.read 0 tokens) (.ok (e, ⟨.closeParenthesis, closed⟩ :: rest))) :
    Attains P (operand r (⟨.openParenthesis, opened⟩ :: tokens)) (.ok (e, rest)) :=
  h.bind fun read : Expr × List (Placed Sign) =>
    (closeParenthesis read.2).map fun rest => (read.1, rest)

theorem operand_front (op : Front) (place : Position) {phrase : Phrase}
    (h : Attains P (r.read op.power tokens) (.ok (phrase.tree, rest))) :
    Attains P (operand r (⟨op.sign, place⟩ :: tokens))
      (.ok ((Phrase.front op place phrase).tree, rest)) := by
  cases op with
  | plus => exact h
  | minus =>
    exact h.map fun read : Expr × List (Placed Sign) => (unary .negative read.1 place, read.2)
  | not => exact h.map fun read : Expr × List (Placed Sign) => (unary .not read.1 place, read.2)

/-- What stands behind an operand extends it. -/
theorem operations_attains (power : Nat) (h : Attains P (operand r tokens) (.ok (e, rest))) :
    Attains P (operations r power tokens) (extend r power e rest) :=
  h.bind fun read : Expr × List (Placed Sign) => extend r power read.1 read.2

theorem arguments_eq : arguments r tokens = (r.read 0 tokens).bind fun read =>
    match read.2 with
    | ⟨.comma, _⟩ :: more => (arguments r more).map fun others => (read.1 :: others.1, others.2)
    | rest => (closeParenthesis rest).map fun rest => ([read.1], rest) := by
  conv => lhs; unfold arguments
  split
  · next hread => rw [hread]; rfl
  · next rest hread =>
    conv => rhs; rw [hread]
    cases rest with
    | nil => rfl
    | cons token more =>
      obtain ⟨sign, place⟩ := token
      cases sign <;> rfl

theorem arguments_last {closed : Position}
    (h : Attains P (r.read 0 tokens) (.ok (e, ⟨.closeParenthesis, closed⟩ :: rest))) :
    Attains P (arguments r tokens) (.ok ([e], rest)) := by
  rw [arguments_eq]
  exact h.bind _

theorem arguments_more {Q : Prop} {comma : Position} {others : List Expr}
    {more : List (Placed Sign)}
    (h : Attains P (r.read 0 tokens) (.ok (e, ⟨.comma, comma⟩ :: more)))
    (hothers : Attains Q (arguments r more) (.ok (others, rest))) :
    Attains (P ∧ Q) (arguments r tokens) (.ok (e :: others, rest)) := by
  rw [arguments_eq]
  exact (h.bind _).trans (hothers.map fun read => (e :: read.1, read.2))

end Steps

end Expr

namespace Phrase

open Formulary.Expr

/-- Whether tokens can stand behind a phrase: they do not make a call of it, and none of the
operands at its end takes the operation that they start with. -/
structure EndsBefore (phrase : Phrase) (rest : List (Placed Sign)) : Prop where
  noCall : callAhead rest = false
  released : ∀ k, leftPowerAhead? rest = some k → phrase.releases k = true

/-- The tokens of a phrase are read as its expression, which what stands behind then extends, if
there are levels enough, and reading fails for want of levels if not. -/
def Readable (phrase : Phrase) : Prop :=
  ∀ (depth : Nat) {power : Nat} {rest : List (Placed Sign)}, phrase.clear power = true →
    phrase.EndsBefore rest →
    Attains (phrase.nesting ≤ depth + 1)
      (operations (reader depth) power (phrase.tokens ++ rest))
      (extend (reader depth) power phrase.tree rest)

/-- Tokens that no phrase before them goes on with. -/
structure Closing (rest : List (Placed Sign)) : Prop where
  noCall : callAhead rest = false
  power : leftPowerAhead? rest = none

theorem closing_nil : Closing [] := ⟨rfl, rfl⟩

theorem closing_parenthesis (p : Position) (rest : List (Placed Sign)) :
    Closing (⟨.closeParenthesis, p⟩ :: rest) := ⟨rfl, rfl⟩

theorem closing_bracket (p : Position) (rest : List (Placed Sign)) :
    Closing (⟨.closeBracket, p⟩ :: rest) := ⟨rfl, rfl⟩

theorem closing_comma (p : Position) (rest : List (Placed Sign)) :
    Closing (⟨.comma, p⟩ :: rest) := ⟨rfl, rfl⟩

section

variable {power : Nat} {rest : List (Placed Sign)} {phrase l r : Phrase}

theorem endsBefore_of_power {k : Nat} (hcall : callAhead rest = false)
    (hpower : leftPowerAhead? rest = some k) (h : phrase.releases k = true) :
    phrase.EndsBefore rest := by
  refine ⟨hcall, fun j hj => ?_⟩
  rw [hpower] at hj
  cases hj
  exact h

/-- A phrase is read to its end by the reader of a power that what stands behind does not reach. -/
theorem Readable.read (h : phrase.Readable) (depth : Nat) (hclear : phrase.clear power = true)
    (hcall : callAhead rest = false)
    (hstop : ∀ k, leftPowerAhead? rest = some k → k < power ∧ phrase.releases k = true) :
    Attains (phrase.nesting ≤ depth) ((reader depth).read power (phrase.tokens ++ rest))
      (.ok (phrase.tree, rest)) := by
  cases depth with
  | zero =>
    -- Without a level, no phrase is read and every phrase is nested too deep.
    have hpos := phrase.nesting_pos
    exact ⟨fun hle => by omega, fun _ => ⟨_, rfl⟩⟩
  | succ depth =>
    have hread := h depth hclear ⟨hcall, fun k hk => (hstop k hk).2⟩
    rwa [extend_of_none (extendOnce_eq_none_iff.mpr fun k hk => (hstop k hk).1)] at hread

/-- In front of tokens that close it, a phrase is read to its end by the reader of any power. -/
theorem Readable.readAll (h : phrase.Readable) (depth : Nat) (hclear : phrase.clear power = true)
    (hclosing : Closing rest) :
    Attains (phrase.nesting ≤ depth) ((reader depth).read power (phrase.tokens ++ rest))
      (.ok (phrase.tree, rest)) := by
  refine h.read depth hclear hclosing.noCall ?_
  intro k hk
  rw [hclosing.power] at hk
  cases hk

theorem readable_constant (v : Value) (p : Position) : (constant v p).Readable :=
  fun _ _ _ _ _ => operations_attains _ (.of_eq (Nat.le_add_left ..) rfl)

theorem readable_reference (name : String) (p : Position) : (reference name p).Readable :=
  fun _ _ _ _ hends =>
    operations_attains _ (.of_eq (Nat.le_add_left ..) (operand_reference name p hends.noCall))

theorem readable_bareCall (name : String) (p o c : Position) : (bareCall name p o c).Readable :=
  fun _ _ _ _ _ => operations_attains _ (.of_eq (Nat.le_add_left ..) rfl)

theorem readable_group {e : Phrase} (o c : Position) (h : e.Readable) :
    (group o e c).Readable := by
  intro depth power rest hclear _
  have hread := h.readAll depth hclear (closing_parenthesis c rest)
  have hgroup := operations_attains power (operand_group o hread)
  simpa [tokens, nesting, tree] using hgroup

theorem readable_front {e : Phrase} (op : Front) (p : Position) (h : e.Readable) :
    (front op p e).Readable := by
  intro depth power rest hclear hends
  have hreleased : ∀ k, leftPowerAhead? rest = some k → k < op.power ∧ e.releases k = true := by
    intro k hk
    simpa [releases] using hends.released k hk
  have hread := h.read depth hclear hends.noCall hreleased
  have hfront := operations_attains power (operand_front op p hread)
  simpa [tokens, nesting] using hfront

/-- An operation with brackets is read by the reader of its left operand. -/
theorem readable_index {e i : Phrase} (o c : Position) (h : e.Readable) (hi : i.Readable) :
    (index e o i c).Readable := by
  intro depth power rest hclear _
  simp only [clear, Bool.and_eq_true, decide_eq_true_eq] at hclear
  obtain ⟨⟨⟨hleft, hpower⟩, hreleases⟩, hindex⟩ := hclear
  have hends : e.EndsBefore (⟨.openBracket, o⟩ :: (i.tokens ++ ⟨.closeBracket, c⟩ :: rest)) :=
    endsBefore_of_power rfl rfl hreleases
  have htarget := h depth hleft hends
  have hread := hi.readAll depth hindex (closing_bracket c rest)
  have hextend := extend_attains (extendOnce_index e.tree o hpower)
    (hread.bind fun read : Expr × List (Placed Sign) =>
      (closeBracket read.2).map fun rest => (Expr.binary .element e.tree read.1 o, rest))
  have hindexed := htarget.trans hextend
  simpa [tokens, nesting, tree, Nat.max_le] using hindexed

theorem readable_test {e : Phrase} (words : Test) (h : e.Readable) : (test e words).Readable := by
  intro depth power rest hclear _
  simp only [clear, Bool.and_eq_true, decide_eq_true_eq] at hclear
  obtain ⟨⟨hleft, hpower⟩, hreleases⟩ := hclear
  have hends : e.EndsBefore (words.tokens ++ rest) :=
    endsBefore_of_power (by cases words <;> rfl) (leftPowerAhead?_test words) hreleases
  have htested := h depth hleft hends
  rw [extend_of_ok (extendOnce_test e.tree words hpower)] at htested
  simpa [tokens, nesting, tree] using htested

/-- An operation between two operands is read by the reader of its left operand. -/
theorem readable_joined {l r : Phrase} (link : Link) (hl : l.Readable) (hr : r.Readable) :
    (joined l link r).Readable := by
  intro depth power rest hclear hends
  simp only [clear, Bool.and_eq_true, decide_eq_true_eq] at hclear
  obtain ⟨⟨⟨hleft, hpower⟩, hreleases⟩, hright⟩ := hclear
  have hreleased : ∀ k, leftPowerAhead? rest = some k →
      k < link.operation.rightPower ∧ r.releases k = true := by
    intro k hk
    simpa [releases] using hends.released k hk
  have hlink : l.EndsBefore (link.tokens ++ (r.tokens ++ rest)) :=
    endsBefore_of_power (by cases link <;> rfl) (leftPowerAhead?_link link) hreleases
  have hfirst := hl depth hleft hlink
  have hread := hr.read depth hright hends.noCall hreleased
  have hextend := extend_attains (extendOnce_link l.tree link hpower)
    (hread.map fun read : Expr × List (Placed Sign) =>
      (Expr.binary link.operation l.tree read.1 link.place, read.2))
  have hjoined := hfirst.trans hextend
  simpa [tokens, nesting, tree, Nat.max_le] using hjoined

/-- The first token of a phrase can be the first of an operand. -/
theorem exists_tokens_eq_cons (phrase : Phrase) :
    ∃ token more, phrase.tokens = token :: more ∧ startsOperand token.content = true := by
  cases phrase with
  | constant | reference | bareCall | call | group => exact ⟨_, _, rfl, rfl⟩
  | front op => exact ⟨_, _, rfl, by cases op <;> rfl⟩
  | index e | test e | joined e =>
    obtain ⟨token, more, htokens, hstarts⟩ := e.exists_tokens_eq_cons
    exact ⟨token, _, by rw [tokens, htokens, List.cons_append], hstarts⟩

end

end Phrase

namespace Phrases

open Formulary.Expr

/-- The tokens of arguments with a closing parenthesis behind them are read as their expressions, if
there are levels enough, and reading fails for want of levels if not. -/
def Readable (args : Phrases) : Prop :=
  ∀ (depth : Nat) (closed : Position) (rest : List (Placed Sign)), args.clear = true →
    Attains (args.nesting ≤ depth)
      (arguments (reader depth) (args.tokens ++ ⟨.closeParenthesis, closed⟩ :: rest))
      (.ok (args.trees, rest))

theorem readable_last {e : Phrase} (h : e.Readable) : (last e).Readable := by
  intro depth closed rest hclear
  exact arguments_last (h.readAll depth hclear (Phrase.closing_parenthesis closed rest))

theorem readable_more {e : Phrase} {others : Phrases} (comma : Position) (h : e.Readable)
    (hothers : others.Readable) : (more e comma others).Readable := by
  intro depth closed rest hclear
  simp only [clear, Bool.and_eq_true] at hclear
  have hfirst := h.readAll depth hclear.1
    (Phrase.closing_comma comma (others.tokens ++ ⟨.closeParenthesis, closed⟩ :: rest))
  have hmore := arguments_more hfirst (hothers depth closed rest hclear.2)
  simpa [tokens, nesting, trees, Nat.max_le] using hmore

theorem tokens_ne_close (rest : List (Placed Sign)) (p : Position) (more : List (Placed Sign)) :
    ∀ args : Phrases, args.tokens ++ rest ≠ ⟨.closeParenthesis, p⟩ :: more
  | .last e, h | .more e .., h => by
    obtain ⟨token, _, htokens, hstarts⟩ := e.exists_tokens_eq_cons
    simp only [tokens, htokens, List.cons_append, List.cons.injEq] at h
    rw [h.1] at hstarts
    cases hstarts

end Phrases

theorem Phrase.readable_call {args : Phrases} (name : String) (p o c : Position)
    (h : args.Readable) : (call name p o args c).Readable := by
  intro depth power rest hclear _
  have hread := (h depth c rest hclear).map
    fun read : List Expr × List (Placed Sign) => (Expr.call name read.1 p, read.2)
  rw [← Expr.operand_call name p o fun _ _ => args.tokens_ne_close _ _ _] at hread
  have hcall := Expr.operations_attains power hread
  simpa [tokens, nesting, tree] using hcall

mutual

/-- The tokens of every clear phrase are read as its expression. -/
theorem Phrase.readable : ∀ phrase : Phrase, phrase.Readable
  | .constant v p => Phrase.readable_constant v p
  | .reference name p => Phrase.readable_reference name p
  | .bareCall name p o c => Phrase.readable_bareCall name p o c
  | .call name p o args c => Phrase.readable_call name p o c args.readable
  | .group o e c => Phrase.readable_group o c e.readable
  | .front op p e => Phrase.readable_front op p e.readable
  | .index e o i c => Phrase.readable_index o c e.readable i.readable
  | .test e words => Phrase.readable_test words e.readable
  | .joined l link r => Phrase.readable_joined link l.readable r.readable

theorem Phrases.readable : ∀ args : Phrases, args.Readable
  | .last e => Phrases.readable_last e.readable
  | .more e comma others => Phrases.readable_more comma e.readable others.readable

end

namespace Expr

/-- All tokens together are read as the expression of a clear phrase, levels permitting. -/
theorem ofSigns_attains {phrase : Phrase} (h : phrase.clear 0 = true) :
    Attains (phrase.nesting ≤ levels) (ofSigns phrase.tokens) (.ok (some phrase.tree)) := by
  obtain ⟨token, more, htokens, -⟩ := phrase.exists_tokens_eq_cons
  have hnonempty : phrase.tokens.isEmpty = false := by rw [htokens]; rfl
  have hread := Phrase.Readable.readAll phrase.readable levels h Phrase.closing_nil
  rw [List.append_nil] at hread
  refine ⟨fun hle => ?_, fun hn => ?_⟩
  · simp [ofSigns, hnonempty, hread.reached hle]
  · obtain ⟨left, hleft⟩ := hread.exhausted hn
    exact ⟨left, by simp [ofSigns, hnonempty, hleft]⟩

/-- **Precedence and associativity.** A phrase is written with parentheses where the binding powers
ask for them, besides those that it has; where they ask for none it is written as it is. Its tokens
are then read as its postorder, if all its readers find a level, and else refused as nested too
deep. -/
theorem program_ofSigns_grouped (place : Position) (phrase : Phrase) :
    let written := phrase.grouped place 0
    (phrase.clear 0 = true → written = phrase) ∧
    ((ofSigns written.tokens).map fun tree => tree.elim [] program).mapError (·.fault) =
      if written.nesting ≤ levels then .ok phrase.postorder
      else .error (.nestingTooDeep levels) := by
  intro written
  refine ⟨phrase.grouped_of_clear place 0, ?_⟩
  have hread := ofSigns_attains (phrase.clear_grouped place 0)
  split
  · next hle =>
    have hprogram : written.tree.program = phrase.postorder := by
      rw [phrase.tree_grouped place 0, phrase.program_tree]
    rw [hread.reached hle, ← hprogram]
    rfl
  · next hn =>
    obtain ⟨left, hleft⟩ := hread.exhausted hn
    rw [hleft]
    rfl

/-- `a + b * c` needs no parentheses and `(a + b) * c` needs those. -/
theorem program_ofSigns_grouped_sum_and_product :
    let a : Phrase := .reference "a" ⟨1, 1⟩
    let b : Phrase := .reference "b" ⟨1, 5⟩
    let c : Phrase := .reference "c" ⟨1, 9⟩
    let plus : Link := .operator .add ⟨1, 3⟩
    let times : Link := .operator .mul ⟨1, 7⟩
    let bare : Phrase := .joined a plus (.joined b times c)
    let product : Phrase := .joined (.joined a plus b) times c
    let place : Position := ⟨0, 0⟩
    bare.clear 0 = true ∧ bare.grouped place 0 = bare ∧
      product.grouped place 0 = .joined (.group place (.joined a plus b) place) times c ∧
      ((ofSigns (product.grouped place 0).tokens).map fun tree => tree.elim [] program).mapError
        (·.fault) = .ok product.postorder := by
  intro a b c plus times bare product place
  have hclear : bare.clear 0 = true := by decide
  have hnesting : (product.grouped place 0).nesting ≤ levels := by decide
  have hread := (program_ofSigns_grouped place product).2
  rw [if_pos hnesting] at hread
  exact ⟨hclear, (program_ofSigns_grouped place bare).1 hclear, rfl, hread⟩

end Expr

end Formulary
