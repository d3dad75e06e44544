import Formulary.Proofs.Expr.Derivation
import Formulary.Proofs.Expr.Effort

/-!
# Assembling and compiling are the same

The assembler stands at some tokens, with some instructions written and the counter of levels
somewhere. From there it gets stuck exactly where reading the tokens to a tree gets stuck, with the
same fault. If there is a tree, the assembler ends behind the tokens of the tree, with the program
of the tree behind what was written, and with the counter back in its place. A reader with some room
left goes together with a counter that is so far from the last level.

Operators behind an operand are where the two differ. The tree of the operand becomes a part of
another tree, while its program stays where it is; so the instructions of a tree are always told
from where its first operand begins.
-/

namespace Formulary

open Formulary.Expr

namespace Expr

mutual

/-- Instructions in front of others are those of the program. -/
theorem compile_eq_append (rest : Program) : ∀ e : Expr, e.compile rest = e.program ++ rest
  | constant .. | reference .. => rfl
  | call name args p => by
    rw [program, compile, compile, compileAll_eq_append, compileAll_eq_append [_, _],
      List.append_assoc]
    rfl
  | unary op operand p => by
    rw [program, compile, compile, compile_eq_append, compile_eq_append [_], List.append_assoc]
    rfl
  | binary op left right p => by
    rw [program, compile, compile, compile_eq_append, compile_eq_append _ left,
      compile_eq_append _ right, compile_eq_append [_] right, List.append_assoc, List.append_assoc]
    rfl

theorem compileAll_eq_append (rest : Program) (es : List Expr) :
    compileAll rest es = compileAll [] es ++ rest := by
  cases es with
  | nil => rfl
  | cons e others =>
    rw [compileAll, compileAll, compile_eq_append, compile_eq_append _ e, compileAll_eq_append,
      List.append_assoc]

end

theorem program_unary (op : UnaryOperation) (operand : Expr) (p : Position) :
    (unary op operand p).program = operand.program ++ [⟨.unary op, p⟩] := by
  rw [program, compile, compile_eq_append]

theorem program_binary (op : BinaryOperation) (left right : Expr) (p : Position) :
    (binary op left right p).program = left.program ++ right.program ++ [⟨.binary op, p⟩] := by
  rw [program, compile, compile_eq_append, compile_eq_append, List.append_assoc]

theorem program_call (name : String) (args : List Expr) (p : Position) :
    (call name args p).program = compileAll [] args ++
      [⟨.constant (.integer (Int32.ofNat args.length)), p⟩, ⟨.call name, p⟩] :=
  compileAll_eq_append ..

theorem compileAll_cons (e : Expr) (others : List Expr) :
    compileAll [] (e :: others) = e.program ++ compileAll [] others :=
  compile_eq_append ..

end Expr

namespace Assembler

structure Stands (a : Assembler) (tokens : List (Placed Sign)) (written : Program) (depth : Nat) :
    Prop where
  ahead : a.ahead = tokens
  output : a.output = written
  depth : a.depth = depth

/-- A pass does what reading does: it gets stuck with the same fault, or it has the answer that goes
with what is read and leaves its program behind what was written. -/
inductive Writes {α β : Type} {bound : Nat} (written : Program) (depth : Nat) (answer : β → α)
    (program : β → Program) (pass : Pass α bound) : Reading (Placed Sign) β → Prop
  | stuck {s : Stuck (Placed Sign)} (h : pass.answer = .error s) :
    Writes written depth answer program pass (.error s)
  | wrote {x : β} {rest : List (Placed Sign)} (h : pass.answer = .ok (answer x))
    (hafter : pass.after.Stands rest (written ++ program x) depth) :
    Writes written depth answer program pass (.ok (x, rest))

abbrev WritesExpr {bound : Nat} (written : Program) (depth : Nat) (pass : Pass Unit bound)
    (reading : Reading (Placed Sign) Expr) : Prop :=
  Writes written depth (fun _ => ()) Expr.program pass reading

variable {α β γ δ : Type} {bound inner depth : Nat} {written : Program} {a b : Assembler}
  {token : Placed Sign} {tokens rest : List (Placed Sign)}

namespace Stands

theorem tokens_eq (h : a.Stands tokens written depth) (hahead : a.ahead = rest) : tokens = rest :=
  h.ahead.symm.trans hahead

theorem skip (h : a.Stands tokens written depth) (count : Nat) :
    (a.skip count).Stands (tokens.drop count) written depth := by
  refine ⟨?_, h.output, h.depth⟩
  rw [← h.ahead]
  exact List.drop_drop.symm

theorem emit (h : a.Stands tokens written depth) (instructions : Program) :
    (a.emit instructions).Stands tokens (written ++ instructions) depth :=
  ⟨h.ahead, congrArg (· ++ instructions) h.output, h.depth⟩

theorem congr {written' : Program} (h : a.Stands tokens written depth) (heq : written = written') :
    a.Stands tokens written' depth :=
  heq ▸ h

theorem enter (h : a.Stands tokens written depth) :
    a.begun.enter.Stands tokens written (depth + 1) :=
  ⟨h.ahead, h.output, congrArg (· + 1) h.depth⟩

theorem leave (h : a.Stands tokens written (depth + 1)) : a.leave.Stands tokens written depth :=
  ⟨h.ahead, h.output, congrArg (· - 1) h.depth⟩

end Stands

namespace Writes

variable {answer : β → α} {program : β → Program} {pass : Pass α inner}
  {reading : Reading (Placed Sign) β}

theorem within (h : Writes written depth answer program pass reading) (hle : inner ≤ bound) :
    Writes written depth answer program (pass.within hle) reading := by
  cases h with
  | stuck h => exact .stuck h
  | wrote h hafter => exact .wrote h hafter

theorem leaving (h : Writes written (depth + 1) answer program pass reading) :
    Writes written depth answer program pass.leaving reading := by
  cases h with
  | stuck h => exact .stuck h
  | wrote h hafter => exact .wrote h hafter.leave

/-- What goes on behind a pass goes on behind what was read. -/
theorem bind {written' : Program} {answer' : δ → γ} {program' : δ → Program}
    {next : α → (a : Assembler) → a.left < inner → Pass γ bound}
    {f : β × List (Placed Sign) → Reading (Placed Sign) δ}
    (h : Writes written depth answer program pass reading)
    (hnext : ∀ x b rest (hb : b.left < inner), b.Stands rest (written ++ program x) depth →
      Writes written' depth answer' program' (next (answer x) b hb) (f (x, rest))) :
    Writes written' depth answer' program' (pass.bind next) (reading.bind f) := by
  cases h with
  | stuck hs =>
    refine Pass.bind_cases (motive := fun pass => Writes _ _ _ _ pass _) _ _ ?_ ?_
    · intro s hs'
      rw [hs] at hs'
      cases hs'
      exact .stuck rfl
    · intro y hy
      rw [hs] at hy
      cases hy
  | @wrote x rest hx hafter =>
    refine Pass.bind_cases (motive := fun pass => Writes _ _ _ _ pass _) _ _ ?_ ?_
    · intro s hs
      rw [hx] at hs
      cases hs
    · intro y hy
      have heq := hy
      rw [hx] at heq
      cases heq
      exact hnext x _ rest _ hafter

/-- A pass ends in what makes a larger part of the tree of what was read. -/
theorem done {written' : Program} {answer' : δ → γ} {program' : δ → Program}
    {value : α → γ} {finish : α → Assembler → Assembler}
    (h : Writes written depth answer program pass reading) (g : β → δ)
    (hfewer : ∀ x (b : Assembler), b.left < inner → (finish x b).left < bound)
    (hanswer : ∀ x, value (answer x) = answer' (g x))
    (hfinish : ∀ x b rest, b.Stands rest (written ++ program x) depth →
      (finish (answer x) b).Stands rest (written' ++ program' (g x)) depth) :
    Writes written' depth answer' program'
      (pass.bind fun x b hb => .done (value x) (finish x b) (hfewer x b hb))
      (reading.map fun read => (g read.1, read.2)) := by
  have hmap : (reading.map fun read => (g read.1, read.2)) =
      reading.bind fun read => .ok (g read.1, read.2) := by cases reading <;> rfl
  rw [hmap]
  refine h.bind fun x b rest hb hstands => .wrote ?_ (hfinish x b rest hstands)
  exact congrArg Except.ok (hanswer x)

/-- A tree is made of what was read by instructions behind its program. -/
theorem emit {written' : Program} {instructions : α → Program}
    (h : Writes written depth answer program pass reading) (g : β → Expr)
    (hfewer : ∀ x (b : Assembler), b.left < inner → (b.emit (instructions x)).left < bound)
    (hprogram : ∀ x,
      written ++ program x ++ instructions (answer x) = written' ++ (g x).program) :
    WritesExpr written' depth
      (pass.bind fun x b hb => .done () (b.emit (instructions x)) (hfewer x b hb))
      (reading.map fun read => (g read.1, read.2)) :=
  h.done g hfewer (fun _ => rfl) fun x _ _ hb => (hb.emit _).congr (hprogram x)

/-- What is read becomes a part of a larger tree. -/
theorem map {written' : Program} {answer' : δ → α} {program' : δ → Program}
    (h : Writes written depth answer program pass reading) (g : β → δ)
    (hanswer : ∀ x, answer x = answer' (g x))
    (hprogram : ∀ x, written ++ program x = written' ++ program' (g x)) :
    Writes written' depth answer' program' pass
      (reading.map fun read => (g read.1, read.2)) := by
  cases h with
  | stuck h => exact .stuck h
  | @wrote x rest h hafter =>
    rw [hanswer] at h
    rw [hprogram] at hafter
    exact .wrote h hafter

end Writes

/-- A bracket is closed as it is read, and nothing is written for it. -/
theorem close_writes
    {take : List (Placed Sign) → Except (Stuck (Placed Sign)) (List (Placed Sign))}
    (shrinks : ∀ {tokens rest}, take tokens = .ok rest → rest.length < tokens.length)
    (first : ∀ {tokens rest}, take tokens = .ok rest → tokens.drop 1 = rest)
    (h : a.Stands tokens written depth) :
    Writes written depth id (fun _ => []) (a.close take shrinks)
      ((take tokens).map fun rest => ((), rest)) := by
  unfold close
  split
  · next s hs =>
    rw [h.ahead] at hs
    rw [hs]
    exact .stuck rfl
  · next rest hrest =>
    rw [h.ahead] at hrest
    rw [hrest]
    obtain rfl := first hrest
    exact .wrote rfl ((h.skip 1).congr (List.append_nil _).symm)

/-- What goes with the rest of the tokens can be changed afterwards. -/
theorem map_rest {ε τ β γ : Type} (x : Except ε (List τ)) (y : β) (g : β → γ) :
    (x.map fun rest => (g y, rest)) =
      (x.map fun rest => (y, rest)).map fun read => (g read.1, read.2) := by
  cases x <;> rfl

theorem drop_closeParenthesis (h : closeParenthesis tokens = .ok rest) : tokens.drop 1 = rest := by
  obtain ⟨closed, rfl⟩ := of_closeParenthesis h
  rfl

theorem drop_closeBracket (h : closeBracket tokens = .ok rest) : tokens.drop 1 = rest := by
  obtain ⟨closed, rfl⟩ := of_closeBracket h
  rfl

/-- What reading makes of the word at the end of a test for no value. -/
def nullWord (op : UnaryOperation) : List (Placed Sign) → Reading (Placed Sign) UnaryOperation
  | ⟨.constant .null, _⟩ :: rest => .ok (op, rest)
  | rest => .error ⟨Expr.nullTest.missing rest, rest⟩

theorem nullTest_value_writes {op : UnaryOperation} (hbound : a.left ≤ bound)
    (h : a.Stands tokens written depth) :
    Writes written depth id (fun _ => []) (nullTest.value a op hbound) (nullWord op tokens) := by
  unfold nullTest.value
  split
  · next hahead =>
    obtain rfl := h.tokens_eq hahead
    exact .wrote rfl ((h.skip 1).congr (List.append_nil _).symm)
  · next hahead =>
    obtain rfl := h.tokens_eq hahead
    exact .stuck rfl
  · next hother hahead =>
    obtain rfl := h.tokens_eq hahead
    unfold nullWord
    split
    · next heq =>
      cases heq
      exact (hother _ rfl).elim
    · exact .stuck rfl

theorem nullTest_not (p : Position) (rest : List (Placed Sign)) :
    Expr.nullTest (⟨.not, p⟩ :: rest) = nullWord .isNotNull rest := by
  unfold Expr.nullTest nullWord
  split
  · next heq =>
    cases heq
    rfl
  · next heq => cases heq
  · next heq =>
    cases heq
    split
    · next hother => exact (hother _ _ rfl).elim
    · rfl
  · next hother => exact (hother _ _ rfl).elim

theorem nullTest_of_ne (h : ∀ p rest, tokens ≠ ⟨.not, p⟩ :: rest) :
    Expr.nullTest tokens = nullWord .isNull tokens := by
  unfold Expr.nullTest nullWord
  split
  · exact (h _ _ rfl).elim
  · rfl
  · exact (h _ _ rfl).elim
  · next hnull _ =>
    split
    · exact (hnull _ _ rfl).elim
    · rfl

theorem nullTest_writes (h : a.Stands tokens written depth) :
    Writes written depth id (fun _ => []) a.nullTest (Expr.nullTest tokens) := by
  unfold nullTest
  split
  · next hahead =>
    obtain rfl := h.tokens_eq hahead
    rw [nullTest_not]
    exact nullTest_value_writes _ (h.skip 1)
  · next hother =>
    rw [h.ahead] at hother
    rw [nullTest_of_ne hother]
    exact nullTest_value_writes _ h

/-- A reader and a level where every expression is assembled as it is read. -/
def Follows (r : Reader) (depth : Nat) : Prop :=
  ∀ {a : Assembler} {tokens : List (Placed Sign)} {written : Program} (power : Nat),
    a.Stands tokens written depth →
      WritesExpr written depth (a.expression power) (r.read power tokens)

variable {r : Reader}

/-- Further arguments are assembled and counted as they are read. -/
theorem further_writes (hr : Follows r depth) (count : Nat) (h : a.Stands tokens written depth) :
    Writes written depth (fun es => count + es.length) (compileAll []) (further count a)
      (Expr.arguments r tokens) := by
  obtain ⟨n, hn⟩ : ∃ n, a.left = n := ⟨_, rfl⟩
  induction n using Nat.strongRecOn generalizing a count tokens written with
  | _ n ih =>
    rw [further, arguments_eq]
    refine (hr 0 h).bind fun x b rest hb hstands => ?_
    split
    · next p more hcomma =>
      obtain rfl := hstands.tokens_eq hcomma
      have hskip : (b.skip 1).left < b.left := left_skip_lt hcomma
      have hmore := ih _ (by omega) (count + 1) (hstands.skip 1) rfl
      refine (hmore.map (fun es => x :: es) ?_ ?_).within _
      · intro es
        rw [List.length_cons]
        omega
      · intro es
        rw [compileAll_cons, List.append_assoc]
    · next hother =>
      rw [hstands.ahead] at hother
      dsimp only
      split
      · exact (hother _ _ rfl).elim
      · rw [map_rest _ () fun _ => [x]]
        refine (close_writes closeParenthesis_lt drop_closeParenthesis hstands).done (fun _ => [x])
          _ ?_ ?_
        · exact fun _ => rfl
        · exact fun _ c rest hc => hc.congr (List.append_nil _)

/-- The arguments of a call are those that reading makes a call of. -/
theorem arguments_writes (hr : Follows r depth) (name : String) (p o : Position)
    (h : a.Stands tokens written depth) :
    ∃ reading, Expr.operand r (⟨.name name, p⟩ :: ⟨.openParenthesis, o⟩ :: tokens) =
        reading.map (fun read => (.call name read.1 p, read.2)) ∧
      Writes written depth List.length (compileAll []) (arguments a) reading := by
  rw [arguments]
  split
  · next q rest hahead =>
    obtain rfl := h.tokens_eq hahead
    refine ⟨.ok ([], rest), rfl, .wrote rfl ?_⟩
    exact (h.skip 1).congr (List.append_nil _).symm
  · next hother =>
    rw [h.ahead] at hother
    refine ⟨_, operand_call name p o hother, ?_⟩
    have hfurther := further_writes hr 0 h
    simpa only [Nat.zero_add] using hfurther

/-- An operand is assembled as it is read, if the expressions inside it are. -/
theorem operand_writes (hr : Follows r depth) (h : a.Stands tokens written depth) :
    WritesExpr written depth (operand a) (Expr.operand r tokens) := by
  rw [operand]
  split
  case h_1 hahead =>
    obtain rfl := h.tokens_eq hahead
    exact .stuck rfl
  case h_2 v p rest hahead =>
    obtain rfl := h.tokens_eq hahead
    exact .wrote rfl ((h.skip 1).emit _)
  case h_3 name p o rest hahead =>
    obtain rfl := h.tokens_eq hahead
    have hskip : (a.skip 2).Stands rest written depth := h.skip 2
    obtain ⟨reading, hreading, hwrites⟩ := arguments_writes hr name p o hskip
    rw [hreading]
    refine hwrites.emit (fun es => Expr.call name es p) _ ?_
    intro es
    rw [program_call, List.append_assoc]
  case h_4 name p rest hname hahead =>
    obtain rfl := h.tokens_eq hahead
    have hcall : callAhead rest = false := by
      unfold callAhead
      split
      · exact (hname _ _ rfl).elim
      · rfl
    rw [operand_reference name p hcall]
    exact .wrote rfl ((h.skip 1).emit _)
  case h_5 o rest hahead =>
    obtain rfl := h.tokens_eq hahead
    refine ((hr 0 (h.skip 1)).bind fun e b rest hb hstands => ?_)
    rw [map_rest _ () fun _ => e]
    have hclose := close_writes closeParenthesis_lt drop_closeParenthesis hstands
    refine (hclose.map (fun _ => e) ?_ ?_).within _
    · exact fun _ => rfl
    · exact fun _ => List.append_nil _
  case h_6 p rest hahead =>
    obtain rfl := h.tokens_eq hahead
    refine (hr unaryPower (h.skip 1)).emit (fun e => Expr.unary .negative e p) _ ?_
    intro e
    rw [program_unary, List.append_assoc]
  case h_7 p rest hahead =>
    obtain rfl := h.tokens_eq hahead
    exact (hr unaryPower (h.skip 1)).within _
  case h_8 p rest hahead =>
    obtain rfl := h.tokens_eq hahead
    refine (hr notPower (h.skip 1)).emit (fun e => Expr.unary .not e p) _ ?_
    intro e
    rw [program_unary, List.append_assoc]
  case h_9 p rest hahead =>
    obtain rfl := h.tokens_eq hahead
    exact .stuck rfl
  case h_10 sign p rest hconstant hcalled hname hopen hsub hadd hnot hcomma hahead =>
    obtain rfl := h.tokens_eq hahead
    rw [Expr.operand]
    · exact .stuck rfl
    case x_2 => exact fun name _ _ _ _ => hname name
    all_goals assumption

theorem drop_words {op : BinaryOperation} (h : binaryAhead? tokens = some (op, rest)) :
    tokens.drop op.words = rest := by
  unfold binaryAhead? at h
  split at h <;> cases h <;> rfl

theorem extend_of_some {power : Nat} {left : Expr} {reading : Reading (Placed Sign) Expr}
    (h : Expr.extendOnce r power left tokens = some reading) : Expr.extend r power left tokens =
      reading.bind fun read => Expr.extend r power read.1 read.2 := by
  cases reading with
  | error s => exact extend_of_error h
  | ok read => exact extend_of_ok h

/-- An expression is extended where its tree is, and its program goes on. -/
theorem extendOnce_writes (hr : Follows r depth) (power : Nat) (left : Expr)
    (h : a.Stands tokens (written ++ left.program) depth) :
    Option.Rel (fun pass reading => WritesExpr written depth pass reading) (extendOnce power a)
      (Expr.extendOnce r power left tokens) := by
  rw [extendOnce]
  split
  · next hahead =>
    obtain rfl := h.tokens_eq hahead
    exact .none
  · next p rest hahead =>
    obtain rfl := h.tokens_eq hahead
    rw [Expr.extendOnce]
    by_cases hpower : BinaryOperation.leftPower .element < power
    · rw [if_pos hpower, if_pos hpower]
      exact .none
    rw [if_neg hpower, if_neg hpower]
    refine .some ((hr _ (h.skip 1)).bind fun i b rest hb hstands => ?_)
    rw [map_rest _ () fun _ => Expr.binary .element left i p]
    have hclose := close_writes closeBracket_lt drop_closeBracket hstands
    refine hclose.emit (fun _ => Expr.binary .element left i p) _ ?_
    intro _
    simp only [program_binary, List.append_nil, List.append_assoc]
  · next p rest hahead =>
    obtain rfl := h.tokens_eq hahead
    rw [Expr.extendOnce]
    by_cases hpower : testPower < power
    · rw [if_pos hpower, if_pos hpower]
      exact .none
    rw [if_neg hpower, if_neg hpower]
    refine .some ((nullTest_writes (h.skip 1)).emit (fun op => Expr.unary op left p) _ ?_)
    intro op
    rw [program_unary, List.append_nil, List.append_assoc]
    rfl
  · next sign p rest hbracket his hahead =>
    obtain rfl := h.tokens_eq hahead
    rw [Expr.extendOnce]
    · cases hop : binaryAhead? (⟨sign, p⟩ :: rest) with
      | none => exact .none
      | some found =>
        obtain ⟨op, more⟩ := found
        dsimp only
        by_cases hpower : op.leftPower < power
        · rw [if_pos hpower, if_pos hpower]
          exact .none
        rw [if_neg hpower, if_neg hpower]
        have hskip : (a.skip op.words).Stands more (written ++ left.program) depth := by
          rw [← drop_words hop]
          exact h.skip op.words
        refine .some ((hr _ hskip).emit (fun right => Expr.binary op left right p) _ ?_)
        intro right
        simp only [program_binary, List.append_assoc]
    · exact hbracket
    · exact his

/-- Operations behind an expression are assembled as they are read, if their right operands are. -/
theorem extend_writes (hr : Follows r depth) (power : Nat) (left : Expr)
    (h : a.Stands tokens (written ++ left.program) depth) :
    WritesExpr written depth (extend power a) (Expr.extend r power left tokens) := by
  obtain ⟨n, hn⟩ : ∃ n, a.left = n := ⟨_, rfl⟩
  induction n using Nat.strongRecOn generalizing a left tokens with
  | _ n ih =>
    have honce := extendOnce_writes hr power left h
    rw [extend]
    split
    · next hnone =>
      rw [hnone] at honce
      cases hread : Expr.extendOnce r power left tokens with
      | none =>
        rw [extend_of_none hread]
        exact .wrote rfl h
      | some reading =>
        rw [hread] at honce
        cases honce
    · next pass hpass =>
      rw [hpass] at honce
      cases hread : Expr.extendOnce r power left tokens with
      | none =>
        rw [hread] at honce
        cases honce
      | some reading =>
        rw [hread] at honce
        cases honce with
        | some hwrites =>
          rw [extend_of_some hread]
          exact hwrites.bind fun e b rest hb hstands =>
            (ih _ (hn ▸ hb) e hstands rfl).within _

/-- The reader with some room left goes with a counter that is so far from the last level. -/
theorem expression_follows (room : Nat) :
    ∀ {depth : Nat}, depth + room = levels → Follows (reader room) depth := by
  induction room with
  | zero =>
    intro depth hdepth a tokens written power h
    have hdeep : levels ≤ a.depth := by rw [h.depth, ← hdepth]; exact Nat.le_refl _
    rw [expression, if_pos hdeep, h.ahead]
    exact .stuck rfl
  | succ room ih =>
    intro depth hdepth a tokens written power h
    have hroom : ¬ levels ≤ a.depth := by
      rw [h.depth]
      omega
    have hinner : Follows (reader room) (depth + 1) := ih (by omega)
    rw [expression, if_neg hroom]
    exact ((operand_writes hinner h.enter).bind fun e b rest hb hstands =>
      (extend_writes hinner power e hstands).within _).leaving

theorem ofTokens_stands (tokens : List (Placed Sign)) : (ofTokens tokens).Stands tokens [] 0 :=
  ⟨rfl, rfl, rfl⟩

/-- Assembling makes the program that the tree of the tokens is compiled to. -/
theorem assemble_eq (tokens : List (Placed Sign)) :
    assemble tokens = (ofSigns tokens).map fun tree => tree.elim [] Expr.program := by
  have hwrites := expression_follows levels (Nat.zero_add _) 0 (ofTokens_stands tokens)
  unfold assemble ofSigns
  split
  · rfl
  generalize (reader levels).read 0 tokens = reading at hwrites
  cases hwrites with
  | stuck h =>
    simp only [h]
    rfl
  | @wrote e rest h hafter =>
    simp only [h, hafter.ahead, hafter.output]
    cases rest <;> rfl

/-- A clear phrase that finds its levels is complete. -/
theorem answer_of_clear {phrase : Phrase} (hclear : phrase.clear 0 = true)
    (hnesting : phrase.nesting ≤ levels) :
    ((ofTokens phrase.tokens).expression 0).answer = .ok () := by
  have hread := Phrase.Readable.readAll phrase.readable levels hclear Phrase.closing_nil
  rw [List.append_nil] at hread
  have hwrites := expression_follows levels (Nat.zero_add _) 0 (ofTokens_stands phrase.tokens)
  rw [hread.reached hnesting] at hwrites
  cases hwrites with
  | wrote h => exact h

/-- **Linear work.** Assembling tokens begins no more sub-expressions than there are tokens and one
more, and never goes deeper than the levels. Each sub-expression, complete or stuck, leads from any
assembler forward within its tokens, brings the counter of levels back, and writes no more than two
instructions for each token that it moves past, behind those that were there; a complete one moves
past at least one token. The program is the one that the tokens' tree is compiled to. -/
theorem work_linear (tokens : List (Placed Sign)) :
    let run := (ofTokens tokens).expression 0
    run.after.calls ≤ tokens.length + 1 ∧ run.after.deepest ≤ levels ∧
    (∀ (a : Assembler) (power : Nat),
      Advances 1 a (a.expression power).after ∧
      ((a.expression power).answer = .ok () → a.place < (a.expression power).after.place)) ∧
    assemble tokens = (ofSigns tokens).map fun tree => tree.elim [] Expr.program := by
  intro run
  have hrun : Advances 1 (ofTokens tokens) run.after := expression_advances 0 (ofTokens tokens)
  refine ⟨?_, ?_, ?_, assemble_eq tokens⟩
  · have hcalls := hrun.calls
    have hinside := hrun.inside
    simp only [ofTokens] at hcalls hinside
    omega
  · exact Nat.le_trans hrun.deepest (Nat.max_le.mpr ⟨Nat.zero_le _, Nat.le_refl _⟩)
  · intro a power
    have hadvances := expression_advances power a
    exact ⟨hadvances, fun hanswer => hadvances.place_lt ((a.expression power).fewer hanswer)⟩

/-- `F((1), -G(x))`: a call in a call, parentheses and a sign. -/
theorem work_linear_nested_calls :
    let a := ofTokens [⟨.name "F", ⟨1, 1⟩⟩, ⟨.openParenthesis, ⟨1, 2⟩⟩,
      ⟨.openParenthesis, ⟨1, 3⟩⟩, ⟨.constant (.integer 1), ⟨1, 4⟩⟩, ⟨.closeParenthesis, ⟨1, 5⟩⟩,
      ⟨.comma, ⟨1, 6⟩⟩, ⟨.operator .sub, ⟨1, 8⟩⟩, ⟨.name "G", ⟨1, 9⟩⟩,
      ⟨.openParenthesis, ⟨1, 10⟩⟩, ⟨.name "x", ⟨1, 11⟩⟩, ⟨.closeParenthesis, ⟨1, 12⟩⟩,
      ⟨.closeParenthesis, ⟨1, 13⟩⟩]
    (a.expression 0).answer = .ok () ∧ a.place < (a.expression 0).after.place := by
  intro a
  let inner : Phrase :=
    .front .minus ⟨1, 8⟩ (.call "G" ⟨1, 9⟩ ⟨1, 10⟩ (.last (.reference "x" ⟨1, 11⟩)) ⟨1, 12⟩)
  let phrase : Phrase := .call "F" ⟨1, 1⟩ ⟨1, 2⟩
    (.more (.group ⟨1, 3⟩ (.constant (.integer 1) ⟨1, 4⟩) ⟨1, 5⟩) ⟨1, 6⟩ (.last inner)) ⟨1, 13⟩
  have hclear : phrase.clear 0 = true := rfl
  have hnesting : phrase.nesting ≤ levels := by decide
  have hanswer : (a.expression 0).answer = .ok () := answer_of_clear hclear hnesting
  exact ⟨hanswer, ((work_linear a.tokens).2.2.1 a 0).2 hanswer⟩

end Assembler

end Formulary
