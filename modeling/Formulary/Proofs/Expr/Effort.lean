import Formulary.Expr.Assembler

/-!
# What assembling costs

Every stretch of work leads an assembler forward within its tokens, brings the counter of levels
back to where it was, and writes instructions behind those that are there. It pays for what it does
with the tokens that it moves past: one sub-expression and two instructions for each. A
sub-expression is begun behind a token of its own, the outermost one excepted; that one is owed.
-/

namespace Formulary

open Formulary.Expr

namespace Assembler

/-- What a stretch of work makes of an assembler, with a number of sub-expressions that it did not
pay for. -/
structure Advances (owed : Nat) (a b : Assembler) : Prop where
  tokens : b.tokens = a.tokens
  depth : b.depth = a.depth
  deepest : b.deepest ≤ max a.deepest levels
  forward : a.place ≤ b.place
  inside : b.place ≤ max a.place a.tokens.length
  calls : b.calls + a.place ≤ a.calls + b.place + owed
  appends : a.output <+: b.output
  size : b.output.length + 2 * a.place ≤ a.output.length + 2 * b.place

variable {α β : Type} {bound inner n owed more count : Nat} {a b c : Assembler}

namespace Advances

theorem refl (a : Assembler) : Advances 0 a a :=
  ⟨rfl, rfl, Nat.le_max_left .., Nat.le_refl _, Nat.le_max_left .., by omega, List.prefix_rfl,
    Nat.le_refl _⟩

theorem mono (h : Advances owed a b) (hle : owed ≤ more) : Advances more a b :=
  { h with calls := by have := h.calls; omega }

/-- Two stretches of work are one stretch, which owes what both of them owe. -/
theorem trans (h : Advances owed a b) (h' : Advances more b c) : Advances (owed + more) a c := by
  obtain ⟨htokens, hdepth, hdeepest, hforward, hinside, hcalls, happends, hsize⟩ := h
  obtain ⟨htokens', hdepth', hdeepest', hforward', hinside', hcalls', happends', hsize'⟩ := h'
  rw [htokens] at htokens' hinside'
  exact {
    tokens := htokens'
    depth := hdepth'.trans hdepth
    deepest := by omega
    forward := Nat.le_trans hforward hforward'
    inside := by omega
    calls := by omega
    appends := happends.trans happends'
    size := by omega }

/-- Tokens that are moved past pay for as many sub-expressions, and for instructions at the end. -/
theorem behind {instructions : Program} (h : Advances (owed + count) (a.skip count) b)
    (hcount : count ≤ a.left) (hsize : instructions.length ≤ 2 * count) :
    Advances owed a (b.emit instructions) := by
  obtain ⟨htokens, hdepth, hdeepest, hforward, hinside, hcalls, happends, hsize'⟩ := h
  simp only [skip, left] at *
  refine ⟨htokens, hdepth, hdeepest, ?_, ?_, ?_, happends.trans (List.prefix_append ..), ?_⟩
  · simp only [emit]
    omega
  · simp only [emit]
    omega
  · simp only [emit]
    omega
  · simp only [emit, List.length_append]
    omega

theorem emit_nil (a : Assembler) : a.emit [] = a := by
  rw [emit, List.append_nil]

/-- Tokens that are moved past, with nothing to write at the end. -/
theorem behind_silent (h : Advances (owed + count) (a.skip count) b) (hcount : count ≤ a.left) :
    Advances owed a b := by
  rw [← emit_nil b]
  exact h.behind hcount (Nat.zero_le _)

theorem begun (a : Assembler) : Advances 1 a a.begun :=
  { refl a with calls := by simp only [Assembler.begun]; omega }

/-- One level further in and out again. -/
theorem level (hdepth : a.depth < levels) (h : Advances 0 a.begun.enter b) :
    Advances 1 a b.leave := by
  obtain ⟨htokens, hdepth', hdeepest, hforward, hinside, hcalls, happends, hsize⟩ := h
  simp only [Assembler.begun, enter] at *
  refine ⟨htokens, ?_, ?_, hforward, hinside, ?_, happends, hsize⟩
  · simp only [leave]
    omega
  · simp only [leave]
    omega
  · simp only [leave]
    omega

/-- Fewer tokens are left only where the cursor has moved. -/
theorem place_lt (h : Advances owed a b) (hleft : b.left < a.left) : a.place < b.place := by
  have htokens := h.tokens
  simp only [left, htokens] at hleft
  omega

end Advances

/-- What holds of a pass that got stuck and of everything that goes on behind an answer holds of
both together. -/
theorem Pass.bind_cases {motive : Pass β bound → Prop} (pass : Pass α inner)
    (next : α → (a : Assembler) → a.left < inner → Pass β bound)
    (hstuck : ∀ s, pass.answer = .error s → motive (.stuck s pass.after))
    (hnext : ∀ x (h : pass.answer = .ok x), motive (next x pass.after (pass.fewer h))) :
    motive (pass.bind next) := by
  unfold bind
  split
  · next s h => exact hstuck s h
  · next x h => exact hnext x h

/-- What goes on behind a pass is led on from where the pass ends, or ends there. -/
theorem Advances.bind {pass : Pass α inner}
    {next : α → (a : Assembler) → a.left < inner → Pass β bound}
    (hstuck : Advances owed a pass.after)
    (hnext : ∀ x (h : pass.answer = .ok x),
      Advances owed a (next x pass.after (pass.fewer h)).after) :
    Advances owed a (pass.bind next).after :=
  Pass.bind_cases (motive := fun pass => Advances owed a pass.after) _ _ (fun _ _ => hstuck) hnext

/-- Tokens in front of a pass pay for it, and for the instructions that are written behind it. -/
theorem Advances.behind_emit {pass : Pass α inner} {value : α → β} {instructions : α → Program}
    (h : Advances (owed + count) (a.skip count) pass.after) (hcount : count ≤ a.left)
    (hsize : ∀ x, (instructions x).length ≤ 2 * count)
    (hfewer : ∀ x (b : Assembler), b.left < inner → (b.emit (instructions x)).left < bound) :
    Advances owed a (pass.bind fun x b hb =>
      .done (value x) (b.emit (instructions x)) (hfewer x b hb)).after :=
  .bind (h.behind_silent hcount) fun x _ => h.behind hcount (hsize x)

theorem close_advances
    {take : List (Placed Sign) → Except (Stuck (Placed Sign)) (List (Placed Sign))}
    (shrinks : ∀ {tokens rest}, take tokens = .ok rest → rest.length < tokens.length) :
    Advances 0 a (a.close take shrinks).after := by
  unfold close
  split
  · exact .refl a
  · next h =>
    have := shrinks h
    rw [a.length_ahead] at this
    exact ((Advances.refl _).mono (Nat.zero_le _)).behind_silent (by omega)

theorem Advances.past_one (h : 0 < a.left) : Advances 0 a (a.skip 1) :=
  ((refl _).mono (Nat.zero_le _)).behind_silent h

theorem nullTest_value_advances {op : UnaryOperation} (hbound : a.left ≤ bound) :
    Advances 0 a (nullTest.value a op hbound).after := by
  unfold nullTest.value
  split
  · next h => exact .past_one (left_pos h)
  · exact .refl a
  · next h => exact .past_one (left_pos h)

theorem nullTest_advances : Advances 0 a a.nullTest.after := by
  unfold nullTest
  split
  · next h => exact (Advances.past_one (left_pos h)).trans (nullTest_value_advances _)
  · exact nullTest_value_advances _

/-- What is shown of every sub-expression by the number of tokens that are left. -/
def AdvancesBelow (n : Nat) : Prop :=
  ∀ (a : Assembler) (power : Nat), a.left < n → Advances 1 a (a.expression power).after

/-- The tokens in front of a sub-expression pay for it. -/
theorem AdvancesBelow.behind (h : AdvancesBelow a.left) (power : Nat) (hcount : 0 < count)
    (hle : count ≤ a.left) :
    Advances (0 + count) (a.skip count) ((a.skip count).expression power).after :=
  (h (a.skip count) power (by rw [left_skip]; omega)).mono (by omega)

theorem further_advances (h : AdvancesBelow n) (hleft : a.left < n) (count : Nat) :
    Advances 1 a (further count a).after := by
  obtain ⟨m, hm⟩ : ∃ m, a.left = m := ⟨_, rfl⟩
  induction m using Nat.strongRecOn generalizing a count with
  | _ m ih =>
    have hfirst := h a 0 hleft
    rw [further]
    refine .bind hfirst fun x hx => ?_
    have hfewer := (a.expression 0).fewer hx
    split
    · next hcomma =>
      -- The comma pays for the argument behind it.
      have hskip : ((a.expression 0).after.skip 1).left < _ := left_skip_lt hcomma
      have hmore : Advances 1 _ (further (count + 1) ((a.expression 0).after.skip 1)).after :=
        ih _ (by omega) (by omega) _ rfl
      exact hfirst.trans (hmore.behind_silent (left_pos hcomma))
    · have hclosed := hfirst.trans (close_advances closeParenthesis_lt)
      exact .bind hclosed fun _ _ => hclosed

theorem arguments_advances (h : AdvancesBelow n) (hleft : a.left < n) :
    Advances 1 a (arguments a).after := by
  rw [arguments]
  split
  · next hclose => exact (Advances.past_one (left_pos hclose)).mono (Nat.zero_le _)
  · exact further_advances h hleft 0

theorem Advances.emit_one {instruction : Placed Instruction} (h : 0 < a.left) :
    Advances 0 a ((a.skip 1).emit [instruction]) :=
  ((refl _).mono (Nat.zero_le _)).behind h (Nat.le_succ 1)

theorem two_le_left {first second : Placed Sign} {rest : List (Placed Sign)}
    (h : a.ahead = first :: second :: rest) : 2 ≤ a.left := by
  rw [← a.length_ahead, h]
  exact Nat.le_add_left ..

/-- An operand advances, if every sub-expression inside it does. -/
theorem operand_advances (h : AdvancesBelow a.left) : Advances 0 a (operand a).after := by
  rw [operand]
  split
  case h_1 => exact .refl a
  case h_2 hahead => exact .emit_one (left_pos hahead)
  case h_3 hahead =>
    have hwords := two_le_left hahead
    have hfewer : (a.skip 2).left < a.left := left_skip_lt hahead
    have harguments := (arguments_advances h hfewer).mono (Nat.le_succ 1)
    refine harguments.behind_emit hwords ?_ _
    exact fun _ => Nat.le_add_right 2 2
  case h_4 hahead => exact .emit_one (left_pos hahead)
  case h_5 hahead =>
    have hinner := (h.behind 0 Nat.one_pos (left_pos hahead)).behind_silent (left_pos hahead)
    exact .bind hinner fun x hx => hinner.trans (close_advances _)
  case h_6 hahead =>
    have hinner := h.behind unaryPower Nat.one_pos (left_pos hahead)
    refine hinner.behind_emit (left_pos hahead) ?_ _
    exact fun _ => Nat.le_succ 1
  case h_7 hahead =>
    exact (h.behind unaryPower Nat.one_pos (left_pos hahead)).behind_silent (left_pos hahead)
  case h_8 hahead =>
    have hinner := h.behind notPower Nat.one_pos (left_pos hahead)
    refine hinner.behind_emit (left_pos hahead) ?_ _
    exact fun _ => Nat.le_succ 1
  case h_9 hahead => exact .past_one (left_pos hahead)
  case h_10 hahead => exact .past_one (left_pos hahead)

theorem le_left_of_binaryAhead? {op : BinaryOperation} {rest : List (Placed Sign)}
    (h : binaryAhead? a.ahead = some (op, rest)) : op.words ≤ a.left := by
  rw [← a.length_ahead]
  unfold binaryAhead? at h
  split at h <;> cases h
  all_goals
    rename_i hahead
    rw [hahead]
    simp [BinaryOperation.words]

theorem extendOnce_advances (h : AdvancesBelow a.left) {power : Nat} {pass : Pass Unit a.left}
    (hpass : extendOnce power a = some pass) : Advances 0 a pass.after := by
  rw [extendOnce] at hpass
  split at hpass
  · cases hpass
  · next hahead =>
    split at hpass
    · cases hpass
    · cases hpass
      have hinner := h.behind (BinaryOperation.rightPower .element) Nat.one_pos (left_pos hahead)
      refine .bind (hinner.behind_silent (left_pos hahead)) fun x hx => ?_
      have hclosed := hinner.trans (close_advances closeBracket_lt)
      refine hclosed.behind_emit (left_pos hahead) ?_ _
      exact fun _ => Nat.le_succ 1
  · next hahead =>
    split at hpass
    · cases hpass
    · cases hpass
      have htest : Advances 1 (a.skip 1) (a.skip 1).nullTest.after :=
        nullTest_advances.mono (Nat.zero_le _)
      refine htest.behind_emit (left_pos hahead) ?_ _
      exact fun _ => Nat.le_succ 1
  · next hahead =>
    split at hpass
    · cases hpass
    · next op rest hop =>
      split at hpass
      · cases hpass
      · cases hpass
        rw [← hahead] at hop
        have hwords := le_left_of_binaryAhead? hop
        have hinner := h.behind op.rightPower op.words_pos hwords
        refine hinner.behind_emit hwords ?_ _
        exact fun _ => Nat.le_trans op.words_pos (Nat.le_mul_of_pos_left _ Nat.two_pos)

/-- Extending an expression advances, if every right operand does. -/
theorem extend_advances (h : AdvancesBelow n) (hleft : a.left ≤ n) (power : Nat) :
    Advances 0 a (extend power a).after := by
  obtain ⟨m, hm⟩ : ∃ m, a.left = m := ⟨_, rfl⟩
  induction m using Nat.strongRecOn generalizing a with
  | _ m ih =>
    have hbelow : AdvancesBelow a.left := fun b power hb => h b power (by omega)
    rw [extend]
    split
    · exact .refl a
    · next pass hpass =>
      have honce := extendOnce_advances hbelow hpass
      refine .bind honce fun x hx => ?_
      have hfewer := pass.fewer hx
      have hmore : Advances 0 _ (extend power pass.after).after :=
        ih _ (by omega) (by omega) rfl
      exact honce.trans hmore

/-- Every sub-expression leads the assembler forward and owes no more than itself. -/
theorem expression_advances (power : Nat) (a : Assembler) :
    Advances 1 a (a.expression power).after := by
  obtain ⟨m, hm⟩ : ∃ m, a.left = m := ⟨_, rfl⟩
  induction m using Nat.strongRecOn generalizing a power with
  | _ m ih =>
    have hbelow : AdvancesBelow a.begun.enter.left := fun b power hb =>
      ih b.left (hm ▸ hb) power b rfl
    rw [expression]
    by_cases hdepth : levels ≤ a.depth
    · rw [if_pos hdepth]
      exact .begun a
    · rw [if_neg hdepth]
      refine Advances.level (by omega) ?_
      have hoperand := operand_advances hbelow
      refine .bind hoperand fun x hx => ?_
      have hfewer := (operand a.begun.enter).fewer hx
      exact hoperand.trans (extend_advances hbelow (Nat.le_of_lt hfewer) power)

end Assembler

end Formulary
