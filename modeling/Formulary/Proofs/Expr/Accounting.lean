import Formulary.Proofs.Expr.Counting
import Formulary.Proofs.Expr.Inventory

/-!
# The program of accepted tokens

The counts in front of calls are the only instructions without a word of their own in the tokens.
Without them, the postorder of a phrase lists exactly the instructions of its items, the operands
among them in the same order. With that, and with the derivation behind every accepted list, the
tokens account for the whole program and the program for all tokens.
-/

namespace Formulary

def Instruction.isOperand : Instruction → Bool
  | constant _ | reference _ => true
  | _ => false

namespace Program

/-- The function that the first instruction calls, if it is a call. -/
def called? : Program → Option (Placed String)
  | ⟨.call name, p⟩ :: _ => some ⟨name, p⟩
  | _ => none

def operands (program : Program) : Program := program.filter (·.content.isOperand)

/-- The instructions but the constants right in front of calls. -/
def withoutCounts : Program → Program
  | [] => []
  | ⟨.constant v, p⟩ :: rest =>
    if (called? rest).isSome then withoutCounts rest else ⟨.constant v, p⟩ :: withoutCounts rest
  | instruction :: rest => instruction :: withoutCounts rest

/-- The name of every call with the constant right in front of it, in order. -/
def calls : Program → List (Placed String × Value)
  | [] => []
  | ⟨.constant v, _⟩ :: rest => (called? rest).toList.map (·, v) ++ calls rest
  | _ :: rest => calls rest

variable {program rest : Program}

theorem called?_append (h : called? rest = none) :
    called? (program ++ rest) = called? program := by
  match program with
  | [] => exact h
  | ⟨instruction, _⟩ :: _ => cases instruction <;> rfl

theorem withoutCounts_append (h : called? rest = none) :
    withoutCounts (program ++ rest) = withoutCounts program ++ withoutCounts rest := by
  fun_induction withoutCounts program with
  | case1 => rfl
  | case2 v p behind hcall ih => simp [withoutCounts, called?_append h, hcall, ih]
  | case3 v p behind hcall ih => simp [withoutCounts, called?_append h, hcall, ih]
  | case4 instruction behind hother ih => simp [withoutCounts, ih]

theorem calls_append (h : called? rest = none) :
    calls (program ++ rest) = calls program ++ calls rest := by
  fun_induction calls program with
  | case1 => rfl
  | case2 v p behind ih => simp [calls, called?_append h, ih]
  | case3 instruction behind hother ih => simp [calls, ih]

/-- The same instructions, and the operands among them in the same order. -/
structure Rearranges (program other : Program) : Prop where
  perm : program.Perm other
  operands : program.operands = other.operands

namespace Rearranges

variable {other rest' : Program} {instruction : Placed Instruction}

theorem refl (program : Program) : program.Rearranges program := ⟨.refl _, rfl⟩

theorem append (h : program.Rearranges other) (hrest : rest.Rearranges rest') :
    Rearranges (program ++ rest) (other ++ rest') where
  perm := h.perm.append hrest.perm
  operands := by
    have hleft := h.operands
    have hright := hrest.operands
    unfold Program.operands at hleft hright ⊢
    rw [List.filter_append, List.filter_append, hleft, hright]

/-- An operation may move from between its operands to behind them. -/
theorem between (h : program.Rearranges other) (hrest : rest.Rearranges rest')
    (hop : instruction.content.isOperand = false) :
    Rearranges (program ++ rest ++ [instruction]) (other ++ instruction :: rest') where
  perm := by
    rw [List.append_assoc]
    have hmoved : (rest ++ [instruction]).Perm (instruction :: rest') :=
      (List.perm_append_singleton ..).trans (hrest.perm.cons _)
    exact h.perm.append hmoved
  operands := by
    have hboth := (h.append hrest).operands
    unfold Program.operands at hboth ⊢
    rw [List.filter_append, hboth]
    simp [List.filter_append, hop]

/-- An operation may move from in front of its operands to behind them. -/
theorem behind (h : program.Rearranges other) (hop : instruction.content.isOperand = false) :
    Rearranges (program ++ [instruction]) (instruction :: other) :=
  (refl []).between h hop

end Rearranges

end Program

open Program

mutual

/-- No postorder begins with a call. -/
theorem Phrase.called?_postorder : ∀ phrase : Phrase, called? phrase.postorder = none
  | .constant .. | .reference .. | .bareCall .. => rfl
  | .call _ _ _ args _ => by
    rw [Phrase.postorder, called?_append rfl, args.called?_postorder]
  | .group _ e _ => e.called?_postorder
  | .front op _ e => by
    rw [Phrase.postorder, called?_append (by cases op <;> rfl), e.called?_postorder]
  | .index e _ i _ => by
    rw [Phrase.postorder, called?_append rfl, called?_append i.called?_postorder,
      e.called?_postorder]
  | .test e _ => by rw [Phrase.postorder, called?_append rfl, e.called?_postorder]
  | .joined l _ r => by
    rw [Phrase.postorder, called?_append rfl, called?_append r.called?_postorder,
      l.called?_postorder]

theorem Phrases.called?_postorder : ∀ args : Phrases, called? args.postorder = none
  | .last e => e.called?_postorder
  | .more e _ others => by
    rw [Phrases.postorder, called?_append others.called?_postorder, e.called?_postorder]

end

mutual

/-- The constant in front of a call is the number of its arguments. -/
theorem Phrase.calls_postorder : ∀ phrase : Phrase,
    phrase.postorder.calls = phrase.calls.map fun call => (call.1, .integer (Int32.ofNat call.2))
  | .constant .. | .reference .. | .bareCall .. => rfl
  | .call _ _ _ args _ => by
    rw [Phrase.postorder, Phrase.calls, calls_append rfl, args.calls_postorder, List.map_append]
    rfl
  | .group _ e _ => e.calls_postorder
  | .front op _ e => by
    rw [Phrase.postorder, Phrase.calls, calls_append (by cases op <;> rfl), e.calls_postorder]
    cases op <;> exact List.append_nil _
  | .index e _ i _ => by
    rw [Phrase.postorder, Phrase.calls, calls_append rfl, calls_append i.called?_postorder,
      e.calls_postorder, i.calls_postorder, List.map_append]
    exact List.append_nil _
  | .test e _ => by
    rw [Phrase.postorder, Phrase.calls, calls_append rfl, e.calls_postorder]
    exact List.append_nil _
  | .joined l _ r => by
    rw [Phrase.postorder, Phrase.calls, calls_append rfl, calls_append r.called?_postorder,
      l.calls_postorder, r.calls_postorder, List.map_append]
    exact List.append_nil _

theorem Phrases.calls_postorder : ∀ args : Phrases,
    args.postorder.calls = args.calls.map fun call => (call.1, .integer (Int32.ofNat call.2))
  | .last e => e.calls_postorder
  | .more e _ others => by
    rw [Phrases.postorder, Phrases.calls, calls_append others.called?_postorder,
      e.calls_postorder, others.calls_postorder, List.map_append]

end

mutual

/-- Without the counts, the postorder of a phrase rearranges the instructions of its items. -/
theorem Phrase.rearranges_inorder : ∀ phrase : Phrase,
    phrase.postorder.withoutCounts.Rearranges (phrase.inorder.filterMap Item.instruction?)
  | .constant .. | .reference .. | .bareCall .. => .refl _
  | .call _ _ _ args _ => by
    rw [Phrase.postorder, withoutCounts_append rfl]
    simpa [Phrase.inorder, Item.written, Item.silent, withoutCounts, argumentCount, called?] using
      args.rearranges_inorder.behind rfl
  | .group _ e _ => by
    simpa [Phrase.postorder, Phrase.inorder, Item.silent] using e.rearranges_inorder
  | .front op p e => by
    rw [Phrase.postorder, withoutCounts_append (by cases op <;> rfl)]
    cases op with
    | plus => simpa [Phrase.inorder, Front.operation?, withoutCounts] using e.rearranges_inorder
    | _ => exact e.rearranges_inorder.behind rfl
  | .index e _ i _ => by
    rw [Phrase.postorder, withoutCounts_append rfl, withoutCounts_append i.called?_postorder]
    simpa [Phrase.inorder, Item.written, Item.silent, withoutCounts] using
      e.rearranges_inorder.between i.rearranges_inorder rfl
  | .test e words => by
    rw [Phrase.postorder, withoutCounts_append rfl]
    simpa [Phrase.inorder, Item.written, withoutCounts] using
      e.rearranges_inorder.append (.refl [⟨.unary words.operation, words.place⟩])
  | .joined l _ r => by
    rw [Phrase.postorder, withoutCounts_append rfl, withoutCounts_append r.called?_postorder]
    simpa [Phrase.inorder, Item.written, withoutCounts] using
      l.rearranges_inorder.between r.rearranges_inorder rfl

theorem Phrases.rearranges_inorder : ∀ args : Phrases,
    args.postorder.withoutCounts.Rearranges (args.inorder.filterMap Item.instruction?)
  | .last e => e.rearranges_inorder
  | .more e _ others => by
    rw [Phrases.postorder, withoutCounts_append others.called?_postorder]
    simpa [Phrases.inorder, Item.silent] using
      e.rearranges_inorder.append others.rearranges_inorder

end

/-- A program accounts for tokens if they divide into items of which only brackets, commas and plus
signs in front have no instruction, and the program lists the instructions of the others. -/
structure Program.Accounts (program : Program) (tokens : List (Placed Sign)) : Prop where
  words : (Expr.items true tokens).flatMap Item.words = tokens
  silent : ∀ item ∈ Expr.items true tokens, item.Accounted
  instructions : program.withoutCounts.Rearranges
    ((Expr.items true tokens).filterMap Item.instruction?)

/-- The postorder of a phrase accounts for its tokens. -/
theorem Phrase.accounts_postorder (phrase : Phrase) :
    phrase.postorder.Accounts phrase.tokens := by
  have hitems : Expr.items true phrase.tokens = phrase.inorder := by
    have hall := phrase.items_tokens [] rfl
    rwa [List.append_nil, Expr.items, List.append_nil] at hall
  refine ⟨Expr.flatMap_words_items true _, ?_, ?_⟩
  · rw [hitems]
    exact phrase.accounted_inorder
  · rw [hitems]
    exact phrase.rearranges_inorder

/-- Accepted tokens are those of a phrase, and the program is its postorder, in which every call
finds the number of its arguments as long as a number of tokens fits there. No tokens at all have
the empty program. In any case, the program accounts for the tokens. -/
theorem Expr.derivation_of_ofSigns {tokens : List (Placed Sign)} {program : Program}
    (h : (ofSigns tokens).map (fun tree => tree.elim [] Expr.program) = .ok program) :
    (tokens = [] ∧ program = [] ∨
      ∃ phrase : Phrase, phrase.tokens = tokens ∧ program = phrase.postorder ∧
        program.calls =
          phrase.calls.map (fun call => (call.1, .integer (Int32.ofNat call.2))) ∧
        (tokens.length < 2 ^ 31 →
          ∀ call ∈ phrase.calls, (Int32.ofNat call.2).toInt = call.2)) ∧
    program.Accounts tokens := by
  obtain ⟨tree, htree, hprogram⟩ := of_map_ok h
  subst hprogram
  cases tree with
  | none =>
    rw [ofSigns_eq_none_iff.mp htree]
    refine ⟨.inl ⟨rfl, rfl⟩, rfl, ?_, .refl _⟩
    intro item hitem
    cases hitem
  | some e =>
    obtain ⟨phrase, -, -, rfl, rfl⟩ := ofSigns_eq_some_iff.mp htree
    simp only [Option.elim_some, phrase.program_tree]
    refine ⟨.inr ⟨phrase, rfl, rfl, phrase.calls_postorder, ?_⟩, phrase.accounts_postorder⟩
    intro hlength call hcall
    have hcount := phrase.count_lt_of_mem_calls call hcall
    exact Int32.toInt_ofNat_of_lt (Nat.lt_trans hcount hlength)

/-- The program of `f(+x)` accounts for its tokens. -/
theorem Expr.accounts_plus_in_call :
    let tokens : List (Placed Sign) := [⟨.name "f", ⟨1, 1⟩⟩, ⟨.openParenthesis, ⟨1, 2⟩⟩,
      ⟨.operator .add, ⟨1, 3⟩⟩, ⟨.name "x", ⟨1, 4⟩⟩, ⟨.closeParenthesis, ⟨1, 5⟩⟩]
    let program : Program :=
      [⟨.reference "x", ⟨1, 4⟩⟩, argumentCount 1 ⟨1, 1⟩, ⟨.call "f", ⟨1, 1⟩⟩]
    (ofSigns tokens).map (fun tree => tree.elim [] Expr.program) = .ok program ∧
      program.Accounts tokens := by
  intro tokens program
  have hread : ofSigns tokens = .ok (some (.call "f" [.reference "x" ⟨1, 4⟩] ⟨1, 1⟩)) :=
    ofSigns_eq_some_iff.mpr ⟨.call "f" ⟨1, 1⟩ ⟨1, 2⟩
      (.last (.front .plus ⟨1, 3⟩ (.reference "x" ⟨1, 4⟩))) ⟨1, 5⟩, by decide, by decide, rfl, rfl⟩
  have hprogram : (ofSigns tokens).map (fun tree => tree.elim [] Expr.program) = .ok program := by
    rw [hread]
    rfl
  exact ⟨hprogram, (derivation_of_ofSigns hprogram).2⟩

end Formulary
