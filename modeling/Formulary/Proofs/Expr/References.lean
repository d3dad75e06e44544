import Formulary.Proofs.Expr.Balance
import Formulary.Proofs.Registry.Listing

/-!
# The names that a formula refers to

The program of a formula reads a variable for every name in the tokens that no parenthesis follows,
and in the same order: an operand keeps its place among the operands when the operations move behind
them. So the variables of a formula are the first spellings of the names that stand there uncalled.
-/

namespace Formulary

open Formulary.Expr

/-- The names in tokens that are not called, in order. -/
def Sign.references : List (Placed Sign) → List String
  | [] => []
  | ⟨.name word, _⟩ :: rest => if callAhead rest then references rest else word :: references rest
  | _ :: rest => references rest

namespace Sign

variable {rest : List (Placed Sign)}

theorem references_name (word : String) (p : Position) (h : callAhead rest = false) :
    references (⟨.name word, p⟩ :: rest) = word :: references rest := by
  rw [references, h]
  rfl

theorem references_called (word : String) (p o : Position) (rest : List (Placed Sign)) :
    references (⟨.name word, p⟩ :: ⟨.openParenthesis, o⟩ :: rest) = references rest := rfl

theorem references_other {sign : Sign} (h : ∀ word, sign ≠ .name word) (p : Position) :
    references (⟨sign, p⟩ :: rest) = references rest := by
  cases sign with
  | name word => exact (h word rfl).elim
  | _ => rfl

/-- A name among the references stands among the tokens and is not called there. -/
theorem exists_of_mem_references {signs : List (Placed Sign)} {word : String}
    (h : word ∈ references signs) :
    ∃ front p rest, signs = front ++ ⟨.name word, p⟩ :: rest ∧ callAhead rest = false := by
  induction signs with
  | nil => cases h
  | cons first signs ih =>
    have hbehind : word ∈ references signs → ∃ front p rest,
        first :: signs = front ++ ⟨.name word, p⟩ :: rest ∧ callAhead rest = false := by
      intro hmem
      obtain ⟨front, p, rest, rfl, hcall⟩ := ih hmem
      exact ⟨first :: front, p, rest, rfl, hcall⟩
    obtain ⟨sign, p⟩ := first
    by_cases hname : ∀ other, sign ≠ .name other
    · rw [references_other hname] at h
      exact hbehind h
    · obtain ⟨other, rfl⟩ : ∃ other, sign = .name other := by simpa using hname
      cases hcall : callAhead signs with
      | true =>
        rw [references, hcall] at h
        exact hbehind h
      | false =>
        rw [references_name other p hcall] at h
        cases h with
        | head => exact ⟨[], p, signs, rfl, hcall⟩
        | tail _ h => exact hbehind h

end Sign

namespace Program

theorem references_append (program other : Program) :
    references (program ++ other) = references program ++ references other :=
  List.filterMap_append

end Program

open Sign

theorem Link.callAhead_tokens (link : Link) (rest : List (Placed Sign)) :
    callAhead (link.tokens ++ rest) = false := by
  cases link <;> rfl

theorem Link.references_tokens (link : Link) (rest : List (Placed Sign)) :
    references (link.tokens ++ rest) = references rest := by
  cases link <;> rfl

theorem Test.callAhead_tokens (words : Test) (rest : List (Placed Sign)) :
    callAhead (words.tokens ++ rest) = false := by
  cases words <;> rfl

theorem Test.references_tokens (words : Test) (rest : List (Placed Sign)) :
    references (words.tokens ++ rest) = references rest := by
  cases words <;> rfl

mutual

/-- The instructions of a phrase read its uncalled names, in order. -/
theorem Phrase.references_tokens (rest : List (Placed Sign)) (h : callAhead rest = false) :
    ∀ phrase : Phrase,
      references (phrase.tokens ++ rest) = phrase.postorder.references ++ references rest
  | .constant .. | .bareCall .. => rfl
  | .reference word p => references_name word p h
  | .call _ _ _ args _ => by
    rw [Phrase.tokens, Phrase.postorder, Program.references_append]
    simp only [List.cons_append, List.append_assoc, List.nil_append]
    rw [references_called, args.references_tokens _ rfl]
    rfl
  | .group o e c => by
    rw [Phrase.tokens, Phrase.postorder, List.cons_append, List.append_assoc]
    exact e.references_tokens _ rfl
  | .front op p e => by
    have he := e.references_tokens rest h
    rw [Phrase.postorder, Program.references_append]
    cases op <;> simpa [Phrase.tokens, references, Program.references, Front.sign,
      Front.operation?] using he
  | .index e o i c => by
    rw [Phrase.tokens, Phrase.postorder, Program.references_append, Program.references_append,
      List.append_assoc, e.references_tokens _ rfl, List.append_assoc, List.append_assoc]
    refine congrArg _ ?_
    rw [List.cons_append, List.append_assoc]
    exact i.references_tokens _ rfl
  | .test e words => by
    rw [Phrase.tokens, Phrase.postorder, Program.references_append, List.append_assoc,
      e.references_tokens _ (words.callAhead_tokens rest), words.references_tokens,
      List.append_assoc]
    rfl
  | .joined l link r => by
    rw [Phrase.tokens, Phrase.postorder, Program.references_append, Program.references_append,
      List.append_assoc, List.append_assoc, l.references_tokens _ (link.callAhead_tokens _),
      link.references_tokens, r.references_tokens rest h, List.append_assoc, List.append_assoc]
    rfl

theorem Phrases.references_tokens (rest : List (Placed Sign)) (h : callAhead rest = false) :
    ∀ args : Phrases,
      references (args.tokens ++ rest) = args.postorder.references ++ references rest
  | .last e => e.references_tokens rest h
  | .more e p others => by
    rw [Phrases.tokens, Phrases.postorder, Program.references_append, List.append_assoc,
      e.references_tokens _ rfl, List.append_assoc, ← others.references_tokens rest h]
    rfl

end

/-- The program of a formula reads the names that are not called, in order. -/
theorem Formula.references_program {text : String} {f : Formula} (h : read text = .ok f) :
    f.program.references = references f.signs := by
  have htree := (of_read h).1
  unfold program
  cases he : f.tree with
  | none =>
    rw [he] at htree
    rw [ofSigns_eq_none_iff.mp htree]
    rfl
  | some e =>
    rw [he] at htree
    obtain ⟨phrase, -, -, htokens, rfl⟩ := ofSigns_eq_some_iff.mp htree
    have hall := phrase.references_tokens [] rfl
    rw [List.append_nil, htokens] at hall
    rw [Option.elim_some, phrase.program_tree, hall]
    exact (List.append_nil _).symm

end Formulary
