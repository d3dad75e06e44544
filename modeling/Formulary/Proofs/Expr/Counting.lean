import Mathlib.Algebra.Group.Nat.Defs
import Formulary.Proofs.Expr.Derivation

/-!
# Counting arguments

The number of the arguments of a call is written in front of it as an integer of 32 bits. An
expression is countable if every such number fits. A call has fewer arguments than there are tokens,
so an expression that is read from fewer than `2 ^ 31` tokens is countable.
-/

namespace Formulary

mutual

/-- The name of every call in a phrase with the number of its arguments, inner calls first. -/
def Phrase.calls : Phrase → List (Placed String × Nat)
  | .constant .. | .reference .. => []
  | .bareCall name p _ _ => [(⟨name, p⟩, 0)]
  | .call name p _ args _ => args.calls ++ [(⟨name, p⟩, args.count)]
  | .group _ e _ => e.calls
  | .front _ _ e => e.calls
  | .index e _ i _ => e.calls ++ i.calls
  | .test e _ => e.calls
  | .joined l _ r => l.calls ++ r.calls

def Phrases.calls : Phrases → List (Placed String × Nat)
  | .last e => e.calls
  | .more e _ others => e.calls ++ others.calls

end

theorem Phrase.length_tokens_pos (phrase : Phrase) : 0 < phrase.tokens.length := by
  obtain ⟨token, more, htokens, -⟩ := phrase.exists_tokens_eq_cons
  rw [htokens]
  exact Nat.succ_pos _

theorem Phrases.count_le_length_tokens (args : Phrases) : args.count ≤ args.tokens.length := by
  cases args with
  | last e => exact e.length_tokens_pos
  | more e comma others =>
    have hothers := others.count_le_length_tokens
    simp only [Phrases.count, Phrases.tokens, List.length_append, List.length_cons]
    omega

mutual

/-- A call has fewer arguments than there are tokens. -/
theorem Phrase.count_lt_of_mem_calls : ∀ phrase : Phrase,
    ∀ call ∈ phrase.calls, call.2 < phrase.tokens.length
  | .constant .., call, h | .reference .., call, h => by cases h
  | .bareCall .., call, h => by
    rw [List.mem_singleton.mp h]
    exact Nat.succ_pos _
  | .call name p o args c, call, h => by
    have hcount := args.count_le_length_tokens
    simp only [Phrase.tokens, List.length_cons, List.length_append]
    rcases List.mem_append.mp h with hinner | hlast
    · have hinner := args.count_lt_of_mem_calls call hinner
      omega
    · rw [List.mem_singleton.mp hlast]
      omega
  | .group o e c, call, h => by
    have hinner := e.count_lt_of_mem_calls call h
    simp only [Phrase.tokens, List.length_cons, List.length_append]
    omega
  | .front op p e, call, h => by
    have hinner := e.count_lt_of_mem_calls call h
    exact Nat.lt_succ_of_lt hinner
  | .index e o i c, call, h => by
    simp only [Phrase.tokens, List.length_cons, List.length_append]
    rcases List.mem_append.mp h with htarget | hindex
    · have htarget := e.count_lt_of_mem_calls call htarget
      omega
    · have hindex := i.count_lt_of_mem_calls call hindex
      omega
  | .test e words, call, h => by
    have hinner := e.count_lt_of_mem_calls call h
    rw [Phrase.tokens, List.length_append]
    omega
  | .joined l link r, call, h => by
    simp only [Phrase.tokens, List.length_append]
    rcases List.mem_append.mp h with hleft | hright
    · have hleft := l.count_lt_of_mem_calls call hleft
      omega
    · have hright := r.count_lt_of_mem_calls call hright
      omega

theorem Phrases.count_lt_of_mem_calls : ∀ args : Phrases,
    ∀ call ∈ args.calls, call.2 < args.tokens.length
  | .last e, call, h => e.count_lt_of_mem_calls call h
  | .more e p others, call, h => by
    simp only [Phrases.tokens, List.length_cons, List.length_append]
    rcases List.mem_append.mp h with hfirst | hothers
    · have hfirst := e.count_lt_of_mem_calls call hfirst
      omega
    · have hothers := others.count_lt_of_mem_calls call hothers
      omega

end

namespace Expr

mutual

/-- No call has more arguments than a count can say. -/
def Countable : Expr → Prop
  | constant .. | reference .. => True
  | call _ args _ => args.length < 2 ^ 31 ∧ AllCountable args
  | unary _ operand _ => operand.Countable
  | binary _ left right _ => left.Countable ∧ right.Countable

def AllCountable : List Expr → Prop
  | [] => True
  | e :: others => e.Countable ∧ AllCountable others

end

end Expr

mutual

/-- Only the calls of a phrase decide whether its tree is countable. -/
theorem Phrase.countable_tree : ∀ phrase : Phrase,
    (∀ call ∈ phrase.calls, call.2 < 2 ^ 31) → phrase.tree.Countable
  | .constant .., _ | .reference .., _ => trivial
  | .bareCall .., _ => ⟨by decide, trivial⟩
  | .call _ _ _ args _, h => by
    simp only [Phrase.calls, List.forall_mem_append, List.forall_mem_singleton] at h
    refine ⟨?_, args.allCountable_trees h.1⟩
    rw [args.length_trees]
    exact h.2
  | .group _ e _, h => e.countable_tree h
  | .front op p e, h => by
    have hinner := e.countable_tree h
    cases op <;> exact hinner
  | .index e _ i _, h => by
    simp only [Phrase.calls, List.forall_mem_append] at h
    exact ⟨e.countable_tree h.1, i.countable_tree h.2⟩
  | .test e _, h => e.countable_tree h
  | .joined l _ r, h => by
    simp only [Phrase.calls, List.forall_mem_append] at h
    exact ⟨l.countable_tree h.1, r.countable_tree h.2⟩

theorem Phrases.allCountable_trees : ∀ args : Phrases,
    (∀ call ∈ args.calls, call.2 < 2 ^ 31) → Expr.AllCountable args.trees
  | .last e, h => ⟨e.countable_tree h, trivial⟩
  | .more e _ others, h => by
    simp only [Phrases.calls, List.forall_mem_append] at h
    exact ⟨e.countable_tree h.1, others.allCountable_trees h.2⟩

end

/-- A count takes as many tokens as there are arguments, so few tokens need no large count. -/
theorem Expr.countable_of_ofSigns {tokens : List (Placed Sign)} {e : Expr}
    (h : ofSigns tokens = .ok (some e)) (hlength : tokens.length < 2 ^ 31) : e.Countable := by
  obtain ⟨phrase, -, -, rfl, rfl⟩ := ofSigns_eq_some_iff.mp h
  refine phrase.countable_tree ?_
  intro call hcall
  exact Nat.lt_trans (phrase.count_lt_of_mem_calls call hcall) hlength

end Formulary
