import Formulary.Proofs.Expr.Derivation

/-!
# Every token is accounted for

Tokens from left to right divide into items: the words of an operation belong together, and so do a
called name and the parenthesis behind it. An item stands for one instruction or, if it is a
bracket, a comma or a plus sign in front, for none. No grammar is needed for that but whether an
operand is to come next. The program of an accepted list holds exactly the instructions of its
items, the operands in their order, and besides them only the counts in front of calls.
-/

namespace Formulary

/-- Tokens that belong together, and the instruction that they stand for. -/
structure Item where
  words : List (Placed Sign)
  instruction? : Option (Placed Instruction)

namespace Item

def silent (token : Placed Sign) : Item := ⟨[token], none⟩

/-- Words with an instruction at the place of the first. -/
def written (words : List (Placed Sign)) (instruction : Instruction) (p : Position) : Item :=
  ⟨words, some ⟨instruction, p⟩⟩

end Item

namespace Expr

/-- The signs that can have no instruction: brackets, commas and plus. -/
def isSilent : Sign → Bool
  | .openParenthesis | .closeParenthesis | .closeBracket | .comma | .operator .add => true
  | _ => false

/-- Whether an operand is to come next, behind a sign without an instruction. -/
def expectsBehind (expecting : Bool) : Sign → Bool
  | .openParenthesis | .comma => true
  | .closeParenthesis | .closeBracket => false
  | _ => expecting

/-- The items of tokens from left to right, given whether an operand is to come next. -/
def items : Bool → List (Placed Sign) → List Item
  | _, [] => []
  | true, ⟨.constant v, p⟩ :: rest =>
    .written [⟨.constant v, p⟩] (.constant v) p :: items false rest
  | true, ⟨.name name, p⟩ :: ⟨.openParenthesis, o⟩ :: rest =>
    .written [⟨.name name, p⟩, ⟨.openParenthesis, o⟩] (.call name) p :: items true rest
  | true, ⟨.name name, p⟩ :: rest =>
    .written [⟨.name name, p⟩] (.reference name) p :: items false rest
  | true, ⟨.operator .sub, p⟩ :: rest =>
    .written [⟨.operator .sub, p⟩] (.unary .negative) p :: items true rest
  | true, ⟨.not, p⟩ :: rest => .written [⟨.not, p⟩] (.unary .not) p :: items true rest
  | false, ⟨.openBracket, p⟩ :: rest =>
    .written [⟨.openBracket, p⟩] (.binary .element) p :: items true rest
  | false, ⟨.is, p⟩ :: ⟨.not, n⟩ :: ⟨.constant .null, q⟩ :: rest =>
    .written [⟨.is, p⟩, ⟨.not, n⟩, ⟨.constant .null, q⟩] (.unary .isNotNull) p :: items false rest
  | false, ⟨.is, p⟩ :: ⟨.constant .null, q⟩ :: rest =>
    .written [⟨.is, p⟩, ⟨.constant .null, q⟩] (.unary .isNull) p :: items false rest
  | false, ⟨.not, p⟩ :: ⟨.operator .member, q⟩ :: rest =>
    .written [⟨.not, p⟩, ⟨.operator .member, q⟩] (.binary .notMember) p :: items true rest
  | false, ⟨.not, p⟩ :: ⟨.operator .like, q⟩ :: rest =>
    .written [⟨.not, p⟩, ⟨.operator .like, q⟩] (.binary .notLike) p :: items true rest
  | false, ⟨.operator op, p⟩ :: rest =>
    .written [⟨.operator op, p⟩] (.binary (.operator op)) p :: items true rest
  | expecting, token :: rest => .silent token :: items (expectsBehind expecting token.content) rest

/-- Items lose no token and change none. -/
theorem flatMap_words_items (expecting : Bool) (tokens : List (Placed Sign)) :
    (items expecting tokens).flatMap Item.words = tokens := by
  fun_induction items expecting tokens with
  | case1 => rfl
  | _ => simp_all [Item.written, Item.silent]

end Expr

mutual

def Phrase.inorder : Phrase → List Item
  | .constant v p => [.written [⟨.constant v, p⟩] (.constant v) p]
  | .reference name p => [.written [⟨.name name, p⟩] (.reference name) p]
  | .bareCall name p o c =>
    [.written [⟨.name name, p⟩, ⟨.openParenthesis, o⟩] (.call name) p,
      .silent ⟨.closeParenthesis, c⟩]
  | .call name p o args c =>
    .written [⟨.name name, p⟩, ⟨.openParenthesis, o⟩] (.call name) p ::
      (args.inorder ++ [.silent ⟨.closeParenthesis, c⟩])
  | .group o e c =>
    .silent ⟨.openParenthesis, o⟩ :: (e.inorder ++ [.silent ⟨.closeParenthesis, c⟩])
  | .front op p e => ⟨[⟨op.sign, p⟩], op.operation?.map fun op => ⟨.unary op, p⟩⟩ :: e.inorder
  | .index e o i c =>
    e.inorder ++ .written [⟨.openBracket, o⟩] (.binary .element) o ::
      (i.inorder ++ [.silent ⟨.closeBracket, c⟩])
  | .test e words => e.inorder ++ [.written words.tokens (.unary words.operation) words.place]
  | .joined l link r =>
    l.inorder ++ .written link.tokens (.binary link.operation) link.place :: r.inorder

def Phrases.inorder : Phrases → List Item
  | .last e => e.inorder
  | .more e p others => e.inorder ++ .silent ⟨.comma, p⟩ :: others.inorder

end

namespace Expr

variable {tokens rest : List (Placed Sign)}

theorem items_reference (name : String) (p : Position) (h : callAhead rest = false) :
    items true (⟨.name name, p⟩ :: rest) =
      .written [⟨.name name, p⟩] (.reference name) p :: items false rest := by
  match rest with
  | [] => rfl
  | ⟨sign, q⟩ :: more => cases sign <;> first | rfl | cases h

theorem items_front (op : Front) (p : Position) :
    items true (⟨op.sign, p⟩ :: rest) =
      ⟨[⟨op.sign, p⟩], op.operation?.map fun op => ⟨.unary op, p⟩⟩ :: items true rest := by
  cases op <;> rfl

theorem items_test (words : Test) :
    items false (words.tokens ++ rest) =
      .written words.tokens (.unary words.operation) words.place :: items false rest := by
  cases words <;> rfl

theorem items_link (link : Link) :
    items false (link.tokens ++ rest) =
      .written link.tokens (.binary link.operation) link.place :: items true rest := by
  cases link with
  | operator op _ => cases op <;> rfl
  | _ => rfl

end Expr

open Formulary.Expr

mutual

/-- The items of the tokens of a phrase are its own, whatever stands behind. -/
theorem Phrase.items_tokens (rest : List (Placed Sign)) (h : callAhead rest = false) :
    ∀ phrase : Phrase, items true (phrase.tokens ++ rest) = phrase.inorder ++ items false rest
  | .constant .. | .bareCall .. => rfl
  | .reference name p => items_reference name p h
  | .call name p o args c => by
    have hargs := args.items_tokens c rest
    simp [Phrase.tokens, Phrase.inorder, items, hargs]
  | .group o e c => by
    have hinner := e.items_tokens (⟨.closeParenthesis, c⟩ :: rest) rfl
    simp [Phrase.tokens, Phrase.inorder, items, expectsBehind, hinner]
  | .front op p e => by
    have hinner := e.items_tokens rest h
    simp [Phrase.tokens, Phrase.inorder, items_front, hinner]
  | .index e o i c => by
    have htarget := e.items_tokens
      (⟨.openBracket, o⟩ :: (i.tokens ++ ⟨.closeBracket, c⟩ :: rest)) rfl
    have hindex := i.items_tokens (⟨.closeBracket, c⟩ :: rest) rfl
    simp [Phrase.tokens, Phrase.inorder, items, expectsBehind, htarget, hindex]
  | .test e words => by
    have hinner := e.items_tokens (words.tokens ++ rest) (by cases words <;> rfl)
    simp [Phrase.tokens, Phrase.inorder, items_test, hinner]
  | .joined l link r => by
    have hleft := l.items_tokens (link.tokens ++ (r.tokens ++ rest)) (by cases link <;> rfl)
    have hright := r.items_tokens rest h
    simp [Phrase.tokens, Phrase.inorder, items_link, hleft, hright]

theorem Phrases.items_tokens (c : Position) (rest : List (Placed Sign)) :
    ∀ args : Phrases, items true (args.tokens ++ ⟨.closeParenthesis, c⟩ :: rest) =
      args.inorder ++ .silent ⟨.closeParenthesis, c⟩ :: items false rest
  | .last e => e.items_tokens (⟨.closeParenthesis, c⟩ :: rest) rfl
  | .more e p others => by
    have hfirst := e.items_tokens
      (⟨.comma, p⟩ :: (others.tokens ++ ⟨.closeParenthesis, c⟩ :: rest)) rfl
    have hothers := others.items_tokens c rest
    simp [Phrases.tokens, Phrases.inorder, items, expectsBehind, hfirst, hothers]

end

namespace Item

/-- An item that stands for an instruction, or else is a single sign that may stand for none. -/
structure Accounted (item : Item) : Prop where
  isSilent : item.instruction? = none →
    ∃ token, item.words = [token] ∧ Expr.isSilent token.content = true

theorem accounted_written (words : List (Placed Sign)) (i : Instruction) (p : Position) :
    (written words i p).Accounted := ⟨fun h => by cases h⟩

theorem accounted_silent {sign : Sign} (h : isSilent sign = true) (p : Position) :
    (silent ⟨sign, p⟩).Accounted := ⟨fun _ => ⟨_, rfl, h⟩⟩

theorem accounted_front (op : Front) (p : Position) :
    Accounted ⟨[⟨op.sign, p⟩], op.operation?.map fun op => ⟨.unary op, p⟩⟩ := by
  cases op with
  | plus => exact accounted_silent rfl p
  | _ => exact accounted_written ..

end Item

open Item

mutual

/-- In a phrase, only brackets, commas and plus signs in front stand for no instruction. -/
theorem Phrase.accounted_inorder : ∀ phrase : Phrase, ∀ item ∈ phrase.inorder, item.Accounted
  | .constant .. | .reference .. => by
    simp only [Phrase.inorder, List.forall_mem_singleton]
    exact accounted_written ..
  | .bareCall .. => by
    simp only [Phrase.inorder, List.forall_mem_cons, List.not_mem_nil, false_implies,
      implies_true, and_true]
    exact ⟨accounted_written .., accounted_silent rfl _⟩
  | .call _ _ _ args _ => by
    simp only [Phrase.inorder, List.forall_mem_cons, List.forall_mem_append,
      List.not_mem_nil, false_implies, implies_true, and_true]
    exact ⟨accounted_written .., args.accounted_inorder, accounted_silent rfl _⟩
  | .group _ e _ => by
    simp only [Phrase.inorder, List.forall_mem_cons, List.forall_mem_append,
      List.not_mem_nil, false_implies, implies_true, and_true]
    exact ⟨accounted_silent rfl _, e.accounted_inorder, accounted_silent rfl _⟩
  | .front op p e => by
    simp only [Phrase.inorder, List.forall_mem_cons]
    exact ⟨accounted_front op p, e.accounted_inorder⟩
  | .index e _ i _ => by
    simp only [Phrase.inorder, List.forall_mem_cons, List.forall_mem_append,
      List.not_mem_nil, false_implies, implies_true, and_true]
    exact ⟨e.accounted_inorder, accounted_written .., i.accounted_inorder, accounted_silent rfl _⟩
  | .test e _ => by
    simp only [Phrase.inorder, List.forall_mem_append, List.forall_mem_singleton]
    exact ⟨e.accounted_inorder, accounted_written ..⟩
  | .joined l _ r => by
    simp only [Phrase.inorder, List.forall_mem_append, List.forall_mem_cons]
    exact ⟨l.accounted_inorder, accounted_written .., r.accounted_inorder⟩

theorem Phrases.accounted_inorder : ∀ args : Phrases, ∀ item ∈ args.inorder, item.Accounted
  | .last e => e.accounted_inorder
  | .more e _ others => by
    simp only [Phrases.inorder, List.forall_mem_append, List.forall_mem_cons]
    exact ⟨e.accounted_inorder, accounted_silent rfl _, others.accounted_inorder⟩

end

end Formulary
