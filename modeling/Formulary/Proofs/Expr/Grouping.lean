import Formulary.Proofs.Expr.Phrase

/-!
# Grouping by powers

The plain grammar leaves open which operands belong together, and the binding powers decide it. A
phrase is clear at a power if they decide it the way the phrase is built. Every phrase can be made
clear by parentheses, and `grouped` puts them where the powers ask for them and nowhere else: a
phrase that is clear stays as it is, with all the parentheses that it has anyway.
-/

namespace Formulary

/-- Whether an operation of a power behind a phrase is left to whoever reads the phrase, or else
taken by an operand at the end of it. -/
def Phrase.releases (power : Nat) : Phrase → Bool
  | .front op _ e => power < op.power && e.releases power
  | .joined _ link r => power < link.operation.rightPower && r.releases power
  | _ => true

mutual

/-- Whether a phrase that is read at a power is grouped the way it is built: every operation on the
left edge reaches the power and is released by its left operand. -/
def Phrase.clear (power : Nat) : Phrase → Bool
  | .constant .. | .reference .. | .bareCall .. => true
  | .call _ _ _ args _ => args.clear
  | .group _ e _ => e.clear 0
  | .front op _ e => e.clear op.power
  | .index e _ i _ =>
    let left := BinaryOperation.leftPower .element
    e.clear power && power ≤ left && e.releases left &&
      i.clear (BinaryOperation.rightPower .element)
  | .test e _ => e.clear power && power ≤ testPower && e.releases testPower
  | .joined l link r =>
    let left := link.operation.leftPower
    l.clear power && power ≤ left && l.releases left && r.clear link.operation.rightPower

def Phrases.clear : Phrases → Bool
  | .last e => e.clear 0
  | .more e _ others => e.clear 0 && others.clear

end

namespace Phrase

def groupUnless (ok : Bool) (place : Position) (e : Phrase) : Phrase :=
  if ok then e else .group place e place

/-- The left operand of an operation, given as it is grouped in the operation's place and as it is
grouped on its own. -/
def leftOperand (left : Nat) (place : Position) (inside alone : Phrase) : Phrase :=
  if inside.releases left then inside else .group place alone place

end Phrase

mutual

/-- The phrase with parentheses around each part that the powers would group in another way. The
power inside parentheses is 0. -/
def Phrase.grouped (place : Position) (power : Nat) : Phrase → Phrase
  | .constant v p => .constant v p
  | .reference name p => .reference name p
  | .bareCall name p o c => .bareCall name p o c
  | .call name p o args c => .call name p o (args.grouped place) c
  | .group o e c => .group o (e.grouped place 0) c
  | .front op p e => .front op p (e.grouped place op.power)
  | .index e o i c =>
    let left := BinaryOperation.leftPower .element
    let around := if power ≤ left then power else 0
    .groupUnless (power ≤ left) place (.index
      (.leftOperand left place (e.grouped place around) (e.grouped place 0)) o
      (i.grouped place (BinaryOperation.rightPower .element)) c)
  | .test e words =>
    let around := if power ≤ testPower then power else 0
    .groupUnless (power ≤ testPower) place (.test
      (.leftOperand testPower place (e.grouped place around) (e.grouped place 0)) words)
  | .joined l link r =>
    let left := link.operation.leftPower
    let around := if power ≤ left then power else 0
    .groupUnless (power ≤ left) place (.joined
      (.leftOperand left place (l.grouped place around) (l.grouped place 0)) link
      (r.grouped place link.operation.rightPower))

def Phrases.grouped (place : Position) : Phrases → Phrases
  | .last e => .last (e.grouped place 0)
  | .more e p others => .more (e.grouped place 0) p (others.grouped place)

end

namespace Phrase

variable {power left : Nat} {place : Position} {e inside alone : Phrase}

theorem releases_leftOperand : (leftOperand left place inside alone).releases left = true := by
  unfold leftOperand
  split
  · assumption
  · rfl

theorem clear_leftOperand (left : Nat) (place : Position) (hinside : inside.clear power = true)
    (halone : alone.clear 0 = true) :
    (leftOperand left place inside alone).clear power = true := by
  unfold leftOperand
  split
  · exact hinside
  · exact halone

/-- The power inside parentheses that are there for want of power is reached. -/
theorem powerInside_le (power left : Nat) : (if power ≤ left then power else 0) ≤ left := by
  by_cases hle : power ≤ left
  · rwa [if_pos hle]
  · rw [if_neg hle]
    exact Nat.zero_le left

/-- Parentheses around what does not reach a power make it clear, if it is clear inside them. -/
theorem clear_groupUnless (h : e.clear (if power ≤ left then power else 0) = true) :
    (groupUnless (power ≤ left) place e).clear power = true := by
  unfold groupUnless
  by_cases hle : power ≤ left
  · simpa [hle] using h
  · simpa [hle, clear] using h

@[simp] theorem tree_groupUnless (ok : Bool) (place : Position) (e : Phrase) :
    (groupUnless ok place e).tree = e.tree := by
  cases ok <;> rfl

theorem tree_leftOperand (h : inside.tree = e.tree) (h' : alone.tree = e.tree) :
    (leftOperand left place inside alone).tree = e.tree := by
  unfold leftOperand
  split
  · exact h
  · exact h'

end Phrase

mutual

/-- Grouping makes every phrase clear. -/
theorem Phrase.clear_grouped (place : Position) :
    ∀ (phrase : Phrase) (power : Nat), (phrase.grouped place power).clear power = true
  | .constant .., _ | .reference .., _ | .bareCall .., _ => rfl
  | .call _ _ _ args _, _ => args.clear_grouped place
  | .group _ e _, _ => e.clear_grouped place 0
  | .front op _ e, _ => e.clear_grouped place op.power
  | .index e _ i _, power => by
    apply Phrase.clear_groupUnless
    have hleft := Phrase.clear_leftOperand (BinaryOperation.leftPower .element) place
      (e.clear_grouped place (if power ≤ BinaryOperation.leftPower .element then power else 0))
      (e.clear_grouped place 0)
    have hindex := i.clear_grouped place (BinaryOperation.rightPower .element)
    simp only [Phrase.clear, hleft, hindex, Phrase.releases_leftOperand, Bool.true_and,
      Bool.and_true, decide_eq_true_eq]
    exact Phrase.powerInside_le ..
  | .test e _, power => by
    apply Phrase.clear_groupUnless
    have hleft := Phrase.clear_leftOperand testPower place
      (e.clear_grouped place (if power ≤ testPower then power else 0)) (e.clear_grouped place 0)
    simp only [Phrase.clear, hleft, Phrase.releases_leftOperand, Bool.true_and, Bool.and_true,
      decide_eq_true_eq]
    exact Phrase.powerInside_le ..
  | .joined l link r, power => by
    apply Phrase.clear_groupUnless
    have hleft := Phrase.clear_leftOperand link.operation.leftPower place
      (l.clear_grouped place (if power ≤ link.operation.leftPower then power else 0))
      (l.clear_grouped place 0)
    have hright := r.clear_grouped place link.operation.rightPower
    simp only [Phrase.clear, hleft, hright, Phrase.releases_leftOperand, Bool.true_and,
      Bool.and_true, decide_eq_true_eq]
    exact Phrase.powerInside_le ..

theorem Phrases.clear_grouped (place : Position) :
    ∀ args : Phrases, (args.grouped place).clear = true
  | .last e => e.clear_grouped place 0
  | .more e _ others => by
    simp [Phrases.grouped, Phrases.clear, e.clear_grouped place 0, others.clear_grouped place]

end

mutual

/-- Grouping changes nothing about what a phrase writes. -/
theorem Phrase.tree_grouped (place : Position) :
    ∀ (phrase : Phrase) (power : Nat), (phrase.grouped place power).tree = phrase.tree
  | .constant .., _ | .reference .., _ | .bareCall .., _ => rfl
  | .call _ _ _ args _, _ => by
    rw [Phrase.grouped, Phrase.tree, Phrase.tree, args.trees_grouped place]
  | .group _ e _, _ => e.tree_grouped place 0
  | .front op _ e, _ => by
    rw [Phrase.grouped, Phrase.tree, Phrase.tree, e.tree_grouped place op.power]
  | .index e _ i _, _ => by
    simp only [Phrase.grouped, Phrase.tree_groupUnless, Phrase.tree, i.tree_grouped place,
      Phrase.tree_leftOperand (e.tree_grouped place _) (e.tree_grouped place 0)]
  | .test e _, _ => by
    simp only [Phrase.grouped, Phrase.tree_groupUnless, Phrase.tree,
      Phrase.tree_leftOperand (e.tree_grouped place _) (e.tree_grouped place 0)]
  | .joined l _ r, _ => by
    simp only [Phrase.grouped, Phrase.tree_groupUnless, Phrase.tree, r.tree_grouped place,
      Phrase.tree_leftOperand (l.tree_grouped place _) (l.tree_grouped place 0)]

theorem Phrases.trees_grouped (place : Position) :
    ∀ args : Phrases, (args.grouped place).trees = args.trees
  | .last e => by rw [Phrases.grouped, Phrases.trees, Phrases.trees, e.tree_grouped place 0]
  | .more e _ others => by
    rw [Phrases.grouped, Phrases.trees, Phrases.trees, e.tree_grouped place 0,
      others.trees_grouped place]

end

mutual

/-- A phrase that is clear stays as it is, redundant parentheses included. -/
theorem Phrase.grouped_of_clear (place : Position) :
    ∀ (phrase : Phrase) (power : Nat), phrase.clear power = true →
      phrase.grouped place power = phrase
  | .constant .., _, _ | .reference .., _, _ | .bareCall .., _, _ => rfl
  | .call _ _ _ args _, _, h => by rw [Phrase.grouped, args.grouped_of_clear place h]
  | .group _ e _, _, h => by rw [Phrase.grouped, e.grouped_of_clear place 0 h]
  | .front op _ e, _, h => by rw [Phrase.grouped, e.grouped_of_clear place op.power h]
  | .index e _ i _, power, h => by
    simp only [Phrase.clear, Bool.and_eq_true, decide_eq_true_eq] at h
    obtain ⟨⟨⟨hclear, hle⟩, hreleases⟩, hindex⟩ := h
    simp only [Phrase.grouped, Phrase.groupUnless, Phrase.leftOperand, hle, if_true, decide_true,
      e.grouped_of_clear place power hclear, hreleases, i.grouped_of_clear place _ hindex]
  | .test e _, power, h => by
    simp only [Phrase.clear, Bool.and_eq_true, decide_eq_true_eq] at h
    obtain ⟨⟨hclear, hle⟩, hreleases⟩ := h
    simp only [Phrase.grouped, Phrase.groupUnless, Phrase.leftOperand, hle, if_true, decide_true,
      e.grouped_of_clear place power hclear, hreleases]
  | .joined l _ r, power, h => by
    simp only [Phrase.clear, Bool.and_eq_true, decide_eq_true_eq] at h
    obtain ⟨⟨⟨hclear, hle⟩, hreleases⟩, hright⟩ := h
    simp only [Phrase.grouped, Phrase.groupUnless, Phrase.leftOperand, hle, if_true, decide_true,
      l.grouped_of_clear place power hclear, hreleases, r.grouped_of_clear place _ hright]

theorem Phrases.grouped_of_clear (place : Position) :
    ∀ args : Phrases, args.clear = true → args.grouped place = args
  | .last e, h => by rw [Phrases.grouped, e.grouped_of_clear place 0 h]
  | .more e _ others, h => by
    simp only [Phrases.clear, Bool.and_eq_true] at h
    rw [Phrases.grouped, e.grouped_of_clear place 0 h.1, others.grouped_of_clear place h.2]

end

end Formulary
