import Formulary.Proofs.Template.Inside

/-!
# How written tags split

Literal text ends in front of a pair of opening braces, and a comment in front of a pair of closing
ones. A tag that is clean therefore splits into its pieces in front of whatever can stand behind it,
and so do tags that meet each other.
-/

namespace Formulary.Template

variable {rest : List Char} {contents : List (TokenKind × String)}

/-! Characters before a pair -/

theorem beforePair_pair (c : Char) (cs : List Char) : beforePair c (c :: c :: cs) = [] :=
  if_pos ⟨rfl, rfl⟩

theorem beforePair_cons {c d : Char} (h : d ≠ c) (cs : List Char) :
    beforePair c (d :: cs) = d :: beforePair c cs := by
  cases cs with
  | nil => rfl
  | cons e cs => exact if_neg fun hboth => h hboth.1

theorem beforePair_append {c : Char} {chars : List Char} (hpair : ¬ [c, c] <:+: chars)
    (hrest : rest = [] ∨ chars.getLast? ≠ some c ∧ ∃ more, rest = c :: c :: more) :
    beforePair c (chars ++ rest) = chars := by
  induction chars with
  | nil =>
    rcases hrest with rfl | ⟨-, more, rfl⟩
    · rfl
    · exact beforePair_pair c more
  | cons d chars ih =>
    cases chars with
    | nil =>
      rcases hrest with rfl | ⟨hlast, more, rfl⟩
      · rfl
      · have hne : d ≠ c := fun h => hlast (congrArg some h)
        exact (beforePair_cons hne _).trans (congrArg (d :: ·) (beforePair_pair c more))
    | cons e chars =>
      have hinner : ¬ [c, c] <:+: e :: chars := fun h =>
        hpair (h.trans (List.suffix_cons d (e :: chars)).isInfix)
      have hne : ¬ (d = c ∧ e = c) := by
        rintro ⟨rfl, rfl⟩
        exact hpair ⟨[], chars, rfl⟩
      rw [List.getLast?_cons_cons] at hrest
      exact (if_neg hne).trans (congrArg (d :: ·) (ih hinner hrest))

/-! Tags -/

namespace Tag

def pieces : Tag → List (TokenKind × String)
  | leaf (.literal text) => [(.special, text)]
  | leaf (.raw name) => [(.symbol, openRawBrackets), (.word, name), (.symbol, closeRawBrackets)]
  | leaf (.escaped name) => [(.symbol, openBrackets), (.word, name), (.symbol, closeBrackets)]
  | leaf (.inclusion name) =>
    [(.symbol, openBrackets), (.symbol, ">"), (.word, name), (.symbol, closeBrackets)]
  | leaf (.comment text) =>
    [(.symbol, openBrackets), (.comment, "!" ++ text), (.symbol, closeBrackets)]
  | opening ⟨false, name, none⟩ =>
    [(.symbol, openBrackets), (.symbol, "#"), (.word, name), (.symbol, closeBrackets)]
  | opening ⟨true, name, none⟩ =>
    [(.symbol, openBrackets), (.symbol, "^"), (.word, name), (.symbol, closeBrackets)]
  | opening ⟨_, name, some helper⟩ =>
    [(.symbol, openBrackets), (.symbol, "#"), (.word, helper), (.word, name),
      (.symbol, closeBrackets)]
  | closing none => [(.symbol, openBrackets), (.symbol, "/"), (.symbol, closeBrackets)]
  | closing (some name) =>
    [(.symbol, openBrackets), (.symbol, "/"), (.word, name), (.symbol, closeBrackets)]

def Precedes : Tag → List Char → Prop
  | leaf (.literal text), rest =>
    rest = [] ∨ text.toList.getLast? ≠ some '\x7b' ∧ ∃ more, rest = '\x7b' :: '\x7b' :: more
  | leaf (.raw _), _ => True
  | _, rest => rest.head? ≠ some '\x7d'

variable {name : String}

theorem splits_named (hname : IsName name) (hrest : rest.head? ≠ some '\x7d')
    (others : Splits .text rest contents) {mode : Mode} (hmode : mode ≠ .text) :
    Splits mode (name.toList ++ '\x7d' :: '\x7d' :: rest)
      ((.word, name) :: (.symbol, closeBrackets) :: contents) :=
  hname.splits hmode (.inl rfl) (splits_close hrest others)

theorem splits_marked {c : Char} (hmark : c = '#' ∨ c = '^' ∨ c = '/' ∨ c = '>')
    (others : Splits .inside rest contents) :
    Splits .text ('\x7b' :: '\x7b' :: c :: rest)
      ((.symbol, openBrackets) :: (.symbol, String.ofList [c]) :: contents) := by
  refine splits_open ?_ (splits_mark hmark others)
  rcases hmark with rfl | rfl | rfl | rfl <;> nofun

theorem splits_literal {text : String} (hclean : Clean (leaf (.literal text)))
    (hrest : Precedes (leaf (.literal text)) rest) (others : Splits .text rest contents) :
    Splits .text (text.toList ++ rest) ((.special, text) :: contents) := by
  have hne : text.toList ≠ [] := by
    intro hempty
    exact hclean.1 (String.toList_eq_nil_iff.mp hempty)
  have hsplits := Splits.text (beforePair_append hclean.2 hrest) hne others
  rw [String.ofList_toList] at hsplits
  exact hsplits

theorem splits_comment {text : String} (hclean : Clean (leaf (.comment text)))
    (hrest : rest.head? ≠ some '\x7d') (others : Splits .text rest contents) :
    Splits .text ('\x7b' :: '\x7b' :: '!' :: (text.toList ++ '\x7d' :: '\x7d' :: rest))
      ((.symbol, openBrackets) :: (.comment, "!" ++ text) :: (.symbol, closeBrackets) ::
        contents) := by
  refine splits_open nofun ?_
  have hwhole : remark ('!' :: text.toList ++ '\x7d' :: '\x7d' :: rest) = '!' :: text.toList := by
    have hmark : '!' ≠ '\x7d' := by decide
    have hbody := beforePair_append hclean.1 (.inr ⟨hclean.2, rest, rfl⟩)
    exact (beforePair_cons hmark _).trans (congrArg ('!' :: ·) hbody)
  have htext : String.ofList ('!' :: text.toList) = "!" ++ text := by
    rw [← String.toList_inj, String.toList_ofList, String.toList_append]
    rfl
  have hsplits := Splits.remark hwhole (splits_close hrest others)
  rw [htext] at hsplits
  exact hsplits

theorem splits_helped {inverted : Bool} {name helper : String}
    (hclean : Clean (opening ⟨inverted, name, some helper⟩)) (hrest : rest.head? ≠ some '\x7d')
    (others : Splits .text rest contents) :
    Splits .text ('\x7b' :: '\x7b' :: '#' ::
        (helper.toList ++ ' ' :: (name.toList ++ '\x7d' :: '\x7d' :: rest)))
      ((.symbol, openBrackets) :: (.symbol, "#") :: (.word, helper) :: (.word, name) ::
        (.symbol, closeBrackets) :: contents) := by
  have hhelper : IsName helper := isName_of_helper (hclean.2 helper rfl)
  have hname := hclean.1.splits_blank (.inl rfl) (splits_close hrest others)
  exact splits_marked (.inl rfl) (hhelper.splits nofun (.inr rfl) hname)

/-- A tag that is clean splits into its pieces. -/
theorem splits {tag : Tag} (hclean : tag.Clean) (hrest : tag.Precedes rest)
    (others : Splits .text rest contents) :
    Splits .text (tag.text.toList ++ rest) (tag.pieces ++ contents) := by
  match tag with
  | leaf (.literal text) => exact splits_literal hclean hrest others
  | leaf (.raw name) =>
    have hsplits := splits_openRaw (hclean.splits nofun (.inl rfl) (splits_closeRaw others))
    simpa [text, pieces, openRawBrackets, closeRawBrackets] using hsplits
  | leaf (.escaped name) =>
    obtain ⟨c, chars, hhead, -, hne, -⟩ := IsName.head hclean
    have hopen : (name.toList ++ '\x7d' :: '\x7d' :: rest).head? ≠ some '\x7b' := by
      rw [hhead]
      rintro ⟨⟩
      exact hne rfl
    have hsplits := splits_open hopen (splits_named hclean hrest others nofun)
    simpa [text, pieces, openBrackets, closeBrackets] using hsplits
  | leaf (.inclusion name) =>
    have hname := hclean.splits_blank (.inl rfl) (splits_close hrest others)
    have hsplits := splits_marked (.inr (.inr (.inr rfl))) hname
    simpa [text, pieces, openBrackets, closeBrackets] using hsplits
  | leaf (.comment text) =>
    have hsplits := splits_comment hclean hrest others
    simpa [Tag.text, pieces, openBrackets, closeBrackets] using hsplits
  | opening ⟨false, name, none⟩ =>
    have hsplits := splits_marked (.inl rfl) (splits_named hclean.1 hrest others nofun)
    simpa [text, pieces, openBrackets, closeBrackets] using hsplits
  | opening ⟨true, name, none⟩ =>
    have hsplits := splits_marked (.inr (.inl rfl)) (splits_named hclean.1 hrest others nofun)
    simpa [text, pieces, openBrackets, closeBrackets] using hsplits
  | opening ⟨inverted, name, some helper⟩ =>
    have hsplits := splits_helped hclean hrest others
    simpa [text, pieces, openBrackets, closeBrackets] using hsplits
  | closing none =>
    have hsplits := splits_marked (.inr (.inr (.inl rfl))) (splits_close hrest others)
    simpa [text, pieces, openBrackets, closeBrackets] using hsplits
  | closing (some name) =>
    have hmode : Mode.inside ≠ .text := nofun
    have hname := splits_named (hclean name rfl) hrest others hmode
    have hsplits := splits_marked (.inr (.inr (.inl rfl))) hname
    simpa [text, pieces, openBrackets, closeBrackets] using hsplits

/-- Every tag but literal text begins with opening brackets. -/
theorem text_eq (tag : Tag) : (∃ text, tag = leaf (.literal text)) ∨
    ∃ more, tag.text.toList = '\x7b' :: '\x7b' :: more := by
  match tag with
  | leaf (.literal text) => exact .inl ⟨text, rfl⟩
  | leaf (.raw _) => exact .inr (by simp [text, openRawBrackets])
  | leaf (.escaped _) | leaf (.inclusion _) | leaf (.comment _) | closing _
  | opening ⟨false, _, none⟩ | opening ⟨true, _, none⟩ | opening ⟨_, _, some _⟩ =>
    exact .inr (by simp [text, openBrackets])

theorem precedes_of_head {tag : Tag} (htag : ∀ text, tag ≠ leaf (.literal text))
    (hrest : rest.head? ≠ some '\x7d') : tag.Precedes rest := by
  unfold Precedes
  split
  · exact (htag _ rfl).elim
  · trivial
  · exact hrest

/-- What meets a tag can stand behind it. -/
theorem precedes_of_meets {tag next : Tag} (hmeets : tag.Meets next) (hclean : next.Clean)
    (rest : List Char) : tag.Precedes (next.text.toList ++ rest) := by
  unfold Meets at hmeets
  split at hmeets
  case h_1 => exact hmeets.elim
  case h_2 text hnext =>
    rcases text_eq next with ⟨other, rfl⟩ | ⟨more, hmore⟩
    · exact (hnext other rfl).elim
    · refine .inr ⟨hmeets, more ++ rest, ?_⟩
      rw [hmore]
      rfl
  case h_3 => trivial
  case h_4 text hliteral _ =>
    have hne : text.toList ≠ [] := fun hempty => hclean.1 (String.toList_eq_nil_iff.mp hempty)
    refine precedes_of_head hliteral ?_
    change (text.toList ++ rest).head? ≠ some '\x7d'
    rw [List.head?_append_of_ne_nil _ hne]
    exact hmeets
  case h_5 hliteral _ hnext _ =>
    refine precedes_of_head hliteral ?_
    rcases text_eq next with ⟨other, rfl⟩ | ⟨more, hmore⟩
    · exact (hnext other rfl).elim
    · rw [hmore]
      nofun

theorem precedes_nil (tag : Tag) : tag.Precedes [] := by
  unfold Precedes
  split
  · exact .inl rfl
  · trivial
  · nofun

/-- Clean tags that meet each other split into their pieces. -/
theorem splits_all {tags : List Tag} (hclean : ∀ tag ∈ tags, tag.Clean)
    (hapart : tags.IsChain Meets) :
    Splits .text (String.join (tags.map text)).toList (tags.flatMap pieces) := by
  induction tags with
  | nil => exact .finish
  | cons tag rest ih =>
    have hrest : tag.Precedes (String.join (rest.map text)).toList := by
      cases rest with
      | nil => exact precedes_nil tag
      | cons next more =>
        have hmeets : tag.Meets next := (List.isChain_cons_cons.mp hapart).1
        have hnext : next.Clean := hclean next (.tail _ List.mem_cons_self)
        rw [List.map_cons, String.join_cons, String.toList_append]
        exact precedes_of_meets hmeets hnext _
    have hothers := ih (fun other hother => hclean other (.tail _ hother)) hapart.tail
    rw [List.map_cons, String.join_cons, String.toList_append, List.flatMap_cons]
    exact splits (hclean tag List.mem_cons_self) hrest hothers

end Tag

end Formulary.Template
