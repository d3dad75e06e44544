import Formulary.Proofs.Template.Nesting
import Formulary.Proofs.Template.Splitting

/-!
# Reading a template that was written

The pieces of a tag are read as that tag, and the tags of a section as that section, whatever is
open around it. A template that is written is therefore read as it was thought of.
-/

namespace Formulary.Template

/-! Tokens to tags -/

theorem map_content_eq_cons_iff {tokens : List Token} {kind : TokenKind} {text : String}
    {contents : List (TokenKind × String)} :
    tokens.map Token.content = (kind, text) :: contents ↔
      ∃ place rest, tokens = ⟨kind, text, place⟩ :: rest ∧ rest.map Token.content = contents := by
  constructor
  · intro h
    cases tokens with
    | nil => cases h
    | cons token rest =>
      obtain ⟨kind', text', place⟩ := token
      cases h
      exact ⟨place, rest, rfl, rfl⟩
  · rintro ⟨place, rest, rfl, rfl⟩
    rfl

namespace Tag

theorem commentText_mark (text : String) : commentText ("!" ++ text) = text := by
  rw [commentText, String.toList_append]
  exact String.ofList_toList

theorem openingOf_plain (first : String) (token : Token) (htoken : token.kind ≠ .word)
    (rest : List Token) :
    openingOf first (token :: rest) = (opening ⟨false, first, none⟩, token :: rest) := by
  have hname : nameAhead (token :: rest) = (none, token :: rest) := if_neg htoken
  rw [openingOf, hname]
  cases helper? first <;> rfl

theorem openingOf_helper {first : String} {inverted : Bool} (h : helper? first = some inverted)
    (name : String) (place : Position) (rest : List Token) :
    openingOf first (⟨.word, name, place⟩ :: rest) =
      (opening ⟨inverted, name, some first⟩, rest) := by
  rw [openingOf, h]
  rfl

/-- A clean tag is read from the tokens that it is written as. -/
theorem next_of_pieces {tag : Tag} (hclean : tag.Clean) {tokens : List Token}
    {contents : List (TokenKind × String)} (h : tokens.map Token.content = tag.pieces ++ contents) :
    ∃ token more rest, tokens = token :: more ∧ next token more = .ok (tag, rest) ∧
      rest.map Token.content = contents := by
  match tag with
  | leaf (.literal text) =>
    simp only [pieces, List.cons_append, List.nil_append, map_content_eq_cons_iff] at h
    obtain ⟨_, rest, rfl, h⟩ := h
    exact ⟨_, _, rest, rfl, rfl, h⟩
  | leaf (.raw name) | leaf (.escaped name) | closing none =>
    simp only [pieces, List.cons_append, List.nil_append, map_content_eq_cons_iff] at h
    obtain ⟨_, _, rfl, _, _, rfl, _, rest, rfl, h⟩ := h
    exact ⟨_, _, rest, rfl, rfl, h⟩
  | leaf (.inclusion name) | opening ⟨true, name, none⟩ | closing (some name) =>
    simp only [pieces, List.cons_append, List.nil_append, map_content_eq_cons_iff] at h
    obtain ⟨_, _, rfl, _, _, rfl, _, _, rfl, _, rest, rfl, h⟩ := h
    exact ⟨_, _, rest, rfl, rfl, h⟩
  | leaf (.comment text) =>
    simp only [pieces, List.cons_append, List.nil_append, map_content_eq_cons_iff] at h
    obtain ⟨_, _, rfl, _, _, rfl, _, rest, rfl, h⟩ := h
    refine ⟨_, _, rest, rfl, ?_, h⟩
    change Except.ok (leaf (.comment (commentText ("!" ++ text))), rest) = _
    rw [commentText_mark]
  | opening ⟨false, name, none⟩ =>
    simp only [pieces, List.cons_append, List.nil_append, map_content_eq_cons_iff] at h
    obtain ⟨_, _, rfl, _, _, rfl, _, _, rfl, place, rest, rfl, h⟩ := h
    refine ⟨_, _, rest, rfl, ?_, h⟩
    have hopening : openingOf name (⟨.symbol, closeBrackets, place⟩ :: rest) = _ :=
      openingOf_plain name _ TokenKind.noConfusion rest
    change (close closeBrackets (openingOf name _).2).map ((openingOf name _).1, ·) = _
    rw [hopening]
    rfl
  | opening ⟨inverted, name, some helper⟩ =>
    simp only [pieces, List.cons_append, List.nil_append, map_content_eq_cons_iff] at h
    obtain ⟨_, _, rfl, _, _, rfl, _, _, rfl, place, _, rfl, _, rest, rfl, h⟩ := h
    refine ⟨_, _, rest, rfl, ?_, h⟩
    have hopening := openingOf_helper (hclean.2 helper rfl) name place
    change (close closeBrackets (openingOf helper _).2).map ((openingOf helper _).1, ·) = _
    rw [hopening]
    rfl

/-- Clean tags are read from the tokens that they are written as, in order. -/
theorem ofTokens_of_pieces {tags : List Tag} (hclean : ∀ tag ∈ tags, tag.Clean)
    {tokens : List Token} (h : tokens.map Token.content = tags.flatMap pieces) :
    ∃ placed, ofTokens tokens = .ok placed ∧ placed.map (·.content) = tags := by
  induction tags generalizing tokens with
  | nil =>
    cases List.map_eq_nil_iff.mp h
    exact ⟨[], by rw [ofTokens], rfl⟩
  | cons tag tags ih =>
    obtain ⟨token, more, rest, rfl, hnext, hrest⟩ :=
      next_of_pieces (hclean tag List.mem_cons_self) h
    obtain ⟨placed, hplaced, htags⟩ :=
      ih (fun other hother => hclean other (.tail _ hother)) hrest
    refine ⟨⟨tag, token.position⟩ :: placed, ?_, by rw [List.map_cons, htags]⟩
    rw [ofTokens]
    split
    · next hfault =>
      rw [hnext] at hfault
      cases hfault
    · next hread =>
      rw [hnext] at hread
      cases hread
      rw [hplaced]
      rfl

end Tag

/-! Tags to nodes -/

namespace Node

mutual

/-- The tags of a draft nest to one node. -/
theorem nests_tags : ∀ (draft : Draft) (front : List (Placed Tag)), draft.Closed →
    front.map (·.content) = draft.tags →
    ∃ node : Node, Nests front [node] ∧ node.draft = draft.bare
  | .leaf l, _, _, hfront => by
    obtain ⟨⟨tag, p⟩, rfl, htag⟩ := List.map_eq_singleton_iff.mp hfront
    cases htag
    exact ⟨.leaf ⟨l, p⟩, .leaf .nil, rfl⟩
  | .block o closing body, _, hclosed, hfront => by
    obtain ⟨⟨tag, p⟩, others, rfl, htag, hothers⟩ := List.map_eq_cons_iff.mp hfront
    cases htag
    obtain ⟨inner, ends, rfl, hinner, hends⟩ := List.map_eq_append_iff.mp hothers
    obtain ⟨⟨last, q⟩, rfl, hlast⟩ := List.map_eq_singleton_iff.mp hends
    cases hlast
    obtain ⟨nodes, hnodes, hdrafts⟩ := nests_tagsOfAll body inner hclosed.2 hinner
    exact ⟨.block ⟨o, p⟩ nodes, .block hclosed.1 hnodes .nil, by
      rw [Node.draft, hdrafts, Draft.bare]⟩

/-- The tags of drafts nest to nodes side by side. -/
theorem nests_tagsOfAll : ∀ (drafts : List Draft) (front : List (Placed Tag)),
    Draft.AllClosed drafts → front.map (·.content) = Draft.tagsOfAll drafts →
    ∃ nodes, Nests front nodes ∧ draftOfAll nodes = Draft.bareOfAll drafts
  | [], _, _, hfront => by
    cases List.map_eq_nil_iff.mp hfront
    exact ⟨[], .nil, rfl⟩
  | draft :: drafts, _, hclosed, hfront => by
    obtain ⟨first, others, rfl, hfirst, hothers⟩ := List.map_eq_append_iff.mp hfront
    obtain ⟨node, hnode, hdraft⟩ := nests_tags draft first hclosed.1 hfirst
    obtain ⟨nodes, hnodes, hdrafts⟩ := nests_tagsOfAll drafts others hclosed.2 hothers
    exact ⟨node :: nodes, hnode.append hnodes, by
      rw [draftOfAll, hdraft, hdrafts, Draft.bareOfAll]⟩

end

theorem ofTags_of_closed {drafts : List Draft} (hclosed : Draft.AllClosed drafts)
    {tags : List (Placed Tag)} (h : tags.map (·.content) = Draft.tagsOfAll drafts) :
    ∃ nodes, ofTags tags = .ok nodes ∧ draftOfAll nodes = Draft.bareOfAll drafts := by
  obtain ⟨nodes, hnodes, hdrafts⟩ := nests_tagsOfAll drafts tags hclosed h
  exact ⟨nodes, ofTags_of_nests hnodes, hdrafts⟩

end Node

/-- A template that is written tag by tag is read back: its tags are those that were written, and
its nodes are the drafts, whichever way each section was ended. -/
theorem read_textOfAll {drafts : List Draft} (h : Draft.Writable drafts) :
    ∃ t, read (Draft.textOfAll drafts) = .ok t ∧
      t.tags.map (·.content) = Draft.tagsOfAll drafts ∧
      Node.draftOfAll t.nodes = Draft.bareOfAll drafts := by
  have hstart : (lexer.start (.ofText (Draft.textOfAll drafts))).Stands .text
      (Draft.textOfAll drafts).toList := ⟨rfl, rfl, rfl, _, rfl, rfl⟩
  obtain ⟨tokens, htokens, hpieces⟩ := (Tag.splits_all h.clean h.apart).tokens hstart
  obtain ⟨tags, htags, hcontents⟩ := Tag.ofTokens_of_pieces h.clean hpieces
  obtain ⟨nodes, hnodes, hdrafts⟩ := Node.ofTags_of_closed h.closed hcontents
  refine ⟨⟨Draft.textOfAll drafts, tokens, tags, nodes⟩, ?_, hcontents, hdrafts⟩
  have hresult : (lexer.tokenize (Draft.textOfAll drafts)).result = .ok tokens := htokens
  simp only [read, hresult, Except.mapError, htags, hnodes, bind, Except.bind, pure, Except.pure]

/-- What is hard to tell apart: braces beside brackets, a helper closed by its own name in other
letters, a comment that ends with a brace of the other kind. -/
theorem read_textOfAll_braces :
    let drafts : List Draft := [
      .block ⟨false, "x", some "If"⟩ (some "IF")
        [.leaf (.raw "y.z"), .leaf (.literal "\x7d")],
      .leaf (.comment "\x7b"),
      .leaf (.literal "\x7b")]
    Draft.textOfAll drafts = "\x7b\x7b#If x\x7d\x7d" ++ "\x7b\x7b\x7by.z\x7d\x7d\x7d\x7d" ++
        "\x7b\x7b/IF\x7d\x7d" ++ "\x7b\x7b!\x7b\x7d\x7d" ++ "\x7b" ∧
      Draft.Writable drafts ∧
      ∃ t, read (Draft.textOfAll drafts) = .ok t ∧
        t.tags.map (·.content) = Draft.tagsOfAll drafts ∧
        Node.draftOfAll t.nodes = Draft.bareOfAll drafts := by
  intro drafts
  have hwritable : Draft.Writable drafts := {
    clean := by
      have hopening : (Tag.opening ⟨false, "x", some "If"⟩).Clean :=
        ⟨⟨'x', [], rfl, rfl⟩, by rintro helper ⟨⟩; rfl⟩
      have hraw : (Tag.leaf (.raw "y.z")).Clean := ⟨'y', ['.', 'z'], rfl, rfl⟩
      have hclosing : (Tag.closing (some "IF")).Clean := by
        rintro name ⟨⟩
        exact ⟨'I', ['F'], rfl, rfl⟩
      have hcomment : (Tag.leaf (.comment "\x7b")).Clean := ⟨by decide, by decide⟩
      have hclose : (Tag.leaf (.literal "\x7d")).Clean := ⟨by decide, by decide⟩
      have hopen : (Tag.leaf (.literal "\x7b")).Clean := ⟨by decide, by decide⟩
      rintro tag (_ | ⟨_, _ | ⟨_, _ | ⟨_, _ | ⟨_, _ | ⟨_, _ | ⟨_, ⟨⟩⟩⟩⟩⟩⟩⟩)
      all_goals assumption
    apart := by
      have hbefore : "\x7d".toList.getLast? ≠ some '\x7b' := by decide
      have hbehind : "\x7b".toList.head? ≠ some '\x7d' := by decide
      exact .cons_cons trivial (.cons_cons trivial (.cons_cons hbefore
        (.cons_cons trivial (.cons_cons hbehind (.singleton _)))))
    closed := ⟨⟨rfl, trivial, trivial, trivial⟩, trivial, trivial, trivial⟩ }
  exact ⟨rfl, hwritable, read_textOfAll hwritable⟩

end Formulary.Template
