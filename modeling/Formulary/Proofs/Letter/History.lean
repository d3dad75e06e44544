import Formulary.Letter
import Formulary.Proofs.Desk.History
import Formulary.Proofs.Template.Dependence

/-!
# What a letter remembers

A letter is asked to do one thing after another. Its template is that of the text that was set last,
as a new letter would have it, wherever the reading of an earlier or of this text failed: in its
characters, in its tags or in its sections. Setting a text leaves alone the variables that are
there; it adds the names of the template that are not declared in any spelling, without a value and
behind all others, if the text can be read and the letter declares names.
-/

namespace Formulary

namespace Template

theorem text_of_read {text : String} {t : Template} (h : read text = .ok t) : t.text = text := by
  obtain ⟨tokens, -, h⟩ := of_bind_ok h
  obtain ⟨tags, -, h⟩ := of_bind_ok h
  obtain ⟨nodes, -, h⟩ := of_bind_ok h
  cases h
  rfl

theorem firstSpellings_variableNames (t : Template) :
    firstSpellings t.variableNames = t.variableNames := by
  rw [variableNames_eq]
  exact firstSpellings_eq_self (pairwise_firstSpellings _)

theorem set_stages (p : Parser Tag Node) (text : String) :
    p.set stages text = Parser.outcome parser text (read text) := by
  refine Parser.settle_stage ((lexer.tokenize text).result.mapError .lex) fun tokens _ => ?_
  refine Parser.settle_stage ((Tag.ofTokens tokens).mapError _) fun tags _ => ?_
  exact Parser.settle_stage ((Node.ofTags tags).mapError .parse) fun nodes _ => rfl

instance : LawfulDocument Template where
  set_eq := set_stages
  text_of_read := text_of_read
  parser_blank _ := rfl
  firstSpellings_names := firstSpellings_variableNames

end Template

namespace Letter

open Desk

/-- What it means that a letter sets a text: its desk does. The outline of a template that cannot be
read has a heading for the whole and nothing in it. -/
structure Sets (before : Letter) (text : String) (answer : Except Error Unit)
    (after : Letter) : Prop extends Desk.Sets before text answer after where
  cleared : ∀ e, answer = .error e → after.document.tokens = [] ∧ after.document.tags = [] ∧
    Template.Node.outline after.document.nodes = [⟨none, []⟩] ∧ after.document.variableNames = []

theorem sets_setText (l : Letter) (text : String) :
    Sets l text (l.setText text).1 (l.setText text).2 := by
  have hdesk := Desk.sets_setText l text
  refine { hdesk with cleared := fun e he => ?_ }
  have hblank := hdesk.emptied e he
  have hnodes : (l.setText text).2.document.nodes = [] := congrArg Parser.result hblank
  exact ⟨congrArg Parser.tokens hblank, congrArg Parser.signs hblank,
    congrArg Template.Node.outline hnodes, congrArg Parser.names hblank⟩

/-- A letter that was asked anything has the template of a new one that sets the last text. When it
sets a text then, the text decides about the template, and nothing is left of the one before, in
whatever stage reading fails; whether it declares names stays as it was, and the variables too but
for the names that are declared behind them. As long as nobody else changes the variables, none of
them is ever renamed, moved or given another value. -/
theorem after_setText (requests : List Desk.Request) :
    let l : Letter := new.after requests
    (l.document = (texts requests).getLast?.elim (.blank "") fun text =>
      (new.setText text : _ × Letter).2.document) ∧
    (∀ text, Sets l text (l.setText text).1 (new.after (requests ++ [.setText text]))) ∧
    ∀ more : List Desk.Request,
      l.vars.toList <+: (l.after (more.filter Desk.Request.keepsVars)).vars.toList := by
  refine ⟨document_after requests, fun text => ?_, fun more => ?_⟩
  · rw [after_concat]
    exact sets_setText _ text
  · exact vars_after _ fun request hrequest => (List.mem_filter.mp hrequest).2

end Letter

end Formulary
