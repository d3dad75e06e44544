import Mathlib.Data.List.Induction
import Formulary.Desk
import Formulary.Proofs.Registry.Listing

/-!
# What a desk remembers

A desk is asked to do one thing after another. Whatever came before, its document is that of the
text that was set last, as a new desk would have it, and as a parser has it in whatever state the
text finds the parser: nothing is left of an earlier text, and of a text that cannot be read there
is nothing but the text, wherever the reading failed. Variables are never touched by a text except
that names without an entry get one, behind all others.
-/

namespace Formulary

namespace Parser

variable {σ ρ δ α : Type}

/-- What a parser is left with when a text is read: what there is of the document, or nothing but
the text. -/
def outcome (view : δ → Parser σ ρ) (text : String) :
    Except Error δ → Except Error Unit × Parser σ ρ
  | .ok document => (.ok (), view document)
  | .error e => (.error e, blank text)

/-- A stage that answers goes on as reading goes on, and one that fails is settled as reading
fails. -/
theorem settle_stage {view : δ → Parser σ ρ} {p : Parser σ ρ} (x : Except Error α)
    {next : α → Stage σ ρ Unit} {read : α → Except Error δ}
    (h : ∀ a, x = .ok a → settle ((next a).run.run p) = outcome view p.text (read a)) :
    settle (((liftM x : Stage σ ρ α) >>= next).run.run p) =
      outcome view p.text (x.bind read) := by
  cases x with
  | error e => rfl
  | ok a => exact h a rfl

end Parser

/-- What documents of a kind have to do with their texts: reading in one go makes what the stages of
a parser make, in whatever state the parser is. -/
class LawfulDocument (δ : Type) {σ ρ : outParam Type} [Document δ σ ρ] : Prop where
  set_eq : ∀ (p : Parser σ ρ) (text : String), p.set (Document.stages δ) text =
    Parser.outcome Document.parser text (Document.read text : Except Error δ)
  text_of_read : ∀ {text} {document : δ},
    Document.read text = .ok document → (Document.parser document).text = text
  parser_blank : ∀ text, Document.parser (Document.blank text : δ) = .blank text
  firstSpellings_names : ∀ document : δ,
    firstSpellings (Document.parser document).names = (Document.parser document).names

namespace Desk

/-- Something that a desk is asked to do. The variables are in the hands of those who use the desk
and can be changed in any way. -/
inductive Request
  | setText (text : String)
  | setDeclares (declares : Bool)
  | declare
  | changeVars (change : Variables → Variables)

namespace Request

def text? : Request → Option String
  | setText text => some text
  | _ => none

/-- Whether the variables are left in the hands of the desk. -/
def keepsVars : Request → Bool
  | changeVars _ => false
  | _ => true

end Request

def texts (requests : List Request) : List String := requests.filterMap Request.text?

variable {δ σ ρ : Type} [Document δ σ ρ]

def perform (d : Desk δ) : Request → Desk δ
  | .setText text => (d.setText text).2
  | .setDeclares declares => { d with declares := declares }
  | .declare => d.declare
  | .changeVars change => { d with vars := change d.vars }

def after (d : Desk δ) (requests : List Request) : Desk δ := requests.foldl perform d

/-- What it means that a desk sets a text. -/
structure Sets (before : Desk δ) (text : String) (answer : Except Error Unit)
    (after : Desk δ) : Prop where
  answered : answer = (Document.read text : Except Error δ).map fun _ => ()
  spelled : after.parser.text = text
  read : ∀ document, Document.read text = .ok document → after.document = document
  emptied : ∀ e, answer = .error e → after.parser = .blank text
  parsed : ∀ p : Parser σ ρ, p.set (Document.stages δ) text = (answer, after.parser)
  declares : after.declares = before.declares
  failed : ∀ e, answer = .error e → after.vars = before.vars
  undeclared : before.declares = false → after.vars = before.vars
  declared : answer = .ok () → before.declares = true → after.vars.toList = before.vars.toList ++
    (after.parser.names.filter before.vars.lacks).map (⟨·, none⟩)

variable {d : Desk δ} {text : String}

/-! What it does to the document -/

/-- A text that can be read puts its document on the desk, and its names behind the variables if
names are declared. -/
theorem setText_of_ok {document : δ} (h : Document.read text = .ok document) :
    d.setText text = (.ok (), { d with
      document := document
      vars := if d.declares then d.vars.locateAll (Document.parser document).names
        else d.vars }) := by
  rw [setText, h]
  dsimp only
  by_cases hon : d.declares = true
  · rw [if_pos hon, if_pos hon]
    rfl
  · rw [if_neg hon, if_neg hon]

theorem setText_of_error {e : Error} (h : (Document.read text : Except Error δ) = .error e) :
    d.setText text = (.error e, { d with document := Document.blank text }) := by
  rw [setText, h]

theorem document_setText (d : Desk δ) (text : String) :
    (d.setText text).2.document = (new.setText text : _ × Desk δ).2.document := by
  cases hread : (Document.read text : Except Error δ) with
  | error e => rw [setText_of_error hread, setText_of_error hread]
  | ok document => rw [setText_of_ok hread, setText_of_ok hread]

theorem Sets.vars_isPrefix {answer : Except Error Unit} {after : Desk δ}
    (h : Sets d text answer after) : d.vars.toList <+: after.vars.toList := by
  cases answer with
  | error e => exact ⟨[], by rw [List.append_nil, h.failed e rfl]⟩
  | ok u =>
    by_cases hon : d.declares = true
    · exact ⟨_, (h.declared rfl hon).symm⟩
    · exact ⟨[], by rw [List.append_nil, h.undeclared (Bool.eq_false_iff.mpr hon)]⟩

theorem after_concat (d : Desk δ) (requests : List Request) (request : Request) :
    d.after (requests ++ [request]) = (d.after requests).perform request := by
  rw [after, List.foldl_append]
  rfl

theorem getLast?_texts_concat (requests : List Request) (request : Request) :
    (texts (requests ++ [request])).getLast? = request.text?.or (texts requests).getLast? := by
  rw [texts, texts, List.filterMap_append, List.getLast?_append]
  cases request <;> rfl

/-- The document is that of the text that was set last, as a new desk has it. -/
theorem document_after (requests : List Request) :
    (new.after requests : Desk δ).document =
      (texts requests).getLast?.elim (Document.blank "") fun text =>
        (new.setText text : _ × Desk δ).2.document := by
  induction requests using List.reverseRecOn with
  | nil => rfl
  | append_singleton requests request ih =>
    rw [after_concat, getLast?_texts_concat]
    cases request with
    | setText text => exact document_setText (new.after requests) text
    | setDeclares | declare | changeVars => exact ih

/-! What it does to the variables -/

variable [LawfulDocument δ]

/-- The names of a document that are not declared come behind the variables that are there. -/
theorem toList_declare (d : Desk δ) :
    d.declare.vars.toList =
      d.vars.toList ++ (d.parser.names.filter d.vars.lacks).map (⟨·, none⟩) := by
  have hnames : firstSpellings d.parser.names = d.parser.names :=
    LawfulDocument.firstSpellings_names d.document
  rw [declare, Variables.toList_locateAll, hnames]

/-- Whatever is on the desk and whatever the text is, setting the text is what it is meant to be. -/
theorem sets_setText (d : Desk δ) (text : String) :
    Sets d text (d.setText text).1 (d.setText text).2 := by
  cases hread : (Document.read text : Except Error δ) with
  | error e =>
    have hblank : Document.parser (Document.blank text : δ) = .blank text :=
      LawfulDocument.parser_blank text
    rw [setText_of_error hread]
    exact {
      answered := by rw [hread]; rfl
      spelled := congrArg Parser.text hblank
      read := fun document h => by cases hread.symm.trans h
      emptied := fun _ _ => hblank
      parsed := fun p => by
        rw [LawfulDocument.set_eq, hread, parser, hblank]
        rfl
      declares := rfl
      failed := fun _ _ => rfl
      undeclared := fun _ => rfl
      declared := fun hanswer _ => by cases hanswer }
  | ok document =>
    rw [setText_of_ok hread]
    exact {
      answered := by rw [hread]; rfl
      spelled := LawfulDocument.text_of_read hread
      read := fun other h => Except.ok.inj (hread.symm.trans h)
      emptied := fun _ hanswer => by cases hanswer
      parsed := fun p => by
        rw [LawfulDocument.set_eq, hread]
        rfl
      declares := rfl
      failed := fun _ hanswer => by cases hanswer
      undeclared := fun hoff => if_neg (Bool.eq_false_iff.mp hoff)
      declared := fun _ hon => by
        rw [if_pos hon]
        exact toList_declare { d with document := document } }

/-- What the desk does by itself leaves the variables that are there in their places. -/
theorem vars_perform (d : Desk δ) {request : Request} (h : request.keepsVars = true) :
    d.vars.toList <+: (d.perform request).vars.toList := by
  cases request with
  | setText text => exact (sets_setText d text).vars_isPrefix
  | setDeclares declares => exact List.prefix_rfl
  | declare => exact ⟨_, d.toList_declare.symm⟩
  | changeVars change => cases h

/-- As long as nobody else changes the variables, none of them is renamed, moved or given another
value. -/
theorem vars_after (d : Desk δ) {requests : List Request}
    (h : ∀ request ∈ requests, request.keepsVars = true) :
    d.vars.toList <+: (d.after requests).vars.toList := by
  induction requests using List.reverseRecOn with
  | nil => exact List.prefix_rfl
  | append_singleton requests request ih =>
    have hfront := ih fun other hother => h other (List.mem_append_left _ hother)
    have hlast := h request (List.mem_append_right _ List.mem_cons_self)
    rw [after_concat]
    exact hfront.trans (vars_perform _ hlast)

end Desk

end Formulary
