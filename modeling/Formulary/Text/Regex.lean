/-!
# Regular expressions

The part of regular expressions that wildcard patterns are turned into, and what an engine for them
is documented to do. An expression is a row of anchors and of single characters, which may be
repeated. A point stands for any character; it takes line feeds only in a group with the flag `s`.
A text need only hold what the expression describes, unless anchors tie it to the ends of the text.

An engine escapes texts that are to be taken literally and prepares expressions for searching.
`Engine.Documented` is all that is relied on. `library` is an engine for this part of the syntax,
with the limit on the memory of a prepared expression.
-/

namespace Formulary.Text.Regex

inductive One
  | literal (c : Char)
  | point
deriving DecidableEq, Repr

/-- Something that stands for one character, or for any number of them. -/
structure Item where
  one : One
  repeated : Bool
deriving DecidableEq, Repr

/-- A piece of an expression. An item stands inside or outside of a group with the flag `s`. -/
inductive Piece
  | start
  | finish
  | item (lines : Bool) (item : Item)
deriving DecidableEq, Repr

/-! What expressions describe -/

def One.takes (lines : Bool) : One → Char → Bool
  | literal d, c => c == d
  | point, c => lines || c != '\n'

def Item.Takes (lines : Bool) (item : Item) (taken : List Char) : Prop :=
  if item.repeated then ∀ c ∈ taken, item.one.takes lines c = true
  else ∃ c, taken = [c] ∧ item.one.takes lines c = true

/-- What an expression describes begins at a place: at the start of the text or not, with the given
characters ahead. -/
inductive MatchesAt : List Piece → Bool → List Char → Prop
  | nil (atStart ahead) : MatchesAt [] atStart ahead
  | start {pieces ahead} (others : MatchesAt pieces true ahead) :
    MatchesAt (.start :: pieces) true ahead
  | finish {pieces atStart} (others : MatchesAt pieces atStart []) :
    MatchesAt (.finish :: pieces) atStart []
  | item {lines item pieces atStart taken ahead} (first : item.Takes lines taken)
    (others : MatchesAt pieces (atStart && taken.isEmpty) ahead) :
    MatchesAt (.item lines item :: pieces) atStart (taken ++ ahead)

/-- A text holds what an expression describes. -/
def Found (pieces : List Piece) (text : List Char) : Prop :=
  ∃ before ahead, text = before ++ ahead ∧ MatchesAt pieces before.isEmpty ahead

/-! How expressions are written -/

/-- Whether a character has a meaning of its own in expressions. -/
def isMeta (c : Char) : Bool := "\\.+*?()|[]\x7b\x7d^$#&-~".toList.contains c

/-- The characters write a character that is to be taken literally. -/
inductive Literal : Char → List Char → Prop
  | plain {c} (h : isMeta c = false) : Literal c [c]
  | escaped {c} (h : isMeta c = true) : Literal c ['\\', c]

inductive Literals : List Char → List Char → Prop
  | nil : Literals [] []
  | cons {c cs word words} (first : Literal c word) (others : Literals cs words) :
    Literals (c :: cs) (word ++ words)

inductive One.Written : One → List Char → Prop
  | literal {c word} (h : Literal c word) : Written (.literal c) word
  | point : Written .point ['.']

/-- The characters write the pieces of an expression, from inside or outside of a group with the
flag `s`. -/
inductive Writes : Bool → List Piece → List Char → Prop
  | nil : Writes false [] []
  | start {lines pieces words} (others : Writes lines pieces words) :
    Writes lines (.start :: pieces) ('^' :: words)
  | finish {lines pieces words} (others : Writes lines pieces words) :
    Writes lines (.finish :: pieces) ('$' :: words)
  | once {lines one word pieces words} (first : One.Written one word)
    (others : Writes lines pieces words) :
    Writes lines (.item lines ⟨one, false⟩ :: pieces) (word ++ words)
  | repeated {lines one word pieces words} (first : One.Written one word)
    (others : Writes lines pieces words) :
    Writes lines (.item lines ⟨one, true⟩ :: pieces) (word ++ '*' :: words)
  | enter {pieces words} (others : Writes true pieces words) :
    Writes false pieces ('(' :: '?' :: 's' :: ':' :: words)
  | leave {pieces words} (others : Writes false pieces words) :
    Writes true pieces (')' :: words)

/-! Engines -/

inductive Fault
  | tooLarge (limit : Nat)
  | unsupported
deriving DecidableEq, Repr

/-- An engine: how it escapes a text, and how it prepares an expression for searching texts. -/
structure Engine where
  escape : String → String
  prepare : String → Except Fault (String → Bool)

/-- What an engine is documented to do: an escaped text is taken literally, and a prepared
expression finds the texts that hold what it describes. -/
structure Engine.Documented (engine : Engine) : Prop where
  escape : ∀ text, Literals text.toList (engine.escape text).toList
  search : ∀ expression pieces search, Writes false pieces expression.toList →
    engine.prepare expression = .ok search → ∀ text, search text = true ↔ Found pieces text.toList

/-! Reading expressions -/

def escapeChar (c : Char) : List Char := if isMeta c then ['\\', c] else [c]

def parseOne : List Char → Option (One × List Char)
  | [] => none
  | c :: rest =>
    if c = '.' then some (.point, rest)
    else if c = '\\' then
      match rest with
      | d :: rest => if isMeta d then some (.literal d, rest) else none
      | [] => none
    else if isMeta c then none
    else some (.literal c, rest)

theorem parseOne_length {cs rest : List Char} {one : One} (h : parseOne cs = some (one, rest)) :
    rest.length < cs.length := by
  unfold parseOne at h
  split at h
  · cases h
  · split at h
    · cases h
      simp
    · split at h
      · split at h
        · split at h
          · cases h
            simp only [List.length_cons]
            omega
          · cases h
        · cases h
      · split at h
        · cases h
        · cases h
          simp

/-- The pieces that the rest of an expression writes, from inside or outside of a group with the
flag `s`. -/
def parse (lines : Bool) (cs : List Char) : Option (List Piece) :=
  match cs with
  | [] => if lines then none else some []
  | c :: rest =>
    if c = '^' then (parse lines rest).map (.start :: ·)
    else if c = '$' then (parse lines rest).map (.finish :: ·)
    else if c = ')' then if lines then parse false rest else none
    else if c = '(' then
      match lines, rest with
      | false, '?' :: 's' :: ':' :: rest => parse true rest
      | _, _ => none
    else
      match _ : parseOne (c :: rest) with
      | none => none
      | some (one, '*' :: rest) => (parse lines rest).map (.item lines ⟨one, true⟩ :: ·)
      | some (one, rest) => (parse lines rest).map (.item lines ⟨one, false⟩ :: ·)
termination_by cs.length
decreasing_by
  all_goals first
    | (simp only [List.length_cons]; omega)
    | (have hlength := parseOne_length ‹_›; simp only [List.length_cons] at hlength ⊢; omega)

/-! Searching -/

/-- For every end of an expression, the longest first, whether what it describes begins at the end
of a text. -/
def endRow (atStart : Bool) : List Piece → List Bool
  | [] => [true]
  | piece :: pieces =>
    let row := endRow atStart pieces
    let answer := match piece with
      | .start => atStart && row.headD false
      | .finish => row.headD false
      | .item _ item => item.repeated && row.headD false
    answer :: row

/-- For every end of an expression, whether what it describes begins in front of one more character,
from the answers behind that character. -/
def stepRow (atStart : Bool) (c : Char) : List Piece → List Bool → List Bool
  | piece :: pieces, answer :: answers =>
    let row := stepRow atStart c pieces answers
    let answer := match piece with
      | .start => atStart && row.headD false
      | .finish => false
      | .item lines item =>
        if item.repeated then row.headD false || (item.one.takes lines c && answer)
        else item.one.takes lines c && answers.headD false
    answer :: row
  | _, _ => [true]

/-- The answers in front of the rest of a text that is not the whole text, and whether what the
expression describes begins there or later. -/
def behind (pieces : List Piece) (rest : List Char) : List Bool × Bool :=
  rest.foldr
    (fun c (row, found) =>
      let row := stepRow false c pieces row
      (row, found || row.headD false))
    (endRow false pieces, (endRow false pieces).headD false)

def search (pieces : List Piece) : List Char → Bool
  | [] => (endRow true pieces).headD false
  | c :: rest =>
    let (row, found) := behind pieces rest
    found || (stepRow true c pieces row).headD false

/-! The memory of a prepared expression

A prepared expression consists of states that each read one byte of a text or branch. It is prepared
twice, to read a text from its start and from its end. -/

def stateBytes : Nat := 32

/-- Bytes that the states for any one character take, read from its first byte: nine states with
sixteen arcs of eight bytes. -/
def anyForward : Nat := 9 * stateBytes + 16 * 8

/-- Bytes that the states for any one character take, read from its last byte: two states, nine
branches of four bytes and a state for each byte of a branch. -/
def anyBackward : Nat := 2 * stateBytes + 9 * 4 + 27 * stateBytes

/-- Bytes that what stands for one character takes where any character takes `any`. A character of
its own has a state for each of its bytes. -/
def One.bytes (any : Nat) : One → Nat
  | literal c => c.utf8Size * stateBytes
  | point => any

/-- Bytes that a piece takes. A repetition adds a state with two branches. -/
def Piece.bytes (any : Nat) : Piece → Nat
  | start | finish => stateBytes
  | item _ i => i.one.bytes any + if i.repeated then stateBytes + 2 * 4 else 0

def memory (any : Nat) : List Piece → Nat
  | [] => 0
  | piece :: pieces => piece.bytes any + memory any pieces

/-- The most bytes that a prepared expression may take. -/
def memoryLimit : Nat := 10485760

/-- Whether an expression is small enough to be prepared. Four states frame the form that reads from
the start, and two the other. -/
def fits (pieces : List Piece) : Bool :=
  4 * stateBytes + memory anyForward pieces ≤ memoryLimit &&
    2 * stateBytes + memory anyBackward pieces ≤ memoryLimit

/-- Whether the memory of a piece is known: its point, if it is one, takes line feeds. -/
def Piece.isMeasured : Piece → Bool
  | start | finish => true
  | item lines i => lines || i.one != .point

/-- The engine for expressions that are tied to the start of a text and whose points take line
feeds. -/
def library : Engine where
  escape text := String.ofList (text.toList.flatMap escapeChar)
  prepare expression :=
    match parse false expression.toList with
    | some (.start :: pieces) =>
      if !pieces.all Piece.isMeasured then .error .unsupported
      else if fits (.start :: pieces) then .ok fun text => search (.start :: pieces) text.toList
      else .error (.tooLarge memoryLimit)
    | _ => .error .unsupported

end Formulary.Text.Regex
