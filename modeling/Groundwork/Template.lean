import Groundwork.Data.Value
import Groundwork.Json.Writer
import Groundwork.Text.Blank
import Groundwork.Text.Search

/-!
# Templates: tokens inside texts

A text may hold tokens: an expression between delimiters, written with two braces on either side after a
dollar sign, or with one.  `Template.parse` cuts a text into literal pieces and expressions.  A dollar sign
in front of an opener makes it literal; an opener whose end is missing is literal too, with all that
follows it.

`mapExpressions` puts values in the place of tokens throughout a value, `visitExpressions` lists the
expressions it would ask for, and `unescape` turns literal openers into what they stand for.

Main statements: a token is cut off the front of a text without loss (`takeToken_length`).
-/

namespace Groundwork

/-- A piece of a text. -/
inductive Segment where
  /-- Literal text. -/
  | text (s : String)
  /-- The expression of a token, without blanks at its ends. -/
  | expr (s : String)
  deriving DecidableEq, Repr, Inhabited

namespace Template

/-- The text up to the brace that closes a token written with one brace, and the text after that brace.
Braces inside nest; those inside quotation marks do not count.  The state is the number of open braces and
the quotation mark in force. -/
def takeBraced (depth : Nat) : Option Char → List Char → Option (List Char × List Char)
  | _, [] => none
  | some _, ['\\'] => none
  | some q, '\\' :: c :: cs => (takeBraced depth (some q) cs).map fun p => ('\\' :: c :: p.1, p.2)
  | some q, c :: cs =>
      (takeBraced depth (if c = q then none else some q) cs).map fun p => (c :: p.1, p.2)
  | none, c :: cs =>
      let keep (p : List Char × List Char) := (c :: p.1, p.2)
      if c = '"' ∨ c = '\'' then (takeBraced depth (some c) cs).map keep
      else if c = '\x7b' then (takeBraced (depth + 1) none cs).map keep
      else if c = '\x7d' then
        match depth with
        | 0 => some ([], cs)
        | depth + 1 => (takeBraced depth none cs).map keep
      else (takeBraced depth none cs).map keep

/-- The inside of the token whose dollar sign and first brace have just been read, and the text after it. -/
def takeToken : List Char → Option (List Char × List Char)
  | '\x7b' :: cs => Text.cut ['\x7d', '\x7d'] cs
  | cs => takeBraced 0 none cs

theorem takeBraced_length {depth : Nat} {q : Option Char} {s a b : List Char}
    (h : takeBraced depth q s = some (a, b)) : b.length < s.length := by
  fun_induction takeBraced depth q s generalizing a <;> grind [Option.map_eq_some_iff]

theorem takeToken_length {s a b : List Char} (h : takeToken s = some (a, b)) :
    b.length < s.length + 1 := by
  unfold takeToken at h
  split at h
  · have := Text.cut_length h
    simp only [List.length_cons]
    omega
  · have := takeBraced_length h
    omega

/-- A literal piece, left out if empty; its characters stand in reverse. -/
def flush (text : List Char) : List Segment :=
  if text.isEmpty then [] else [.text (String.ofList text.reverse)]

/-- Cuts a text into segments.  `text` holds the literal characters since the last token, in reverse, and
`dollar` tells whether the character before is a dollar sign that may escape an opener. -/
def scan (text : List Char) (dollar : Bool) : List Char → List Segment
  | [] => flush text
  | [c] => flush (c :: text)
  | c :: d :: cs =>
      if c = '$' ∧ d = '\x7b' then
        if dollar then scan (d :: c :: text) false cs
        else match _h : takeToken cs with
          | some (e, rest) => flush text ++ .expr (String.ofList (Text.trim e)) :: scan [] false rest
          | none => flush (cs.reverse ++ d :: c :: text)
      else scan (c :: text) (c = '$') (d :: cs)
termination_by s => s.length
decreasing_by
  · simp only [List.length_cons]; omega
  · have := takeToken_length _h
    simp only [List.length_cons]
    omega
  · simp only [List.length_cons]; omega

/-- The segments of a text. -/
def parse (s : String) : List Segment := scan [] false s.toList

/-- The expressions of a list of segments, in order. -/
def expressions : List Segment → List String
  | [] => []
  | .text _ :: l => expressions l
  | .expr e :: l => e :: expressions l

/-- Whether there is any token. -/
def hasExpressions (l : List Segment) : Bool := !(expressions l).isEmpty

/-- The expression of a text that is exactly one token. -/
def single? : List Segment → Option String
  | [.expr e] => some e
  | _ => none

/-- An expression between its delimiters, in canonical form. -/
def renderToken (e : String) : String := "$\x7b\x7b " ++ e ++ " \x7d\x7d"

/-- The text that a value leaves in the midst of a text: strings as they are, nothing for null, and all
else in compact form. -/
def stringify : Value → String
  | .str s => s
  | .null => ""
  | v => Json.compact v

section Resolving

variable {m : Type → Type} [Monad m]

/-- The text that a segment becomes: a token without replacement stays, in canonical form. -/
def renderSegment (resolve : String → m (Option Value)) : Segment → m String
  | .text s => pure s
  | .expr e => do
      match ← resolve e with
      | some v => pure (stringify v)
      | none => pure (renderToken e)

/-- The text that a list of segments becomes. -/
def renderSegments (resolve : String → m (Option Value)) : List Segment → m String
  | [] => pure ""
  | s :: l => do
      let first ← renderSegment resolve s
      let rest ← renderSegments resolve l
      pure (first ++ rest)

/-- Puts values in the place of the tokens of a text.  A text that is exactly one token becomes the value
itself; in any other the values are spliced in as text. -/
def mapText (resolve : String → m (Option Value)) (s : String) : m Value :=
  let segments := parse s
  if hasExpressions segments then
    match single? segments with
    | some e => do
        match ← resolve e with
        | some v => pure v
        | none => pure (.str (renderToken e))
    | none => do
        let text ← renderSegments resolve segments
        pure (.str text)
  else pure (.str s)

/-- Puts values in the place of all tokens of a value, from left to right. -/
def mapExpressions (resolve : String → m (Option Value)) : Value → m Value
  | .str s => mapText resolve s
  | .arr items => do
      let items ← mapItems resolve items
      pure (.arr items)
  | .obj fields => do
      let fields ← mapFields resolve fields
      pure (.obj fields)
  | v => pure v
where
  /-- The same for the items of an array. -/
  mapItems (resolve : String → m (Option Value)) : List Value → m (List Value)
    | [] => pure []
    | v :: vs => do
        let v ← mapExpressions resolve v
        let vs ← mapItems resolve vs
        pure (v :: vs)
  /-- The same for the fields of an object. -/
  mapFields (resolve : String → m (Option Value)) : List (String × Value) → m (List (String × Value))
    | [] => pure []
    | (k, v) :: fields => do
        let v ← mapExpressions resolve v
        let fields ← mapFields resolve fields
        pure ((k, v) :: fields)

end Resolving

/-- All expressions of a value, from left to right. -/
def visitExpressions : Value → List String
  | .str s => expressions (parse s)
  | .arr items => visitItems items
  | .obj fields => visitFields fields
  | _ => []
where
  /-- The same for the items of an array. -/
  visitItems : List Value → List String
    | [] => []
    | v :: vs => visitExpressions v ++ visitItems vs
  /-- The same for the fields of an object. -/
  visitFields : List (String × Value) → List String
    | [] => []
    | (_, v) :: fields => visitExpressions v ++ visitFields fields

/-- Turns the literal openers of a text into what they stand for. -/
def unescapeText (s : String) : String :=
  String.ofList (Text.replace ['$', '$', '\x7b'] ['$', '\x7b'] s.toList)

/-- Turns all literal openers of a value into what they stand for. -/
def unescape : Value → Value
  | .str s => .str (unescapeText s)
  | .arr items => .arr (unescapeItems items)
  | .obj fields => .obj (unescapeFields fields)
  | v => v
where
  /-- The same for the items of an array. -/
  unescapeItems : List Value → List Value
    | [] => []
    | v :: vs => unescape v :: unescapeItems vs
  /-- The same for the fields of an object. -/
  unescapeFields : List (String × Value) → List (String × Value)
    | [] => []
    | (k, v) :: fields => (k, unescape v) :: unescapeFields fields

end Template

end Groundwork
