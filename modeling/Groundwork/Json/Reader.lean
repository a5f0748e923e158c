import Groundwork.Json.Token
import Groundwork.Json.Numeral

/-!
# Reading JSON

A text is read in two steps: into tokens, and from tokens into a value.  The second step keeps the open
arrays and objects on a stack; at most 127 of them may be open at a time.

`document` keeps the fields of every object as they stand in the text, repeated names included;
`read` is the usual reading, with objects sorted by name and of equal names the last one.
-/

namespace Groundwork.Json

/-- An array or object that is not yet closed; its parts stand in reverse. -/
inductive Open where
  | array (items : List Value)
  | object (fields : List (String × Value)) (key : String)
  deriving Repr

/-- What may come next. -/
inductive Expect where
  /-- A value. -/
  | value
  /-- A value, or the end of the array just opened. -/
  | firstItem
  /-- A name, or the end of the object just opened. -/
  | firstKey
  /-- A name, after a comma. -/
  | key
  /-- The colon after a name. -/
  | colon (key : String)
  /-- What follows a finished value: a comma or the end of the innermost array or object. -/
  | next (value : Value)
  deriving Repr

/-- The greatest number of arrays and objects that may be open at a time. -/
def maxDepth : Nat := 127

/-- The value of a word. -/
def wordValue (letters : List Char) : Option Value :=
  if letters = ['n', 'u', 'l', 'l'] then some .null
  else if letters = ['t', 'r', 'u', 'e'] then some (.bool true)
  else if letters = ['f', 'a', 'l', 's', 'e'] then some (.bool false)
  else none

/-- The state of the assembly: the open arrays and objects, innermost first, and what may come next. -/
structure Assembly where
  stack : List Open
  expect : Expect

/-- The step at a token where a value has to start. -/
def Assembly.begin (numeral : List Char → Option Value) (stack : List Open) : Token → Option Assembly
  | .word letters => (wordValue letters).map fun v => ⟨stack, .next v⟩
  | .numeral text => (numeral text).map fun v => ⟨stack, .next v⟩
  | .string s => some ⟨stack, .next (.str s)⟩
  | .openArray => if stack.length < maxDepth then some ⟨.array [] :: stack, .firstItem⟩ else none
  | .openObject => if stack.length < maxDepth then some ⟨.object [] "" :: stack, .firstKey⟩ else none
  | _ => none

/-- The step at a token after a finished value. -/
def Assembly.continue (v : Value) : List Open → Token → Option Assembly
  | .array items :: stack, .comma => some ⟨.array (v :: items) :: stack, .value⟩
  | .array items :: stack, .closeArray => some ⟨stack, .next (.arr (v :: items).reverse)⟩
  | .object fields k :: stack, .comma => some ⟨.object ((k, v) :: fields) "" :: stack, .key⟩
  | .object fields k :: stack, .closeObject =>
      some ⟨stack, .next (.obj ((k, v) :: fields).reverse)⟩
  | _, _ => none

/-- Gives the innermost object the name of its next field. -/
def nameField (k : String) : List Open → List Open
  | .object fields _ :: stack => .object fields k :: stack
  | stack => stack

/-- Reads one token. -/
def Assembly.step (numeral : List Char → Option Value) (a : Assembly) (t : Token) : Option Assembly :=
  match a.expect, t with
  | .value, t => Assembly.begin numeral a.stack t
  | .firstItem, .closeArray => some ⟨a.stack.drop 1, .next (.arr [])⟩
  | .firstItem, t => Assembly.begin numeral a.stack t
  | .firstKey, .closeObject => some ⟨a.stack.drop 1, .next (.obj [])⟩
  | .firstKey, .string k => some ⟨a.stack, .colon k⟩
  | .key, .string k => some ⟨a.stack, .colon k⟩
  | .colon k, .colon => some ⟨nameField k a.stack, .value⟩
  | .next v, t => Assembly.continue v a.stack t
  | _, _ => none

/-- The value of a list of tokens, given how numerals are read. -/
def assemble (numeral : List Char → Option Value) (tokens : List Token) : Option Value :=
  (tokens.foldlM (Assembly.step numeral) ⟨[], .value⟩).bind fun a =>
    match a with
    | ⟨[], .next v⟩ => some v
    | _ => none

/-- The value of a numeral by the grammar of JSON. -/
def numeralValue (text : List Char) : Option Value :=
  ((Numeral.ofText? text).bind Numeral.number?).map .num

/-- The value of a text, with the fields of every object as they stand in the text. -/
def document (text : String) : Option Value := (scan text.toList).bind (assemble numeralValue)

/-- The value of a text. -/
def read (text : String) : Option Value := (document text).map Value.sorted

end Groundwork.Json
