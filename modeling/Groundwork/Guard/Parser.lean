import Groundwork.Decimal.Reading
import Groundwork.Guard.Error
import Groundwork.Guard.Expr
import Groundwork.Guard.Lexer

/-!
# The grammar of guards

An expression is a disjunction of conjunctions of comparisons.  A comparison has one operand or two; its
operands are negations of, in the end, literals, calls, paths, or expressions in parentheses.

Only `operand` calls itself; all other readers are given the reader of their parts.  Every level of nesting
takes at least one token, so the number of tokens bounds the depth.
-/

namespace Groundwork.Guard

/-- Reads something from the front of a list of tokens. -/
abbrev Reader (α : Type) := List Token → Except SyntaxFault (α × List Token)

/-- Reads one given token. -/
def expect (wanted : Token) : List Token → Except SyntaxFault (List Token)
  | t :: ts => if t = wanted then .ok ts else .error (.expected wanted (some t))
  | [] => .error (.expected wanted none)

/-! ### Operators -/

/-- Goes on from a left operand as long as the operator follows; `n` bounds the number of operators. -/
def chainFrom (sign : Token) (op : BinaryOp) (part : Reader Expr) : Nat → Expr → Reader Expr
  | n + 1, left, t :: ts =>
      if t = sign then do
        let (right, ts) ← part ts
        chainFrom sign op part n (.binary op left right) ts
      else .ok (left, t :: ts)
  | _, left, ts => .ok (left, ts)

/-- Parts joined by one operator, from left to right. -/
def chain (sign : Token) (op : BinaryOp) (part : Reader Expr) : Reader Expr := fun ts => do
  let (left, ts) ← part ts
  chainFrom sign op part ts.length left ts

/-- The comparison that a token stands for. -/
def comparison? : Token → Option BinaryOp
  | .eq => some .eq
  | .ne => some .ne
  | .lt => some .lt
  | .le => some .le
  | .gt => some .gt
  | .ge => some .ge
  | _ => none

/-- One operand, or two with a comparison between them. -/
def comparison (part : Reader Expr) : Reader Expr := fun ts => do
  let (left, ts) ← part ts
  match ts.head?.bind comparison? with
  | none => .ok (left, ts)
  | some op => do
      let (right, ts) ← part (ts.drop 1)
      .ok (.binary op left right, ts)

/-- A whole expression over given operands. -/
def disjunction (part : Reader Expr) : Reader Expr :=
  chain .or .or (chain .and .and (comparison part))

/-! ### Numbers, paths, calls -/

/-- The value of a number: an integer if it is one of 64 bits, else the nearest floating-point number. -/
def numberValue? (text : String) : Option Value :=
  let (negative, digits) := Decimal.takeSign text.toList
  let magnitude : Int := Decimal.digitsValue digits
  let n := if negative then -magnitude else magnitude
  if !digits.isEmpty && digits.all Char.isDigit && -(UInt64.size / 2 : Int) ≤ n && n < UInt64.size / 2 then
    some (.num (.int n))
  else ((Decimal.readFloat? text.toList).bind Number.ofFloat?).map .num

/-- The steps of a path after its first word. -/
def pathSteps : Reader Path
  | .dot :: .word name :: ts => do
      let (p, ts) ← pathSteps ts
      .ok (.field name :: p, ts)
  | .dot :: .number text :: ts => do
      let (p, ts) ← pathSteps ts
      .ok ((Text.splitOn '.' text.toList).map (fun s => .field (String.ofList s)) ++ p, ts)
  | .dot :: ts => .error (.expectedField ts.head?)
  | .leftBracket :: .number text :: .rightBracket :: ts =>
      match Path.readIndex? text.toList with
      | none => .error (.invalidIndex text)
      | some n => do
          let (p, ts) ← pathSteps ts
          .ok (.index n :: p, ts)
  | .leftBracket :: .number text :: ts =>
      match Path.readIndex? text.toList with
      | none => .error (.invalidIndex text)
      | some _ => .error (.expected .rightBracket ts.head?)
  | .leftBracket :: .str name :: .rightBracket :: ts => do
      let (p, ts) ← pathSteps ts
      .ok (.field name :: p, ts)
  | .leftBracket :: .str _ :: ts => .error (.expected .rightBracket ts.head?)
  | .leftBracket :: ts => .error (.expectedIndex ts.head?)
  | ts => .ok ([], ts)

/-- The value of a literal word. -/
def literalWord? (w : String) : Option Value :=
  if w = "true" then some (.bool true)
  else if w = "false" then some (.bool false)
  else if w = "null" then some .null
  else none

/-- The function of a name: one of one argument or one of two. -/
def function? (name : String) : Option (TextFunction ⊕ TestFunction) :=
  if name = "contains" then some (.inr .contains)
  else if name = "startsWith" then some (.inr .startsWith)
  else if name = "endsWith" then some (.inr .endsWith)
  else if name = "toLower" then some (.inl .toLower)
  else if name = "toUpper" then some (.inl .toUpper)
  else if name = "trim" then some (.inl .trim)
  else none

/-- Arguments up to the closing parenthesis, at least one; `n` bounds their number. -/
def argumentsFrom (expr : Reader Expr) : Nat → Reader (List Expr)
  | 0, ts => .error (.unexpected ts.head?)
  | n + 1, ts => do
      let (arg, ts) ← expr ts
      match ts with
      | .rightParen :: ts => .ok ([arg], ts)
      | ts => do
          let ts ← expect .comma ts
          let (args, ts) ← argumentsFrom expr n ts
          .ok (arg :: args, ts)

/-- The arguments of a call after its opening parenthesis. -/
def arguments (expr : Reader Expr) : Reader (List Expr)
  | .rightParen :: ts => .ok ([], ts)
  | ts => argumentsFrom expr (ts.length + 1) ts

/-- The call of a function with arguments, of which it must want exactly so many. -/
def makeCall (name : String) : TextFunction ⊕ TestFunction → List Expr → Except SyntaxFault Expr
  | .inl f, [a] => .ok (.text f a)
  | .inr f, [a, b] => .ok (.test f a b)
  | .inl _, args => .error (.wrongArity name 1 args.length)
  | .inr _, args => .error (.wrongArity name 2 args.length)

/-- A call after its name and opening parenthesis. -/
def call (expr : Reader Expr) (name : String) : Reader Expr := fun ts =>
  match function? name with
  | none => .error (.unknownFunction name)
  | some f => do
      let (args, ts) ← arguments expr ts
      let e ← makeCall name f args
      .ok (e, ts)

/-- A literal, call, path, or expression in parentheses. -/
def primary (expr : Reader Expr) : Reader Expr
  | .leftParen :: ts => do
      let (e, ts) ← expr ts
      let ts ← expect .rightParen ts
      .ok (e, ts)
  | .str s :: ts => .ok (.literal (.str s), ts)
  | .number text :: ts =>
      match numberValue? text with
      | some v => .ok (.literal v, ts)
      | none => .error (.invalidNumber text)
  | .word w :: ts =>
      match literalWord? w, ts with
      | some v, ts => .ok (.literal v, ts)
      | none, .leftParen :: ts => call expr w ts
      | none, ts => do
          let (p, ts) ← pathSteps ts
          .ok (.path (.field w :: p), ts)
  | ts => .error (.unexpected ts.head?)

/-- An operand, nested at most `n` deep. -/
def operand : Nat → Reader Expr
  | 0, ts => .error (.unexpected ts.head?)
  | n + 1, .not :: ts => do
      let (e, ts) ← operand n ts
      .ok (.not e, ts)
  | n + 1, ts => primary (disjunction (operand n)) ts

/-- An expression at the front of a list of tokens. -/
def expression : Reader Expr := fun ts => disjunction (operand (ts.length + 1)) ts

/-- The expression that a list of tokens spells. -/
def parseTokens (ts : List Token) : Except SyntaxFault Expr := do
  match ← expression ts with
  | (e, []) => .ok e
  | (_, t :: _) => .error (.trailing t)

end Groundwork.Guard
