import Groundwork.Text.Search

/-!
# Masks

Times and random names differ from run to run.  A mask puts a word in the place of each of them, so that
what two runs print can be compared.

Main statement: what follows a form is a part of the text (`follow_isSuffix`).
-/

namespace Groundwork.Text

/-- Whether a character fits a letter of a form: `d` is a digit, `x` a small hexadecimal digit, `_` a blank or
a T, and every other character itself. -/
def fits (form c : Char) : Bool :=
  if form = 'd' then c.isDigit
  else if form = 'x' then c.isDigit || ('a' ≤ c && c ≤ 'f')
  else if form = '_' then c = 'T' || c = ' '
  else form = c

/-- What follows a form at the start of a text. -/
def follow : List Char → List Char → Option (List Char)
  | [], s => some s
  | _ :: _, [] => none
  | p :: ps, c :: s => if fits p c then follow ps s else none

theorem follow_isSuffix {form s r : List Char} (h : follow form s = some r) : r <:+ s := by
  induction form generalizing s with
  | nil => simp only [follow, Option.some.injEq] at h; exact h ▸ List.suffix_refl s
  | cons p ps ih =>
    cases s with
    | nil => simp [follow] at h
    | cons c s =>
      simp only [follow] at h
      split at h
      · exact List.suffix_cons_iff.2 (.inr (ih h))
      · simp at h

theorem follow_length {form s r : List Char} (h : follow form s = some r) : r.length ≤ s.length :=
  (follow_isSuffix h).length_le

/-- What follows the seconds of a time, and their fraction, if they are there. -/
def afterSeconds (s : List Char) : List Char :=
  match follow ":dd".toList s with
  | none => s
  | some s => if (follow ".d".toList s).isSome then (s.drop 1).dropWhile Char.isDigit else s

/-- What follows a mark of a time zone, if it is there. -/
def afterZone (s : List Char) : List Char :=
  (["Z", " UTC", "+00:00"].findSome? fun z => follow z.toList s).getD s

/-- What follows a time. -/
def afterTime (s : List Char) : Option (List Char) :=
  (follow "dddd-dd-dd_dd:dd".toList s).map fun s => afterZone (afterSeconds s)

/-- What follows a random name. -/
def afterName (s : List Char) : Option (List Char) := follow "xxxxxxxx-xxxx-xxxx-xxxx-xxxxxxxxxxxx".toList s

/-- A text with its times and random names masked; at most `fuel` steps are taken, one for each character
or mask. -/
def maskFor (fuel : Nat) (s : List Char) : List Char :=
  match fuel, s with
  | 0, s => s
  | _ + 1, [] => []
  | fuel + 1, c :: s =>
      match afterTime (c :: s), afterName (c :: s) with
      | some rest, _ => "<time>".toList ++ maskFor fuel rest
      | none, some rest => "<uuid>".toList ++ maskFor fuel rest
      | none, none => c :: maskFor fuel s

/-- A text with its times and random names masked. -/
def mask (s : String) : String := String.ofList (maskFor s.length s.toList)

end Groundwork.Text
