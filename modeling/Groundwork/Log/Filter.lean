import Groundwork.Decimal.Reading
import Groundwork.Log
import Groundwork.Text.Blank
import Groundwork.Text.Search

/-!
# Filters of the log

A filter says how grave a line must be to be shown.  It is written as a list of rules with commas between
them.  A rule is a level for everything, or the start of a name and a level for the parts of programs whose
names start so; the longest start that fits decides, and of two rules for one start the later.

Main statements: a filter of a single level shows what is at least as grave (`shows_upTo`), and one without
rules shows nothing (`shows_nil`).
-/

namespace Groundwork

/-- Up to which rank lines are shown whose part of the program has a name that starts so. -/
structure LogRule where
  start : List Char
  rank : Nat
  deriving DecidableEq, Repr, Inhabited

/-- The rules of a filter. -/
abbrev LogFilter := List LogRule

namespace LogFilter

/-- The filter that shows all lines as grave as a level. -/
def upTo (l : Level) : LogFilter := [⟨[], l.rank⟩]

/-- The rank that a text names, by a number or a word in letters of either case. -/
def rankOf? (s : String) : Option Nat :=
  let named := [Level.error, .warn, .info, .debug, .trace].find? fun l =>
    l.name.map Char.toLower = s.map Char.toLower
  (Decimal.natural? 6 s).or
    ((named.map Level.rank).or (if s.map Char.toLower = "off" then some 0 else none))

/-- Whether a rule may begin with a character. -/
def opensRule (c : Char) : Bool := c.isAlphanum || c = '-' || c = '_' || c = ':'

/-- Reads a rule.  A start without level shows every line. -/
def readRule? (s : List Char) : Option LogRule :=
  let s := Text.trim s
  if !s.head?.any opensRule then none
  else match Text.cut ['='] s with
  | some (start, []) => some ⟨start, Level.trace.rank⟩
  | some (start, level) => (rankOf? (String.ofList level)).map fun rank => ⟨start, rank⟩
  | none =>
      match rankOf? (String.ofList s) with
      | some rank => some ⟨[], rank⟩
      | none => some ⟨s, Level.trace.rank⟩

/-- Reads a filter.  An empty one shows only what is gravest. -/
def ofText? (s : String) : Option LogFilter :=
  match (Text.splitOn ',' s.toList).filter (· ≠ []) with
  | [] => some (upTo .error)
  | rules => rules.mapM readRule?

/-- The rule that decides for a name. -/
def deciding? (f : LogFilter) (name : List Char) : Option LogRule :=
  (f.filter fun r => Text.startsWith r.start name).foldl (fun best r =>
    match best with
    | some b => if b.start.length ≤ r.start.length then some r else best
    | none => some r) none

/-- Whether a line of a part of a program is shown. -/
def shows (f : LogFilter) (name : List Char) (l : LogLine) : Bool :=
  (f.deciding? name).any fun r => l.level.rank ≤ r.rank

theorem shows_nil (name : List Char) (l : LogLine) : shows [] name l = false := rfl

theorem shows_upTo (level : Level) (name : List Char) (l : LogLine) :
    shows (upTo level) name l = decide (l.level.rank ≤ level.rank) := by
  simp [shows, upTo, deciding?, Text.startsWith, List.filter_cons, Text.dropStart]

end LogFilter

end Groundwork
