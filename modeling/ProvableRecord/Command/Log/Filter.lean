import ProvableRecord.Command.Log
import ProvableRecord.Text.Alphanumeric
import ProvableRecord.Text.Blank

/-!
# Filters of the log

A filter is a comma-separated list of directives.  A directive is a level alone, or a target, a
scope in brackets and a level after an equals sign, of which each may be left out:

    debug
    pod_core=info
    pod_core::content[{entries}]=debug
    [span]

Of the directives that apply to an event the most specific one decides: `LogFilter.decisive?`.  A
part that is no directive is left out, and `LogFilter.omissions` says why.
-/

namespace ProvableRecord.Command

/-- Where a directive applies. -/
inductive Scope where
  | anywhere
  /-- To events with a field of this name. -/
  | having (field : String)
  /-- Inside spans, which are stretches of work with a name.  Here no event is inside one. -/
  | spans
deriving DecidableEq

/-- Lets events through up to the level of a rank; rank zero lets none through. -/
structure Directive where
  /-- The start of the targets that are meant; empty for all. -/
  target : String
  scope : Scope
  rank : Nat
deriving DecidableEq

/-- Why a part of a filter is no directive. -/
inductive DirectiveFault where
  | malformed
  | notLevel
deriving DecidableEq

/-- The wording of a fault in a filter. -/
def DirectiveFault.message : DirectiveFault → String
  | .malformed => "invalid filter directive"
  | .notLevel =>
    "error parsing level filter: expected one of \"off\", \"error\", \"warn\", \"info\", " ++
      "\"debug\", \"trace\", or a number 0-5"

namespace Directive

/-- The rank that a level name in any case, or a number that may have a plus sign, stands for. -/
def rankOfName? (s : String) : Option Nat :=
  let digits := match s.toList with
    | '+' :: cs => String.ofList cs
    | _ => s
  match Decimal.parse? digits with
  | some n => if n ≤ 5 then some n else none
  | none =>
    let names := [("off", 0), ("error", 1), ("warn", 2), ("info", 3), ("debug", 4), ("trace", 5)]
    (names.find? fun n => n.1 = s.toLower).map (·.2)

/-- The rank that is written after an equals sign; nothing there stands for all levels. -/
def rankOfText (s : String) : Except DirectiveFault Nat :=
  if s.isEmpty then .ok Level.trace.rank
  else match rankOfName? s with
    | some rank => .ok rank
    | none => .error .notLevel

/-- Whether a directive may start with a character. -/
def isStart (c : Char) : Bool :=
  c = '[' || c = '-' || c = ':' || c = '_' || Text.isAlphanumeric c

/-- The characters of a directive, each with the character that is read in its place. -/
abbrev Marked := List (Char × Char)

/-- What is read from the characters before one that is marked as an end. -/
def textBefore (ends : List Char) (cs : Marked) : String :=
  String.ofList ((cs.takeWhile fun c => c.1 ∉ ends).map (·.2))

/-- The characters from the first one on that is marked as an end. -/
def fromEnd (ends : List Char) (cs : Marked) : Marked := cs.dropWhile fun c => c.1 ∉ ends

/-- Reads a scope after its opening bracket: the name of a span, a field in braces, or both.  A
field with a value is one of a span. -/
def readScope (cs : Marked) : Except DirectiveFault (Scope × Marked) :=
  match fromEnd [']', '\x7b'] cs with
  | (']', _) :: cs => .ok (.spans, cs)
  | (_, _) :: inner =>
    let field := textBefore ['\x7d'] inner
    match fromEnd ['\x7d'] inner with
    | _ :: (']', _) :: rest =>
      if field.isEmpty then .error .malformed
      else if (textBefore [']', '\x7b'] cs).isEmpty && !field.toList.contains '=' then
        .ok (.having field, rest)
      else .ok (.spans, rest)
    | _ => .error .malformed
  | [] => .error .malformed

/-- A directive whose only text is a level or a target; a target alone lets everything through. -/
def ofWord (s : String) : Directive :=
  match rankOfName? s with
  | some rank => ⟨"", .anywhere, rank⟩
  | none => ⟨s, .anywhere, Level.trace.rank⟩

/-- A directive.  Blanks around it do not count for where its parts end, but the parts are read from
the text with them: blanks in front move all parts to the left, and blanks behind belong to what is
read last. -/
def ofText (s : String) : Except DirectiveFault Directive :=
  let marks := (Text.trimBlank s).toList
  let cs : Marked := marks.zip s.toList
  let readToEnd := fun cs : Marked => String.ofList (cs.map (·.2) ++ s.toList.drop marks.length)
  if !(marks.head?.map isStart).getD false then .error .malformed
  else
    let target := textBefore ['=', '['] cs
    match fromEnd ['=', '['] cs with
    | [] => .ok (ofWord s)
    | ('=', _) :: level => do return ⟨target, .anywhere, ← rankOfText (readToEnd level)⟩
    | _ :: inner => do
      let (scope, rest) ← readScope inner
      match rest with
      | [] => return ⟨target, scope, Level.trace.rank⟩
      | ('=', _) :: level => return ⟨target, scope, ← rankOfText (readToEnd level)⟩
      | _ => throw .malformed

/-- Whether a directive applies to an event. -/
def applies (d : Directive) (e : Event) : Bool :=
  d.target.toList.isPrefixOf e.target.toList &&
    match d.scope with
    | .anywhere => true
    | .having field => e.fieldNames.contains field
    | .spans => false

/-- Whether a directive is at least as specific as another: a longer target comes first, then a
field rather than none, and of two fields the later one in the order of their names. -/
def isAsSpecific (d other : Directive) : Bool :=
  if d.target.length = other.target.length then
    match d.scope, other.scope with
    | .having f, .having g => g ≤ f
    | .anywhere, .having _ => false
    | _, _ => true
  else other.target.length < d.target.length

end Directive

/-- Directives that decide which events show. -/
abbrev LogFilter := List Directive

namespace LogFilter

/-- The filter that shows everything up to a level. -/
def upTo (level : Level) : LogFilter := [⟨"", .anywhere, level.rank⟩]

/-- The parts of a filter between commas. -/
def parts (s : String) : List String := (String.splitOn s ",").filter (· ≠ "")

/-- The filter that a text describes.  Parts that are no directives are left out, and without any
directive errors show. -/
def ofText (s : String) : LogFilter :=
  match (parts s).filterMap fun part => (Directive.ofText part).toOption with
  | [] => upTo .error
  | directives => directives

/-- A line for each part of a text that a filter leaves out. -/
def omissions (s : String) : List String :=
  (parts s).filterMap fun part =>
    match Directive.ofText part with
    | .ok _ => none
    | .error fault => some ("ignoring `" ++ part ++ "`: " ++ fault.message)

/-- The directive that decides on an event: of the most specific ones that apply, the last. -/
def decisive? (f : LogFilter) (e : Event) : Option Directive :=
  (f.filter (·.applies e)).foldl (fun best d =>
    match best with
    | some b => if d.isAsSpecific b then some d else some b
    | none => some d) none

/-- Whether an event shows. -/
def shows (f : LogFilter) (e : Event) : Bool :=
  match f.decisive? e with
  | some d => e.level.rank ≤ d.rank
  | none => false

end LogFilter

end ProvableRecord.Command
