import SceneBundler.Text.Edit
import SceneBundler.Source.Bracket

/-!
Contract: how far statements, types and list items extend in a masked source.

Owns:
- the end of a statement, across nested brackets and lines that go on;
- the end of a type annotation, and of a return type;
- the items of a list separated by commas outside brackets;
- the removal of a statement with the rest of its line.

Does not own: which statements and types are removed.
-/

namespace SceneBundler.Dialect

open Source (isOpener isCloser)

/-- Whether a statement goes on after a line break: nothing was read yet, its last character calls
for more, or the next line begins with a type operator. -/
def continuesPastBreak (last : Option Char) (ahead : Text) : Bool :=
  last.all (fun c => "=|&,:".toList.contains c) ||
    (Text.trimStart ahead).head?.any (fun c => c == '|' || c == '&')

/-- The number of characters of the statement that a text begins, through its semicolon.  `last` is
the last character read that is not blank. -/
def statementLength : (depth : Nat) -> (last : Option Char) -> (passed : Nat) -> Text -> Nat
  | _, _, passed, [] => passed
  | depth, last, passed, c :: rest =>
      let next := if Character.isBlank c then last else some c
      if isOpener c then statementLength (depth + 1) next (passed + 1) rest
      else if isCloser c then
        match depth with
        | 0 => passed
        | outer + 1 => statementLength outer next (passed + 1) rest
      else if c = ';' && depth == 0 then passed + 1
      else if c = '\n' && depth == 0 && !continuesPastBreak last rest then passed
      else statementLength depth next (passed + 1) rest

/-- The offset at which the statement from an offset on ends. -/
def statementEnd (masked : Text) (start : Nat) : Nat :=
  start + statementLength 0 none 0 (masked.drop start)

/-- The removal of a statement, with a semicolon directly after it, and with the line break when only
spaces and tabs come before it. -/
def statementRemoval (masked : Text) (start stop : Nat) : Edit :=
  let stop := if masked[stop]? = some ';' then stop + 1 else stop
  let lineEnd := Text.skip Text.isIndent masked stop
  if masked[lineEnd]? = some '\n' then Edit.deletion start (lineEnd + 1)
  else Edit.deletion start stop

/-- Whether an equals sign between two characters is part of a longer operator. -/
def isCompoundEquals (previous : Option Char) (c : Char) (next : Option Char) : Bool :=
  c == '=' &&
    (next == some '=' || next == some '>' ||
      previous.any fun p => p == '=' || p == '!' || p == '<' || p == '>')

/-- A bracket or angle bracket that opens a nested type. -/
def opensType (c : Char) : Bool :=
  isOpener c || c == '<'

/-- A bracket or angle bracket that closes a nested type; the `>` of an arrow closes nothing. -/
def closesType (previous : Option Char) (c : Char) : Bool :=
  isCloser c || (c == '>' && previous != some '=')

/-- The number of characters of a type annotation within the next `room` characters.  It ends at a
stop character outside brackets, or at a closer of the construct around it. -/
def typeLength (stops : Text) : (room depth : Nat) -> (previous : Option Char) -> (passed : Nat) ->
    Text -> Nat
  | 0, _, _, passed, _ => passed
  | _ + 1, _, _, passed, [] => passed
  | room + 1, depth, previous, passed, c :: rest =>
      if depth = 0 && stops.contains c && !isCompoundEquals previous c rest.head? then passed
      else if opensType c then typeLength stops room (depth + 1) (some c) (passed + 1) rest
      else if closesType previous c then
        match depth with
        | 0 => passed
        | outer + 1 => typeLength stops room outer (some c) (passed + 1) rest
      else typeLength stops room depth (some c) (passed + 1) rest

/-- The offset at which a type annotation ends, no later than `limit`. -/
def typeEnd (masked : Text) (start limit : Nat) (stops : String) : Nat :=
  let previous := if start = 0 then none else masked[start - 1]?
  start + typeLength stops.toList (limit - start) 0 previous 0 (masked.drop start)

/-- The number of characters of a return type within the next `room` characters, when an arrow or a
function body follows it. -/
def returnTypeLength? : (room depth : Nat) -> (seen : Bool) -> (previous : Option Char) ->
    (passed : Nat) -> Text -> Option Nat
  | 0, _, _, _, _, _ => none
  | _ + 1, _, _, _, _, [] => none
  | room + 1, depth, seen, previous, passed, c :: rest =>
      let seenNext := seen || !Character.isBlank c
      if depth = 0 && c == '=' && rest.head? == some '>' then
        if seen then some passed else none
      else if depth = 0 && c == '{' && seen then some passed
      else if depth = 0 && (c == ';' || c == ',' || c == '=') then none
      else if opensType c then
        returnTypeLength? room (depth + 1) seenNext (some c) (passed + 1) rest
      else if closesType previous c then
        match depth with
        | 0 => none
        | outer + 1 => returnTypeLength? room outer seenNext (some c) (passed + 1) rest
      else returnTypeLength? room depth seenNext (some c) (passed + 1) rest

/-- The number of characters within which a return type has to end. -/
def returnTypeRoom : Nat := 256

/-- The offset at which the return type after a colon ends. -/
def returnTypeEnd? (masked : Text) (start : Nat) : Option Nat :=
  let previous := if start = 0 then none else masked[start - 1]?
  (returnTypeLength? returnTypeRoom 0 false previous 0 (masked.drop start)).map (start + ·)

/-- The end of a span without the blanks before it. -/
def trimmedEnd (masked : Text) (start stop : Nat) : Nat :=
  let covered := Text.slice masked start stop
  start + (Text.trimEnd covered).length

/-- The items of a list from an offset on: `start` is where the current item began, and `depth`
counts the brackets opened less those closed. -/
def itemsFrom (depth : Int) (start offset : Nat) : Text -> List (Nat × Nat)
  | [] => [(start, offset)]
  | c :: rest =>
      if isOpener c then itemsFrom (depth + 1) start (offset + 1) rest
      else if isCloser c then itemsFrom (depth - 1) start (offset + 1) rest
      else if c = ',' && depth == 0 then
        (start, offset) :: itemsFrom depth (offset + 1) (offset + 1) rest
      else itemsFrom depth start (offset + 1) rest

/-- The spans between the commas of a range that stand outside nested brackets. -/
def splitTopLevel (masked : Text) (start stop : Nat) : List (Nat × Nat) :=
  itemsFrom 0 start start (Text.slice masked start stop)

end SceneBundler.Dialect
