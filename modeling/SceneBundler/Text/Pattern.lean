import SceneBundler.Text.Basic

/-!
Contract: patterns over texts, and the search for their leftmost matches.

Owns:
- patterns as data: character tests, sequence, ordered choice, repetition, captures, and tests of
  the neighbourhood that consume nothing;
- the one matcher that tries the choices of a pattern in order and takes the first way through;
- leftmost and successive searches.

Does not own: any particular pattern.
-/

namespace SceneBundler

/-- A stretch of a text, from its first offset up to but not including its last. -/
structure Span where
  start : Nat
  stop : Nat
deriving DecidableEq, Repr

/-- The part of a text that a span covers. -/
def Span.of (span : Span) (text : Text) : Text :=
  Text.slice text span.start span.stop

/-- A place in a text that is being matched: the character before it, the text ahead of it, its
offset, and the spans captured on the way to it, latest first. -/
structure Cursor where
  previous : Option Char
  ahead : Text
  offset : Nat
  captures : List (Nat × Span)

namespace Cursor

/-- The cursor at the beginning of a text. -/
def start (text : Text) : Cursor :=
  ⟨none, text, 0, []⟩

/-- The cursor at an offset of a text of which only the part before `stop` can be matched. -/
def within (text : Text) (offset stop : Nat) : Cursor :=
  ⟨if offset = 0 then none else text[offset - 1]?, Text.slice text offset stop, offset, []⟩

/-- The cursor past the next character, where the character is in a class. -/
def step? (accepts : Char -> Bool) (cursor : Cursor) : Option Cursor :=
  match cursor.ahead with
  | c :: rest =>
      if accepts c then some ⟨some c, rest, cursor.offset + 1, cursor.captures⟩ else none
  | [] => none

/-- The places reached by going over at most `room` characters of a class, or over any number of them
where no room is given, farthest first, on top of the places passed already. -/
def trail (accepts : Char -> Bool) (captures : List (Nat × Span)) :
    (room : Option Nat) -> Option Char -> Text -> Nat -> List Cursor -> List Cursor
  | _, previous, [], offset, passed => ⟨previous, [], offset, captures⟩ :: passed
  | room, previous, c :: rest, offset, passed =>
      let here := ⟨previous, c :: rest, offset, captures⟩ :: passed
      if room != some 0 && accepts c then
        trail accepts captures (room.map (· - 1)) (some c) rest (offset + 1) here
      else here

end Cursor

/-- What a stretch of text can look like.  Where several ways of matching exist, the order of the
choices says which is tried first. -/
inductive Pattern where
  /-- The empty stretch. -/
  | empty
  /-- One character of a class. -/
  | one (accepts : Char -> Bool)
  /-- One stretch directly after another. -/
  | sequence (first second : Pattern)
  /-- The first alternative, or else the second. -/
  | either (first second : Pattern)
  /-- As many rounds of the body as can be had, each of at least one character. -/
  | many (body : Pattern)
  /-- At least `least` and at most `most` characters of a class, as many or as few as can be. -/
  | run (accepts : Char -> Bool) (least : Nat) (most : Option Nat) (fewest : Bool)
  /-- The body, whose span is kept under a number. -/
  | capture (slot : Nat) (body : Pattern)
  /-- The empty stretch, between neighbours that pass a test. -/
  | between (test : Option Char -> Option Char -> Bool)
  /-- The empty stretch, where the body matches ahead or where it does not. -/
  | ahead (expected : Bool) (body : Pattern)

namespace Pattern

instance : Append Pattern := ⟨sequence⟩

instance : OrElse Pattern := ⟨fun first second => either first (second ())⟩

/-- Rounds of a step as long as each moves on, and then the rest of the match; the longest way is
tried first.  There are at most as many rounds as `room` has characters. -/
def rounds (step : Cursor -> (Cursor -> Option Cursor) -> Option Cursor)
    (finish : Cursor -> Option Cursor) : (room : Text) -> Cursor -> Option Cursor
  | [], cursor => finish cursor
  | _ :: room, cursor =>
      match step cursor fun next =>
          if cursor.offset < next.offset then rounds step finish room next else none with
      | some final => some final
      | none => finish cursor

/-- The first way of matching a pattern from a cursor on that the rest of the match accepts. -/
def matchThen : Pattern -> Cursor -> (Cursor -> Option Cursor) -> Option Cursor
  | empty, cursor, finish => finish cursor
  | one accepts, cursor, finish => (cursor.step? accepts).bind finish
  | sequence first second, cursor, finish =>
      matchThen first cursor fun next => matchThen second next finish
  | either first second, cursor, finish =>
      match matchThen first cursor finish with
      | some final => some final
      | none => matchThen second cursor finish
  | many body, cursor, finish =>
      rounds (matchThen body) finish cursor.ahead cursor
  | run accepts least most fewest, cursor, finish =>
      let stops := Cursor.trail accepts cursor.captures most
        cursor.previous cursor.ahead cursor.offset []
      let enough := stops.takeWhile fun stop => cursor.offset + least ≤ stop.offset
      (if fewest then enough.reverse else enough).findSome? finish
  | capture slot body, cursor, finish =>
      matchThen body cursor fun next =>
        finish { next with
          captures := (slot, ⟨cursor.offset, next.offset⟩) :: next.captures }
  | between test, cursor, finish =>
      if test cursor.previous cursor.ahead.head? then finish cursor else none
  | ahead expected body, cursor, finish =>
      if (matchThen body cursor some).isSome == expected then finish cursor else none

/-! ## Building patterns -/

/-- One given character. -/
def char (c : Char) : Pattern :=
  one (· == c)

/-- One character out of a text. -/
def oneOf (choices : Text) : Pattern :=
  one choices.contains

/-- The characters of a word in order. -/
def word : Text -> Pattern
  | [] => empty
  | c :: rest => sequence (char c) (word rest)

/-- The characters of a literal word. -/
def literal (letters : String) : Pattern :=
  word letters.toList

/-- The body if it can be had. -/
def maybe (body : Pattern) : Pattern :=
  either body empty

/-- The first of several alternatives that leads to a match. -/
def anyOf : List Pattern -> Pattern
  | [] => one fun _ => false
  | [body] => body
  | body :: rest => either body (anyOf rest)

/-- Any number of characters of a class, as many as can be. -/
def star (accepts : Char -> Bool) : Pattern :=
  run accepts 0 none false

/-- At least one character of a class, as many as can be. -/
def plus (accepts : Char -> Bool) : Pattern :=
  run accepts 1 none false

/-- Any number of blanks. -/
def blanks : Pattern :=
  star Character.isBlank

/-- At least one blank. -/
def gap : Pattern :=
  plus Character.isBlank

/-- Any number of spaces and tabs. -/
def indent : Pattern :=
  star Text.isIndent

/-- A JavaScript name. -/
def name : Pattern :=
  one Character.startsName ++ star Character.continuesName

/-- The beginning of the text or of a line. -/
def lineStart : Pattern :=
  between fun previous _ => previous.all (· == '\n')

/-- The end of the text or of a line. -/
def lineEnd : Pattern :=
  between fun _ next => next.all (· == '\n')

/-- The end of the text, or the place before its last character where that is a line break. -/
def textEnd : Pattern :=
  let nothingAhead := between fun _ next => next.isNone
  ahead true (either nothingAhead (char '\n' ++ nothingAhead))

/-- The border between a word character and another character or an end of the text. -/
def wordBoundary : Pattern :=
  between fun previous next =>
    previous.any Character.isWord != next.any Character.isWord

/-- After a character of a class. -/
def after (accepts : Char -> Bool) : Pattern :=
  between fun previous _ => previous.any accepts

/-- After no character of a class. -/
def notAfter (accepts : Char -> Bool) : Pattern :=
  between fun previous _ => !previous.any accepts

/-- Before no character of a class. -/
def notBefore (accepts : Char -> Bool) : Pattern :=
  between fun _ next => !next.any accepts

/-- A word that is not part of a longer word. -/
def wholeWord (letters : String) : Pattern :=
  wordBoundary ++ literal letters ++ wordBoundary

/-! ## Searching -/

/-- The place after the first way of matching a pattern at a cursor. -/
def matchAt? (pattern : Pattern) (cursor : Cursor) : Option Cursor :=
  pattern.matchThen cursor some

/-- Whether a pattern matches a text from its first to its last character. -/
def isFullMatch (pattern : Pattern) (text : Text) : Bool :=
  (pattern.matchThen (Cursor.start text) fun cursor =>
    if cursor.ahead.isEmpty then some cursor else none).isSome

end Pattern

/-- A stretch of text that a pattern matched, and the spans captured in it. -/
structure Match where
  start : Nat
  stop : Nat
  captures : List (Nat × Span)

namespace Match

/-- The span captured under a number. -/
def span? (found : Match) (slot : Nat) : Option Span :=
  found.captures.lookup slot

/-- The text captured under a number, or nothing at all where that part did not take part. -/
def captured? (found : Match) (text : Text) (slot : Nat) : Option Text :=
  (found.span? slot).map fun span => span.of text

/-- The text captured under a number, empty where that part did not take part. -/
def captured (found : Match) (text : Text) (slot : Nat) : Text :=
  (found.captured? text slot).getD []

end Match

namespace Pattern

/-- The match of a pattern at a given cursor. -/
def find (pattern : Pattern) (cursor : Cursor) : Option Match :=
  (pattern.matchAt? cursor).map fun final => ⟨cursor.offset, final.offset, final.captures⟩

/-- The leftmost match of a pattern from a place on. -/
def firstFrom? (pattern : Pattern) : Option Char -> Nat -> Text -> Option Match
  | previous, offset, [] => pattern.find ⟨previous, [], offset, []⟩
  | previous, offset, c :: rest =>
      match pattern.find ⟨previous, c :: rest, offset, []⟩ with
      | some found => some found
      | none => firstFrom? pattern (some c) (offset + 1) rest

/-- The leftmost match of a pattern in a text. -/
def first? (pattern : Pattern) (text : Text) : Option Match :=
  pattern.firstFrom? none 0 text

/-- The leftmost match that begins at `start` or later and uses no character from `stop` on. -/
def firstWithin? (pattern : Pattern) (text : Text) (start stop : Nat) : Option Match :=
  let cursor := Cursor.within text start stop
  pattern.firstFrom? cursor.previous cursor.offset cursor.ahead

/-- The match that begins at an offset and uses no character from `stop` on. -/
def matchWithin? (pattern : Pattern) (text : Text) (offset stop : Nat) : Option Match :=
  pattern.find (Cursor.within text offset stop)

/-- The match that begins at an offset. -/
def matchFrom? (pattern : Pattern) (text : Text) (offset : Nat) : Option Match :=
  pattern.matchWithin? text offset text.length

/-- Whether a pattern matches at the beginning of a text. -/
def startsText (pattern : Pattern) (text : Text) : Bool :=
  (pattern.matchAt? (Cursor.start text)).isSome

/-- The successive matches from a place on, latest first, on top of those found already; `busy`
characters still belong to the last match. -/
def collect (pattern : Pattern) :
    (busy : Nat) -> Option Char -> Nat -> Text -> List Match -> List Match
  | 0, previous, offset, [], found =>
      match pattern.find ⟨previous, [], offset, []⟩ with
      | some next => next :: found
      | none => found
  | _ + 1, _, _, [], found => found
  | busy + 1, _, offset, c :: rest, found =>
      collect pattern busy (some c) (offset + 1) rest found
  | 0, previous, offset, c :: rest, found =>
      match pattern.find ⟨previous, c :: rest, offset, []⟩ with
      | some next =>
          collect pattern (next.stop - offset - 1) (some c) (offset + 1) rest (next :: found)
      | none => collect pattern 0 (some c) (offset + 1) rest found

/-- The successive matches of a pattern, each beginning where the last one ended or later. -/
def all (pattern : Pattern) (text : Text) : List Match :=
  (pattern.collect 0 none 0 text []).reverse

/-- Whether a pattern matches anywhere. -/
def occursIn (pattern : Pattern) (text : Text) : Bool :=
  (pattern.first? text).isSome

end Pattern

end SceneBundler
