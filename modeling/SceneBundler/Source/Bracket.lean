import SceneBundler.Text.Basic

/-!
Contract: brackets of the three kinds and their pairs in a text.

Owns:
- the pairing of every opener with its closer, each kind on its own;
- the search for the closer of one opener;
- balanced words of one kind.

Does not own: which text the brackets are looked for in; the transforms look in masked views.
-/

namespace SceneBundler.Source

/-- The three kinds of brackets. -/
inductive BracketKind where
  | round
  | square
  | curly
deriving DecidableEq, Repr

namespace BracketKind

/-- The kinds in the order in which they are reported. -/
def all : List BracketKind :=
  [round, square, curly]

/-- The opening bracket of a kind. -/
def opener : BracketKind -> Char
  | round => '('
  | square => '['
  | curly => '{'

/-- The closing bracket of a kind. -/
def closer : BracketKind -> Char
  | round => ')'
  | square => ']'
  | curly => '}'

/-- The kind a character opens. -/
def ofOpener? (c : Char) : Option BracketKind :=
  all.find? (·.opener == c)

end BracketKind

/-- An opening bracket of any kind. -/
def isOpener (c : Char) : Bool :=
  c == '(' || c == '[' || c == '{'

/-- A closing bracket of any kind. -/
def isCloser (c : Char) : Bool :=
  c == ')' || c == ']' || c == '}'

/-- The bracket pairs of a text: the offset of an opener, then the offset of its closer. -/
abbrev BracketPairs := List (Nat × Nat)

namespace BracketPairs

/-- The pairs of one kind from an offset on; the openers still open are kept innermost first. -/
def ofKind (kind : BracketKind) : (openers : List Nat) -> (offset : Nat) -> Text ->
    BracketPairs -> BracketPairs
  | _, _, [], pairs => pairs
  | openers, offset, c :: rest, pairs =>
      if c = kind.opener then ofKind kind (offset :: openers) (offset + 1) rest pairs
      else if c = kind.closer then
        match openers with
        | [] => ofKind kind [] (offset + 1) rest pairs
        | opened :: outer => ofKind kind outer (offset + 1) rest ((opened, offset) :: pairs)
      else ofKind kind openers (offset + 1) rest pairs

/-- Every pair of brackets of a text, each kind paired on its own; brackets without a partner are
left out. -/
def ofText (text : Text) : BracketPairs :=
  BracketKind.all.flatMap fun kind => ofKind kind [] 0 text []

/-- The offset of the closer of the opener at an offset. -/
def closerOf? (pairs : BracketPairs) (opened : Nat) : Option Nat :=
  pairs.lookup opened

end BracketPairs

/-- The offset at which as many brackets of a kind have closed as were opened, from `depth` open
ones on. -/
def closingOffset? (kind : BracketKind) : (depth offset : Nat) -> Text -> Option Nat
  | _, _, [] => none
  | depth, offset, c :: rest =>
      if c = kind.opener then closingOffset? kind (depth + 1) (offset + 1) rest
      else if c = kind.closer then
        if depth ≤ 1 then some offset else closingOffset? kind (depth - 1) (offset + 1) rest
      else closingOffset? kind depth (offset + 1) rest

/-- The offset of the closer of the bracket at an offset, found by counting its kind only. -/
def findMatchingBracket? (text : Text) (opened : Nat) : Option Nat :=
  match text[opened]? with
  | none => none
  | some c =>
      match BracketKind.ofOpener? c with
      | none => none
      | some kind => closingOffset? kind 0 opened (text.drop opened)

/-- Whether a text is a balanced word in one kind of bracket, after `depth` openers: no closer comes
before its opener, and none is left open. -/
def isBalancedFrom (kind : BracketKind) : (depth : Nat) -> Text -> Bool
  | depth, [] => depth == 0
  | depth, c :: rest =>
      if c = kind.opener then isBalancedFrom kind (depth + 1) rest
      else if c = kind.closer then
        match depth with
        | 0 => false
        | outer + 1 => isBalancedFrom kind outer rest
      else isBalancedFrom kind depth rest

/-- Whether a text is a balanced word in one kind of bracket. -/
def isBalanced (kind : BracketKind) (text : Text) : Bool :=
  isBalancedFrom kind 0 text

end SceneBundler.Source
