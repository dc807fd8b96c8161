import SceneBundler.Order
import SceneBundler.Text.CharacterClass

/-!
Contract: texts as lists of code points, with the cutting, trimming and ordering that the rest of
the library uses.

Owns:
- slices and look-ups by offset, where an offset beyond the end finds nothing;
- trimming of blanks, splitting on a character, collapsing of blanks;
- the order of texts by code point, and sorted texts without repetition;
- decimal numerals.

Does not own: patterns, edits, encodings.
-/

namespace SceneBundler

/-- A text is its code points in order; offsets count code points from zero. -/
abbrev Text := List Char

namespace Text

/-- The part of a text from `start` up to but not including `stop`. -/
def slice (text : Text) (start stop : Nat) : Text :=
  (text.drop start).take (stop - start)

/-- Whether `word` stands at `offset`. -/
def standsAt (word text : Text) (offset : Nat) : Bool :=
  word.isPrefixOf (text.drop offset)

/-- Whether the text ends with `word`. -/
def endsWith (text word : Text) : Bool :=
  word.isSuffixOf text

/-- The first offset from `offset` on that holds the character. -/
def offsetOf? (c : Char) (text : Text) (offset : Nat) : Option Nat :=
  ((text.drop offset).findIdx? (· == c)).map (offset + ·)

/-- Whether `word` occurs anywhere in a text. -/
def occursIn (word : Text) : Text -> Bool
  | [] => word.isEmpty
  | c :: rest => word.isPrefixOf (c :: rest) || occursIn word rest

/-- Without the leading blanks. -/
def trimStart (text : Text) : Text :=
  text.dropWhile Character.isBlank

/-- Without the trailing blanks. -/
def trimEnd (text : Text) : Text :=
  (text.reverse.dropWhile Character.isBlank).reverse

/-- Without the blanks at either end. -/
def trim (text : Text) : Text :=
  trimEnd (trimStart text)

/-- Whether a text holds nothing but blanks. -/
def isBlank (text : Text) : Bool :=
  text.all Character.isBlank

/-- The offset after the characters of a class that start at `offset`. -/
def skip (accepts : Char -> Bool) (text : Text) (offset : Nat) : Nat :=
  offset + ((text.drop offset).takeWhile accepts).length

/-- A space or a tab. -/
def isIndent (c : Char) : Bool :=
  c == ' ' || c == '\t'

/-- The pieces between the occurrences of a separator; there is one more piece than separators. -/
def split (separator : Char) (text : Text) : List Text :=
  text.foldr
    (fun c pieces =>
      if c == separator then [] :: pieces
      else
        match pieces with
        | piece :: rest => (c :: piece) :: rest
        | [] => [[c]])
    [[]]

/-- The pieces put one after another with a separator in between. -/
def join (separator : Text) (pieces : List Text) : Text :=
  (pieces.intersperse separator).flatten

/-- The maximal runs of characters that are not blank. -/
def words (text : Text) : List Text :=
  (text.foldr
    (fun c pieces =>
      if Character.isBlank c then [] :: pieces
      else
        match pieces with
        | piece :: rest => (c :: piece) :: rest
        | [] => [[c]])
    [[]]).filter (! ·.isEmpty)

/-- Whether the first text comes no later than the second in the order by code point. -/
def le : Text -> Text -> Bool
  | [], _ => true
  | _ :: _, [] => false
  | c :: first, d :: second => if c = d then le first second else c < d

/-- The distinct texts of a list in increasing order. -/
def sortedSet (texts : List Text) : List Text :=
  (Order.sort le texts).eraseReps

/-- The decimal numeral of a natural number. -/
def ofNat (n : Nat) : Text :=
  Nat.toDigits 10 n

/-- The decimal numeral of an integer, with a minus sign when it is negative. -/
def ofInt : Int -> Text
  | .ofNat n => ofNat n
  | .negSucc n => '-' :: ofNat (n + 1)

end Text

end SceneBundler
