import SceneBundler.Text.Quoted

/-!
Contract: texts as octets in UTF-8.

Owns:
- the octets of a text;
- the division of any octets into characters and malformed pieces, each malformed piece being the
  longest beginning of a character that stands there, or else one octet;
- reading that replaces malformed pieces, and reading that refuses them.

Does not own: line breaks.
-/

namespace SceneBundler

/-- Octets in order. -/
abbrev Octets := List UInt8

namespace Utf8

/-- The octets of a text. -/
def encode (text : Text) : Octets :=
  text.flatMap String.utf8EncodeChar

/-- What can be wrong with octets. -/
inductive Flaw where
  | invalidStart
  | invalidContinuation
  | unexpectedEnd
deriving DecidableEq, Repr

/-- A flaw in words. -/
def Flaw.message : Flaw -> Text
  | invalidStart => "invalid start byte".toList
  | invalidContinuation => "invalid continuation byte".toList
  | unexpectedEnd => "unexpected end of data".toList

/-- A part of the octets: a character, or octets that are none. -/
inductive Piece where
  | character (c : Char) (width : Nat)
  | malformed (flaw : Flaw) (width : Nat)
deriving DecidableEq, Repr

namespace Piece

/-- The number of octets of a piece. -/
def width : Piece -> Nat
  | character _ width => width
  | malformed _ width => width

/-- The character shown for a piece. -/
def shown : Piece -> Char
  | character c _ => c
  | malformed _ _ => Char.ofNat 0xfffd

end Piece

/-- A character of which some octets have been read: the bits so far, how many octets were read, how
many are missing, and between which bounds the next of them lies. -/
structure Pending where
  bits : Nat
  read : Nat
  missing : Nat
  low : Nat
  high : Nat
deriving DecidableEq, Repr

/-- The state after the first octet of a character that has others; none where no character of
several octets begins with it.  The bounds of the second octet leave out the longer spellings of
shorter characters, the surrogates, and everything beyond the last character. -/
def Pending.start? (octet : Nat) : Option Pending :=
  if 0xc2 ≤ octet && octet < 0xe0 then some ⟨octet - 0xc0, 1, 1, 0x80, 0xbf⟩
  else if 0xe0 ≤ octet && octet < 0xf0 then
    some ⟨octet - 0xe0, 1, 2, if octet = 0xe0 then 0xa0 else 0x80,
      if octet = 0xed then 0x9f else 0xbf⟩
  else if 0xf0 ≤ octet && octet < 0xf5 then
    some ⟨octet - 0xf0, 1, 3, if octet = 0xf0 then 0x90 else 0x80,
      if octet = 0xf4 then 0x8f else 0xbf⟩
  else none

/-- The state and the pieces, latest first, after an octet that begins a character. -/
def begin (octet : Nat) (pieces : List Piece) : Option Pending × List Piece :=
  if octet < 0x80 then (none, .character (Char.ofNat octet) 1 :: pieces)
  else
    match Pending.start? octet with
    | some pending => (some pending, pieces)
    | none => (none, .malformed .invalidStart 1 :: pieces)

/-- The state and the pieces after an octet. -/
def advance (octet : Nat) : Option Pending -> List Piece -> Option Pending × List Piece
  | none, pieces => begin octet pieces
  | some pending, pieces =>
      if pending.low ≤ octet && octet ≤ pending.high then
        let bits := 64 * pending.bits + (octet - 0x80)
        if pending.missing ≤ 1 then
          (none, .character (Char.ofNat bits) (pending.read + 1) :: pieces)
        else (some ⟨bits, pending.read + 1, pending.missing - 1, 0x80, 0xbf⟩, pieces)
      else begin octet (.malformed .invalidContinuation pending.read :: pieces)

/-- The pieces of octets, latest first, on top of those found already. -/
def scan : Option Pending -> List Piece -> Octets -> List Piece
  | none, pieces, [] => pieces
  | some pending, pieces, [] => .malformed .unexpectedEnd pending.read :: pieces
  | pending, pieces, octet :: rest =>
      let (next, found) := advance octet.toNat pending pieces
      scan next found rest

/-- The pieces of octets in order. -/
def pieces (octets : Octets) : List Piece :=
  (scan none [] octets).reverse

/-- The text of octets, with a replacement character for each malformed piece. -/
def decodeLenient (octets : Octets) : Text :=
  (pieces octets).map Piece.shown

/-- The first malformed piece of octets: its first octet, where it is, how long it is, and what is
wrong with it. -/
structure Fault where
  octet : Nat
  position : Nat
  width : Nat
  flaw : Flaw
deriving DecidableEq, Repr

/-- A fault as a sentence. -/
def Fault.message (fault : Fault) : Text :=
  let place :=
    if fault.width = 1 then
      "byte 0x".toList ++ Text.hexadecimal 2 fault.octet ++ " in position ".toList ++
        Text.ofNat fault.position
    else
      "bytes in position ".toList ++ Text.ofNat fault.position ++
        '-' :: Text.ofNat (fault.position + fault.width - 1)
  "'utf-8' codec can't decode ".toList ++ place ++ ": ".toList ++ fault.flaw.message

/-- The first malformed piece, where the pieces begin at a position. -/
def firstFault? (octets : Octets) : (position : Nat) -> List Piece -> Option Fault
  | _, [] => none
  | position, .character _ width :: rest => firstFault? octets (position + width) rest
  | position, .malformed flaw width :: _ =>
      some ⟨((octets.drop position).headD 0).toNat, position, width, flaw⟩

/-- The text of octets that are well-formed. -/
def decode (octets : Octets) : Except Fault Text :=
  let found := pieces octets
  match firstFault? octets 0 found with
  | some fault => .error fault
  | none => .ok (found.map Piece.shown)

end Utf8

end SceneBundler
