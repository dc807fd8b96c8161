import SceneBundler.Number.Numeral

/-!
Contract: the written forms of hosts that are no names.

Owns:
- internet addresses of four octets, and of eight groups with at most one gap;
- addresses in a form of a later version.

Does not own: where in an address a host stands, and which forms may stand there.
-/

namespace SceneBundler.Host

/-- A digit in base sixteen. -/
def isHexDigit (c : Char) : Bool :=
  c.isDigit || ('a' ≤ c && c ≤ 'f') || ('A' ≤ c && c ≤ 'F')

/-- An octet: a number up to 255 in as few digits as it takes. -/
def isOctet (text : Text) : Bool :=
  !text.isEmpty && text.length ≤ 3 && text.all Char.isDigit &&
    (text == ['0'] || text.head? != some '0') &&
    Numeral.digitsValue text ≤ 255

/-- An address of four octets with points in between. -/
def isFourOctets (text : Text) : Bool :=
  let parts := Text.split '.' text
  parts.length == 4 && parts.all isOctet

/-- A group: one to four digits in base sixteen. -/
def isGroup (text : Text) : Bool :=
  !text.isEmpty && text.length ≤ 4 && text.all isHexDigit

/-- The parts between colons.  Four octets may stand in place of the last two groups, and then count
as two. -/
def groupParts? (text : Text) : Option (List Text) :=
  let parts := Text.split ':' text
  let last := parts.getLastD []
  if !last.contains '.' then some parts
  else if isFourOctets last then some (parts.dropLast ++ [['0'], ['0']])
  else none

/-- The groups on one side of a gap.  Where the gap is at an end, an empty part stands there. -/
def besideGap (parts : List Text) : List Text :=
  if parts = [[]] then [] else parts

/-- Whether parts between colons are eight groups, or fewer with a gap for the others.  A gap is an
empty part with a part on either side. -/
def areEightGroups (parts : List Text) : Bool :=
  match ((parts.drop 1).dropLast).idxOf? [] with
  | none => parts.length == 8 && parts.all isGroup
  | some before =>
      let groups := besideGap (parts.take (before + 1)) ++ besideGap (parts.drop (before + 2))
      groups.length < 8 && groups.all isGroup

/-- Whether what follows an address is nothing, or a percent sign with the name of a zone. -/
def isZone : Text -> Bool
  | [] => true
  | _ :: name => !name.isEmpty && !name.contains '%'

/-- An address of eight groups, with a zone if it has one. -/
def isEightGroups (text : Text) : Bool :=
  isZone (text.dropWhile (· != '%')) &&
    (groupParts? (text.takeWhile (· != '%'))).any areEightGroups

/-- What marks the form of a later version. -/
def futureMark : Char := 'v'

/-- An address in a form of a later version: the mark, the version in base sixteen, a point, and
something after it. -/
def isFuture : Text -> Bool
  | [] => false
  | mark :: rest =>
      let version := rest.takeWhile isHexDigit
      mark == futureMark && !version.isEmpty &&
        match rest.dropWhile isHexDigit with
        | '.' :: _ :: _ => true
        | _ => false

end SceneBundler.Host
