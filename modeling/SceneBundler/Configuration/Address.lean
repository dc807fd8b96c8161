import SceneBundler.Configuration.Host
import SceneBundler.Text.Quoted

/-!
Contract: the scheme and the authority of a web address.

Owns:
- where the scheme ends and where the authority begins and ends;
- the refusal of authorities whose brackets are out of place or hold no address that belongs in
  brackets, and of those that hold characters which are the same as a delimiter in disguise.

Does not own: which schemes are served.
-/

namespace SceneBundler

/-- The scheme of an address in lower case, and its authority; either may be empty. -/
structure Address where
  scheme : Text
  authority : Text
deriving DecidableEq, Repr

/-- Why a text is no address at all. -/
inductive AddressFault where
  | misplacedBracket
  /-- Brackets hold four octets, which do without them. -/
  | bracketedOctets
  /-- Brackets hold the mark of a later version, but no address in that form. -/
  | brokenFutureForm
  | noNumericHost (host : Text)
  | disguisedDelimiter (authority : Text)
deriving DecidableEq, Repr

/-- A fault as a sentence. -/
def AddressFault.message : AddressFault -> Text
  | misplacedBracket => "Invalid IPv6 URL".toList
  | bracketedOctets => "An IPv4 address cannot be in brackets".toList
  | brokenFutureForm => "IPvFuture address is invalid".toList
  | noNumericHost host =>
      Text.quoted host ++ " does not appear to be an IPv4 or IPv6 address".toList
  | disguisedDelimiter authority =>
      "netloc '".toList ++ authority ++
        "' contains invalid characters under NFKC normalization".toList

namespace Address

/-- A character that an address leaves out at its beginning. -/
def isLeadingPadding (c : Char) : Bool :=
  c.toNat ≤ 0x20

/-- A character that an address leaves out wherever it stands. -/
def isIgnored (c : Char) : Bool :=
  c == '\t' || c == '\r' || c == '\n'

/-- A character of a scheme. -/
def isSchemeCharacter (c : Char) : Bool :=
  c.isAlphanum || c == '+' || c == '-' || c == '.'

/-- The scheme of an address and what follows its colon.  The scheme is what stands before the first
colon, if it begins with an ASCII letter and has only the characters of schemes. -/
def splitScheme (text : Text) : Text × Text :=
  let before := text.takeWhile (· != ':')
  if before.length < text.length && before.head?.any Char.isAlpha && before.all isSchemeCharacter then
    (before.map Char.toLower, text.drop (before.length + 1))
  else ([], text)

/-- A character that ends an authority. -/
def endsAuthority (c : Char) : Bool :=
  c == '/' || c == '?' || c == '#'

/-- The authority at the beginning of what follows the scheme. -/
def authorityOf : Text -> Text
  | '/' :: '/' :: rest => rest.takeWhile fun c => !endsAuthority c
  | _ => []

/-- The characters that stand for a delimiter of addresses, alone or with other characters, once
compatible characters are made the same. -/
def disguises : List Nat := [
  0x2047, 0x2048, 0x2049, 0x2100, 0x2101, 0x2105, 0x2106, 0x2a74, 0xfe13, 0xfe16, 0xfe55, 0xfe56,
  0xfe5f, 0xfe6b, 0xff03, 0xff0f, 0xff1a, 0xff1f, 0xff20]

/-- Whether an authority holds a delimiter in disguise. -/
def hasDisguise (authority : Text) : Bool :=
  authority.any fun c => disguises.contains c.toNat

/-- The fault of a host that is to stand in brackets. -/
def bracketedFault? (host : Text) : Option AddressFault :=
  if host.head? = some Host.futureMark then
    if Host.isFuture host then none else some .brokenFutureForm
  else if Host.isFourOctets host then some .bracketedOctets
  else if Host.isEightGroups host then none
  else some (.noNumericHost host)

/-- The fault of an authority with brackets of both kinds.  Before the host in brackets only a user
may stand, with an at sign, and after it only what a colon sets apart.  A host without brackets is
held to the same forms. -/
def bracketFault? (authority : Text) : Option AddressFault :=
  let located := (authority.reverse.takeWhile (· != '@')).reverse
  match located.dropWhile (· != '[') with
  | [] => bracketedFault? (located.takeWhile (· != ':'))
  | _ :: bracketed =>
      let afterHost := (bracketed.dropWhile (· != ']')).drop 1
      if located.head? != some '[' || afterHost.head?.any (· != ':') then some .misplacedBracket
      else bracketedFault? (bracketed.takeWhile (· != ']'))

/-- The fault of an authority. -/
def authorityFault? (authority : Text) : Option AddressFault :=
  let opens := authority.contains '['
  let closes := authority.contains ']'
  let ofBrackets :=
    if opens != closes then some .misplacedBracket
    else if opens then bracketFault? authority
    else none
  ofBrackets.or (if hasDisguise authority then some (.disguisedDelimiter authority) else none)

/-- The address that a text stands for. -/
def ofText (text : Text) : Except AddressFault Address :=
  let written := (text.dropWhile isLeadingPadding).filter fun c => !isIgnored c
  let (scheme, rest) := splitScheme written
  let authority := authorityOf rest
  match authorityFault? authority with
  | some fault => .error fault
  | none => .ok ⟨scheme, authority⟩

end Address

end SceneBundler
