import SceneBundler.Json.Reader
import SceneBundler.Text.Pattern

/-!
Contract: finding the identifier of a new sandbox in an answer.

Owns:
- the places of a page that hold an identifier, in the order in which they are looked at;
- the field of a JSON object that holds one;
- the address of a redirection.

Does not own: which answers are looked at.
-/

namespace SceneBundler.Sandbox

open Pattern (literal maybe char gap textEnd)

/-- The characters of identifiers. -/
def isIdentifierCharacter (c : Char) : Bool :=
  c.isAlphanum || c == '-'

/-- An identifier after the path of the viewer. -/
def viewerPath : Pattern :=
  literal "/s/" ++ .capture 1 (Pattern.plus isIdentifierCharacter)

/-- The beginning of an absolute address whose host has no character of a class. -/
def host (excluded : Char -> Bool) : Pattern :=
  literal "http" ++ maybe (char 's') ++ literal "://" ++ Pattern.plus fun c => !excluded c

/-- A host within a quoted attribute. -/
def quotedHost : Pattern :=
  host fun c => c == '\x22' || c == '/'

/-- The places of a page that hold an identifier: the address for link previews, the canonical
address, and a link to the viewer. -/
def markers : List Pattern :=
  [literal "og:url\x22" ++ .run (fun c => c != '>') 0 (some 200) true ++
      literal "content=\x22" ++ quotedHost ++ viewerPath,
    literal "rel=\x22canonical\x22" ++ gap ++ literal "href=\x22" ++ quotedHost ++ viewerPath,
    literal "href=\x22" ++ viewerPath]

/-- Whether a text is an identifier and nothing else. -/
def isIdentifier (text : Text) : Bool :=
  !text.isEmpty && text.all isIdentifierCharacter

/-- The identifier at the first marker of a page. -/
def markedIdentifier? (body : Text) : Option Text :=
  markers.findSome? fun marker =>
    (marker.first? body).map fun found => found.captured body 1

/-- The identifier in the field of a JSON object.  A body that is none has no identifier, but one that
goes beyond the bounds of reading is a fault. -/
def fieldIdentifier (body : Text) : Except Json.Excess (Option Text) :=
  let trimmed := Text.trimStart body
  if trimmed.head? = some '\x7b' then
    match Json.read trimmed with
    | .ok value =>
        .ok (((value.field? "sandbox_id".toList).bind Json.Value.text?).filter isIdentifier)
    | .error .malformed => .ok none
    | .error (.excessive excess) => .error excess
  else .ok none

/-- The identifier in the body of an answer. -/
def identifier (body : Text) : Except Json.Excess (Option Text) :=
  match markedIdentifier? body with
  | some found => .ok (some found)
  | none => fieldIdentifier body

/-- The address of a redirection: the path of the viewer, at any host. -/
def redirection : Pattern :=
  maybe (host (· == '/')) ++ viewerPath

/-- The value of the first of some headers that is not empty. -/
def header? (headers : List (Text × Text)) (names : List String) : Option Text :=
  names.findSome? fun name => (headers.lookup name.toList).filter fun value => !value.isEmpty

/-- The identifier in the address that an answer redirects to. -/
def redirectIdentifier? (headers : List (Text × Text)) : Option Text :=
  (header? headers ["Location", "location"]).bind fun location =>
    let address := Text.trim location
    (redirection.matchFrom? address 0).map fun found => found.captured address 1

end SceneBundler.Sandbox
