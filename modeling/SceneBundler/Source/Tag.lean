import SceneBundler.Source.TagName

/-!
Contract: the JSX tags of a masked source.

Owns:
- recognising the tag that a `<` begins, and the tags of a text in order;
- the closing tag of an opening tag, found by counting tags of its name;
- the tags that a stack finds no partner for.

Does not own: masking; a `<` in a comment or string is no tag only because it is masked.
-/

namespace SceneBundler.Source

/-- How a tag is written: `<a>`, `</a>` or `<a />`. -/
inductive TagKind where
  | opening
  | closing
  | selfClosing
deriving DecidableEq, Repr

/-- A tag at its place in a text.  A fragment's tag has the empty name. -/
structure Tag where
  name : Text
  start : Nat
  stop : Nat
  kind : TagKind
deriving DecidableEq, Repr

namespace Tag

/-- Whether a tag stands for a component. -/
def isComponent (tag : Tag) : Bool :=
  TagName.isComponent tag.name

/-- The identifier a tag is resolved through. -/
def rootIdentifier (tag : Tag) : Text :=
  TagName.root tag.name

/-- The offset at which a tag's name begins. -/
def nameStart (tag : Tag) : Nat :=
  tag.start + if tag.kind = .closing then 2 else 1

/-- The number of characters from the end of a tag's name through its `>`, and whether a slash
stands before that `>`.  The attributes hold no `<` or `;` outside braces. -/
def tail? : (depth : Nat) -> (slash : Bool) -> (passed : Nat) -> Text -> Option (Nat × Bool)
  | _, _, _, [] => none
  | depth, slash, passed, c :: rest =>
      if c = '{' then tail? (depth + 1) false (passed + 1) rest
      else if c = '}' then
        match depth with
        | 0 => none
        | outer + 1 => tail? outer false (passed + 1) rest
      else if depth = 0 && c == '>' then some (passed + 1, slash)
      else if depth = 0 && (c == '<' || c == ';') then none
      else tail? depth (c == '/') (passed + 1) rest

/-- The tag that a `<` at an offset begins, given the character before it and the text after it.  A
`<` directly after a name is a comparison or opens type arguments. -/
def at? (previous : Option Char) (offset : Nat) (ahead : Text) : Option Tag :=
  if previous.any Character.continuesName then none
  else
    let closing := ahead.head? == some '/'
    let kind : TagKind := if closing then .closing else .opening
    let lead := if closing then 1 else 0
    let named := ahead.drop lead
    if named.head? == some '>' then some ⟨[], offset, offset + lead + 2, kind⟩
    else
      match TagName.read? named with
      | none => none
      | some name =>
          match tail? 0 false 0 (named.drop name.length) with
          | none => none
          | some (length, slash) =>
              let kind := if !closing && slash then .selfClosing else kind
              some ⟨name, offset, offset + 1 + lead + name.length + length, kind⟩

/-- The tags from an offset on, latest first, on top of those found already; `busy` characters still
belong to the last tag. -/
def collect : (busy : Nat) -> Option Char -> (offset : Nat) -> Text -> List Tag -> List Tag
  | _, _, _, [], found => found
  | busy + 1, _, offset, c :: rest, found =>
      collect busy (some c) (offset + 1) rest found
  | 0, previous, offset, c :: rest, found =>
      if c = '<' then
        match at? previous offset rest with
        | some tag =>
            collect (tag.stop - offset - 1) (some c) (offset + 1) rest (tag :: found)
        | none => collect 0 (some c) (offset + 1) rest found
      else collect 0 (some c) (offset + 1) rest found

/-- The tags of a masked text in order. -/
def scan (masked : Text) : List Tag :=
  (collect 0 none 0 masked []).reverse

/-- The position at which the tags of a name have closed as often as they opened, after `depth` that
stay open. -/
def closingPosition? (name : Text) : (depth position : Nat) -> List Tag -> Option Nat
  | _, _, [] => none
  | depth, position, tag :: rest =>
      if tag.name = name then
        match tag.kind with
        | .selfClosing => closingPosition? name depth (position + 1) rest
        | .opening => closingPosition? name (depth + 1) (position + 1) rest
        | .closing =>
            match depth with
            | 0 => some position
            | outer + 1 => closingPosition? name outer (position + 1) rest
      else closingPosition? name depth (position + 1) rest

/-- The position of the tag that closes the opening tag at a position. -/
def findClosing? (tags : List Tag) (position : Nat) : Option Nat :=
  match tags.drop position with
  | [] => none
  | tag :: rest => closingPosition? tag.name 0 (position + 1) rest

/-- The tags without a partner: a closing tag pairs only with the innermost tag still open. -/
def unpaired : (stack : List Tag) -> List Tag -> List Tag
  | stack, [] => stack.reverse
  | stack, tag :: rest =>
      match tag.kind with
      | .selfClosing => unpaired stack rest
      | .opening => unpaired (tag :: stack) rest
      | .closing =>
          match stack with
          | [] => tag :: unpaired [] rest
          | innermost :: outer =>
              if innermost.name = tag.name then unpaired outer rest
              else tag :: unpaired (innermost :: outer) rest

/-- The tags without a partner in the order of the text. -/
def unbalanced (tags : List Tag) : List Tag :=
  Order.sort (fun first second => first.start ≤ second.start) (unpaired [] tags)

end Tag

end SceneBundler.Source
