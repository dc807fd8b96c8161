import SceneBundler.Diagnostic
import SceneBundler.Dialect.Extent
import SceneBundler.Number.Numeral
import SceneBundler.Source.Mask
import SceneBundler.Source.Position

/-!
Contract: enumerations with literal values turned into frozen objects.

Owns:
- recognising an enumeration and reading its members;
- the numbering of members without a value: one more than the member before, from zero;
- the object that takes its place.

An enumeration with a computed member, or with a bare member after a text, is left as it is and
reported.

Does not own: any other erasure of types.
-/

namespace SceneBundler.Dialect

open Pattern (literal char name blanks gap indent oneOf maybe star lineStart)

/-- The head of an enumeration through its brace; the indentation, the export and the name are kept
apart as 1, 2 and 3. -/
def enumHead : Pattern :=
  lineStart ++ .capture 1 indent ++ maybe (.capture 2 (literal "export" ++ gap)) ++
    maybe (literal "declare" ++ gap) ++ maybe (literal "const" ++ gap) ++ literal "enum" ++
    gap ++ .capture 3 name ++ blanks ++ char '{'

/-- A text between the given quotes, without escapes. -/
def quotedBy (quote : Char) : Pattern :=
  char quote ++ star (fun c => c != quote && c != '\\' && c != '\n') ++ char quote

/-- A plain text in either kind of quotes. -/
def plainString : Pattern :=
  quotedBy '\x27' <|> quotedBy '\x22'

/-- The key of a member, kept as 1, and its equals sign, kept as 2. -/
def enumKey : Pattern :=
  blanks ++ .capture 1 (name <|> plainString) ++ blanks ++ maybe (.capture 2 (char '='))

/-- A whole number with an optional minus sign. -/
def wholeNumber : Pattern :=
  maybe (char '-') ++ Pattern.plus Character.isDecimal

/-- A member of an enumeration with its value as it is written out. -/
structure EnumMember where
  key : Text
  value : Text
deriving DecidableEq, Repr

/-- The member that one item between commas declares and the value of a bare member after it, given
the value of a bare member here. -/
def readMember? (text : Text) (next : Option Int) (start stop : Nat) :
    Option (EnumMember × Option Int) :=
  match enumKey.matchWithin? text start stop with
  | none => none
  | some found =>
      let key := found.captured text 1
      let remainder := Text.trim (Text.slice text found.stop stop)
      if (found.span? 2).isSome then
        if wholeNumber.isFullMatch remainder then
          some (⟨key, remainder⟩, (Numeral.integer? remainder).map (· + 1))
        else if plainString.isFullMatch remainder then some (⟨key, remainder⟩, none)
        else none
      else
        match next with
        | some value =>
            if remainder.isEmpty then some (⟨key, Text.ofInt value⟩, some (value + 1)) else none
        | none => none

/-- The members that the items of an enumeration declare, unless one of them is computed.  Items that
the masked view shows blank declare nothing. -/
def readMembers? (text masked : Text) : Option Int -> List (Nat × Nat) -> Option (List EnumMember)
  | _, [] => some []
  | next, (start, stop) :: rest =>
      if Text.isBlank (Text.slice masked start stop) then readMembers? text masked next rest
      else
        match readMember? text next start stop with
        | none => none
        | some (member, after) => (readMembers? text masked after rest).map (member :: ·)

/-- The frozen object with the given members. -/
def frozenObject (members : List EnumMember) : Text :=
  let fields := members.map fun member => member.key ++ ": ".toList ++ member.value
  let body := Text.join ", ".toList fields
  let object := if body.isEmpty then ['{', '}'] else ['{', ' '] ++ body ++ [' ', '}']
  "Object.freeze(".toList ++ object ++ [')']

/-- What becomes of one enumeration: its replacement, or the report that it is computed; nothing
where its brace is never closed. -/
def convertEnum (text masked : Text) (pairs : Source.BracketPairs) (found : Match) :
    Option (Edit ⊕ Diagnostic) :=
  let opened := found.stop - 1
  match pairs.closerOf? opened with
  | none => none
  | some closed =>
      let enumName := found.captured masked 3
      match readMembers? text masked (some 0) (splitTopLevel masked (opened + 1) closed) with
      | none =>
          some <| .inr <| .warning .normalize "computed_enum"
            ("Enum ".toList ++ Diagnostic.named enumName ++
              " has computed members and was left unchanged.".toList)
            (Source.lineNumberAt text found.start)
      | some members =>
          let exported := if (found.span? 2).isSome then "export ".toList else []
          let stop := if masked[closed + 1]? = some ';' then closed + 2 else closed + 1
          some <| .inl
            ⟨found.start, stop,
              found.captured masked 1 ++ exported ++ "const ".toList ++ enumName ++
                " = ".toList ++ frozenObject members ++ [';']⟩

/-- The text with its enumerations of literal values turned into objects, and a report for each of
the others. -/
def convertEnums (text : Text) : Text × List Diagnostic :=
  let masked := Source.mask text
  let pairs := Source.BracketPairs.ofText masked
  let outcomes := (enumHead.all masked).filterMap (convertEnum text masked pairs)
  let edits := outcomes.filterMap fun outcome => outcome.getLeft?
  let reports := outcomes.filterMap fun outcome => outcome.getRight?
  (Edit.applyAll edits text, reports)

end SceneBundler.Dialect
