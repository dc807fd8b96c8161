import SceneBundler.Text.Utf8

/-!
Contract: bodies of answers.

Owns:
- reading a body in chunks up to a bound;
- the text of its beginning;
- the excerpt of a text for reports.

Does not own: what a body says.
-/

namespace SceneBundler.Sandbox

/-- The beginning of a list: so many items, or all but so many where the number is negative. -/
def leading {α : Type} (count : Int) (items : List α) : List α :=
  if 0 ≤ count then items.take count.toNat else items.take (items.length - count.natAbs)

/-- The number of octets of a body that are looked at. -/
def bodyLimit : Nat := 262144

/-- The chunks that are taken from a body until they hold `limit` octets, and whether the body was
taken to its end without reaching that. -/
def takenChunks : (limit : Nat) -> List Octets -> List Octets × Bool
  | _, [] => ([], true)
  | limit, chunk :: rest =>
      if limit ≤ chunk.length then ([chunk], false)
      else
        let (more, exhausted) := takenChunks (limit - chunk.length) rest
        (chunk :: more, exhausted)

/-- The text of the beginning of a body. -/
def boundedText (limit : Int) (body : Octets) : Text :=
  Utf8.decodeLenient (leading limit body)

/-- The words of a text with single spaces in between, cut where they are longer than `length`. -/
def excerpt (length : Int) (text : Text) : Text :=
  let collapsed := Text.join [' '] (Text.words text)
  if collapsed.length ≤ length then collapsed else leading length collapsed ++ "...".toList

end SceneBundler.Sandbox
