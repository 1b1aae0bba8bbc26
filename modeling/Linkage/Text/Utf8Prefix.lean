/-!
# The longest readable beginning of a byte string

`utf8PrefixUpTo? cap bytes` looks at the first `cap` bytes only and drops as few of them as makes
the others valid UTF-8. A character has at most four bytes, so a cut in the middle of a valid text
leaves at most three bytes to drop; when dropping three does not help, the bytes were never text.
-/

namespace Linkage.Text

def maxInputSize : Nat := 16 * 1024

/-- The first `n` bytes as text, if they are valid UTF-8. -/
def decodePrefix? (bytes : ByteArray) (n : Nat) : Option String :=
  String.fromUTF8? (bytes.extract 0 n)

/-- The longest text at the start of the first `cap` bytes that drops at most three of them. -/
def utf8PrefixUpTo? (cap : Nat) (bytes : ByteArray) : Option String :=
  let size := min bytes.size cap
  (List.range (min 3 size + 1)).findSome? fun dropped => decodePrefix? bytes (size - dropped)

/-- The longest text at the start of the bytes, up to `maxInputSize`. -/
def utf8Prefix? (bytes : ByteArray) : Option String := utf8PrefixUpTo? maxInputSize bytes

/-! ### Prefixes that are text -/

theorem decodePrefix?_eq_some_iff {bytes : ByteArray} {n : Nat} {text : String} :
    decodePrefix? bytes n = some text ↔ text.toByteArray = bytes.extract 0 n := by
  unfold decodePrefix?
  constructor
  · intro h
    unfold String.fromUTF8? at h
    split at h
    · cases h
      rfl
    · cases h
  · intro h
    rw [← h, String.fromUTF8?, dif_pos text.isValidUTF8]
    rfl

/-- Decoding fails on invalid bytes alone. -/
theorem decodePrefix?_eq_none_iff {bytes : ByteArray} {n : Nat} :
    decodePrefix? bytes n = none ↔ ¬(bytes.extract 0 n).IsValidUTF8 := by
  unfold decodePrefix? String.fromUTF8?
  split
  · next hvalid => simp [hvalid]
  · next hinvalid => simp [hinvalid]

end Linkage.Text
