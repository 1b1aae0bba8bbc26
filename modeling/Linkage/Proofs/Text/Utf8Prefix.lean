import Linkage.Text.Utf8Prefix

/-!
# The longest text at the start of a byte string

`utf8PrefixUpTo? cap` gives the longest valid text within the first `cap` bytes, unless more than
three of these bytes would be lost (`utf8PrefixUpTo?_eq_some_iff`).

No more is ever lost of bytes that a text begins with. A cut leaves the characters before it whole,
and of the one that it splits at most three bytes (`exists_valid_extract`). So only bytes that no
text begins with can be refused (`longest_text_is_kept`).
-/

namespace Linkage.Text

/-! ## What is looked for -/

/-- The bytes are the beginning of a text, which may be cut inside a character. -/
def BeginsText (bytes : ByteArray) : Prop :=
  ∃ (text : String) (n : Nat), bytes = text.toByteArray.extract 0 n

/-- The text is at the start of the bytes, within the first `cap` of them, and no more of these are
valid UTF-8. -/
structure IsLongestText (cap : Nat) (bytes : ByteArray) (text : String) : Prop where
  starts : text.toByteArray = bytes.extract 0 text.utf8ByteSize
  size_le : text.utf8ByteSize ≤ min bytes.size cap
  longest : ∀ n, text.utf8ByteSize < n → n ≤ min bytes.size cap →
    ¬(bytes.extract 0 n).IsValidUTF8

theorem extract_extract_of_le (bytes : ByteArray) {m n : Nat} (h : m ≤ n) :
    (bytes.extract 0 n).extract 0 m = bytes.extract 0 m := by
  rw [ByteArray.extract_extract, Nat.zero_add, Nat.zero_add, Nat.min_eq_left h]

theorem BeginsText.extract {bytes : ByteArray} (h : BeginsText bytes) (n : Nat) :
    BeginsText (bytes.extract 0 n) := by
  obtain ⟨text, m, rfl⟩ := h
  refine ⟨text, min n m, ?_⟩
  rw [ByteArray.extract_extract, Nat.zero_add, Nat.zero_add]

/-! ## Trying fewer and fewer bytes -/

/-- The search stops at the first number that gives a result. -/
theorem findSome?_range_eq_some_iff {α : Type} {f : Nat → Option α} {n : Nat} {a : α} :
    (List.range n).findSome? f = some a ↔ ∃ k < n, f k = some a ∧ ∀ j < k, f j = none := by
  induction n with
  | zero => simp
  | succ n ih =>
      have hlast : [n].findSome? f = f n := by simp
      rw [List.range_succ, List.findSome?_append, Option.or_eq_some_iff, ih,
        List.findSome?_eq_none_iff, hlast]
      simp only [List.mem_range]
      -- the range grows at its end: a result is found before the last number, or at it and not
      -- before
      constructor
      · rintro (⟨k, hk, hfound, hbefore⟩ | ⟨hbefore, hfound⟩)
        · exact ⟨k, by omega, hfound, hbefore⟩
        · exact ⟨n, by omega, hfound, hbefore⟩
      · rintro ⟨k, hk, hfound, hbefore⟩
        rcases Nat.lt_or_eq_of_le (Nat.lt_succ_iff.mp hk) with hlt | rfl
        · exact .inl ⟨k, hlt, hfound, hbefore⟩
        · exact .inr ⟨hbefore, hfound⟩

/-- The text that is found is the longest one, and it is found unless it is too short. -/
theorem utf8PrefixUpTo?_eq_some_iff {cap : Nat} {bytes : ByteArray} {text : String} :
    utf8PrefixUpTo? cap bytes = some text ↔
      IsLongestText cap bytes text ∧ min bytes.size cap ≤ text.utf8ByteSize + 3 := by
  unfold utf8PrefixUpTo?
  simp only [findSome?_range_eq_some_iff, decodePrefix?_eq_some_iff, decodePrefix?_eq_none_iff]
  constructor
  · rintro ⟨dropped, hdropped, htext, hinvalid⟩
    have hsize : text.utf8ByteSize = min bytes.size cap - dropped := by
      rw [← String.size_toByteArray, htext, ByteArray.size_extract]
      omega
    refine ⟨⟨hsize ▸ htext, by omega, ?_⟩, by omega⟩
    intro n hlonger hn
    -- these bytes were tried before, as fewer of them were dropped
    have htried := hinvalid (min bytes.size cap - n) (by omega)
    rwa [Nat.sub_sub_self hn] at htried
  · rintro ⟨⟨hstarts, hsize, hlongest⟩, hclose⟩
    refine ⟨min bytes.size cap - text.utf8ByteSize, by omega, ?_, ?_⟩
    · rwa [Nat.sub_sub_self hsize]
    · intro fewer hfewer
      exact hlongest _ (by omega) (by omega)

/-! ## Cutting a text -/

/-- A cut behind the first part is one in the second part. -/
theorem extract_append_add (a b : ByteArray) (n : Nat) :
    (a ++ b).extract 0 (a.size + n) = a ++ b.extract 0 n := by
  have hsecond : (a ++ b).extract (a.size + 0) (a.size + n) = b.extract 0 n :=
    ByteArray.extract_append_size_add
  rw [ByteArray.extract_eq_extract_append_extract a.size (Nat.zero_le _) (Nat.le_add_right _ _),
    ByteArray.extract_append_eq_left rfl, ← hsecond, Nat.add_zero]

/-- A text cut anywhere is valid again without the character that was split, so without at most
three bytes. -/
theorem exists_valid_extract (chars : List Char) {n : Nat} (hn : n ≤ chars.utf8Encode.size) :
    ∃ dropped ≤ min 3 n, (chars.utf8Encode.extract 0 (n - dropped)).IsValidUTF8 := by
  induction chars generalizing n with
  | nil =>
      obtain rfl : n = 0 := by simpa using hn
      exact ⟨0, by omega, by simp⟩
  | cons c chars ih =>
      have hchar : [c].utf8Encode.size ≤ 4 := by
        simpa [List.utf8Encode_singleton] using c.utf8Size_le_four
      rw [List.utf8Encode_cons] at hn ⊢
      rw [ByteArray.size_append] at hn
      by_cases hwhole : [c].utf8Encode.size ≤ n
      · obtain ⟨dropped, hdropped, hvalid⟩ := ih (Nat.sub_le_iff_le_add'.mpr hn)
        refine ⟨dropped, by omega, ?_⟩
        have hcut : n - dropped = [c].utf8Encode.size + (n - [c].utf8Encode.size - dropped) := by
          omega
        rw [hcut, extract_append_add, ByteArray.isValidUTF8_utf8Encode_singleton_append_iff]
        exact hvalid
      · -- the cut is inside the first character, and nothing is left of the text
        exact ⟨n, by omega, by simp⟩

/-- The beginning of a text is valid again without at most three bytes. -/
theorem BeginsText.exists_valid {bytes : ByteArray} (h : BeginsText bytes) :
    ∃ dropped ≤ min 3 bytes.size, (bytes.extract 0 (bytes.size - dropped)).IsValidUTF8 := by
  obtain ⟨text, n, rfl⟩ := h
  -- the bytes of a text are those of its characters, and it is these that are cut
  obtain ⟨chars, hchars⟩ := text.isValidUTF8
  rw [hchars, ByteArray.size_extract, Nat.sub_zero]
  obtain ⟨dropped, hdropped, hvalid⟩ := exists_valid_extract chars (Nat.min_le_right n _)
  refine ⟨dropped, hdropped, ?_⟩
  rw [extract_extract_of_le _ (by omega)]
  exact hvalid

/-- Something is found when a text begins with the bytes that are looked at. -/
theorem exists_utf8PrefixUpTo? {cap : Nat} {bytes : ByteArray}
    (h : BeginsText (bytes.extract 0 (min bytes.size cap))) :
    ∃ text, utf8PrefixUpTo? cap bytes = some text ∧
      min bytes.size cap ≤ text.utf8ByteSize + 3 := by
  have hsize : (bytes.extract 0 (min bytes.size cap)).size = min bytes.size cap := by
    rw [ByteArray.size_extract]
    omega
  obtain ⟨dropped, hdropped, hvalid⟩ := h.exists_valid
  rw [hsize] at hdropped hvalid
  rw [extract_extract_of_le _ (by omega)] at hvalid
  -- some number of dropped bytes leaves valid ones, so the search comes to an end
  have hfound : (utf8PrefixUpTo? cap bytes).isSome = true := by
    refine List.findSome?_isSome_iff.mpr ⟨dropped, List.mem_range.mpr (by omega), ?_⟩
    rw [Option.isSome_iff_ne_none]
    intro hnone
    exact decodePrefix?_eq_none_iff.mp hnone hvalid
  obtain ⟨text, htext⟩ := Option.isSome_iff_exists.mp hfound
  exact ⟨text, htext, (utf8PrefixUpTo?_eq_some_iff.mp htext).2⟩

/-- **The longest text is kept.** What is found is the longest valid text within the first 16384 of
the bytes, and the longest one is found unless more than three of these bytes would be lost. No more
are lost of a text or of the beginning of one, wherever it is cut, so something is found there, and
nothing is found only if no text begins with the bytes that are looked at. -/
theorem longest_text_is_kept :
    (∀ (bytes : ByteArray) (text : String), utf8Prefix? bytes = some text ↔
      IsLongestText 16384 bytes text ∧ min bytes.size 16384 ≤ text.utf8ByteSize + 3) ∧
    (∀ bytes : ByteArray, BeginsText bytes → ∃ text, utf8Prefix? bytes = some text ∧
      min bytes.size 16384 ≤ text.utf8ByteSize + 3) ∧
    ∀ bytes : ByteArray, utf8Prefix? bytes = none →
      ¬BeginsText (bytes.extract 0 (min bytes.size 16384)) := by
  refine ⟨fun _ _ => utf8PrefixUpTo?_eq_some_iff, ?_, ?_⟩
  · intro bytes h
    exact exists_utf8PrefixUpTo? (h.extract _)
  · intro bytes hnone h
    obtain ⟨text, htext, _⟩ := exists_utf8PrefixUpTo? h
    have hboth : none = some text := hnone.symm.trans htext
    cases hboth

/-- A character of four bytes that is cut before its last one, a letter with half a character behind
it, and bytes that no text begins with. -/
theorem longest_text_is_kept_of_split_character :
    BeginsText ⟨#[0xF0, 0x9F, 0x98]⟩ ∧
      (∃ text, utf8Prefix? ⟨#[0xF0, 0x9F, 0x98]⟩ = some text ∧
        min 3 16384 ≤ text.utf8ByteSize + 3) ∧
      IsLongestText 16384 ⟨#[0x61, 0xC3]⟩ "a" ∧
      utf8Prefix? ⟨#[0xFF, 0xFF, 0xFF, 0xFF]⟩ = none ∧
      ¬BeginsText (ByteArray.extract ⟨#[0xFF, 0xFF, 0xFF, 0xFF]⟩ 0 (min 4 16384)) := by
  obtain ⟨hfound, hbegins, hnone⟩ := longest_text_is_kept
  have hcut : BeginsText ⟨#[0xF0, 0x9F, 0x98]⟩ := ⟨"😀", 3, by decide⟩
  have hnever : utf8Prefix? ⟨#[0xFF, 0xFF, 0xFF, 0xFF]⟩ = none := by decide
  refine ⟨hcut, hbegins _ hcut, ?_, hnever, hnone _ hnever⟩
  exact ((hfound ⟨#[0x61, 0xC3]⟩ "a").mp (by decide)).1

end Linkage.Text
