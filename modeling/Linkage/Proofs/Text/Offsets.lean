import Linkage.Text.Cut

/-!
# Byte offsets

A place in a text can be named by the number of bytes before it, in UTF-8. Not every number names
one: it may lie behind the end or inside a character. So `slice?`, the text between two offsets, is
partial, and it gives exactly the parts that the text can be put together from
(`slice?_eq_some_iff`).

The other functions that a scanner by offsets uses either find an offset (`find?`, `findLast?`) or
count bytes (`leading?`). On the characters they are `cut?`, `cutLast?` and the length of a
`takeWhile`.
-/

namespace Linkage.Text

/-- The number of bytes that the characters take. -/
def byteSize : List Char → Nat
  | [] => 0
  | c :: cs => c.utf8Size + byteSize cs

/-- The characters with their offsets, the first of them at `start`. -/
def withOffsets (start : Nat) : List Char → List (Nat × Char)
  | [] => []
  | c :: cs => (start, c) :: withOffsets (start + c.utf8Size) cs

/-- A place in the text that a number of bytes can name: not behind the end, not in a character. -/
def IsOffset (text : String) (offset : Nat) : Prop := String.Pos.Raw.IsValid text ⟨offset⟩

instance (text : String) (offset : Nat) : Decidable (IsOffset text offset) :=
  inferInstanceAs (Decidable (String.Pos.Raw.IsValid text ⟨offset⟩))

/-- The bytes between two offsets are those of a text. -/
theorem isValidUTF8_extract {text : String} {start stop : Nat} (hle : start ≤ stop)
    (hstart : IsOffset text start) (hstop : IsOffset text stop) :
    (text.toByteArray.extract start stop).IsValidUTF8 :=
  (String.Pos.Raw.isValidUTF8_extract_iff ⟨start⟩ ⟨stop⟩ hle hstop.le_rawEndPos).mpr
    (.inr ⟨hstart, hstop⟩)

/-- The text between two offsets, in this order. -/
def slice? (text : String) (start stop : Nat) : Option String :=
  if h : start ≤ stop ∧ IsOffset text start ∧ IsOffset text stop then
    some ⟨text.toByteArray.extract start stop, isValidUTF8_extract h.1 h.2.1 h.2.2⟩
  else none

/-- By how much the first number is larger, unless it is smaller. -/
def difference? (a b : Nat) : Option Nat := if b ≤ a then some (a - b) else none

/-- The offset of the first `c`. -/
def find? (c : Char) (text : String) : Option Nat :=
  ((withOffsets 0 text.toList).find? (·.2 = c)).map Prod.fst

/-- The offset of the last `c`. -/
def findLast? (c : Char) (text : String) : Option Nat :=
  ((withOffsets 0 text.toList).reverse.find? (·.2 = c)).map Prod.fst

/-- The text without the `c` in front. -/
def trimStart (c : Char) (text : String) : String := String.ofList (text.toList.dropWhile (· = c))

/-- The number of bytes that `trimStart` drops. -/
def leading? (c : Char) (text : String) : Option Nat :=
  difference? text.utf8ByteSize (trimStart c text).utf8ByteSize

example : slice? "aé(" 1 3 = some "é" := by decide
example : slice? "aé(" 2 4 = none := by decide
example : slice? "aé(" 3 1 = none := by decide

/-! ## Sizes -/

@[simp] theorem byteSize_nil : byteSize [] = 0 := rfl

@[simp] theorem byteSize_cons (c : Char) (cs : List Char) :
    byteSize (c :: cs) = c.utf8Size + byteSize cs := rfl

@[simp] theorem byteSize_append (a b : List Char) :
    byteSize (a ++ b) = byteSize a + byteSize b := by
  induction a with
  | nil => simp
  | cons c a ih => rw [List.cons_append, byteSize_cons, byteSize_cons, ih, Nat.add_assoc]

@[simp] theorem utf8ByteSize_ofList (cs : List Char) :
    (String.ofList cs).utf8ByteSize = byteSize cs := by
  induction cs with
  | nil => simp
  | cons c cs ih => rw [String.ofList_cons, String.utf8ByteSize_append, ih]; simp

theorem byteSize_eq_zero_iff {cs : List Char} : byteSize cs = 0 ↔ cs = [] := by
  cases cs with
  | nil => simp
  | cons c cs =>
      have hc := c.utf8Size_pos
      simp only [byteSize_cons, reduceCtorEq, iff_false]
      omega

theorem utf8ByteSize_eq (text : String) : text.utf8ByteSize = byteSize text.toList := by
  rw [← utf8ByteSize_ofList, String.ofList_toList]

theorem withOffsets_append (start : Nat) (a b : List Char) :
    withOffsets start (a ++ b) = withOffsets start a ++ withOffsets (start + byteSize a) b := by
  induction a generalizing start with
  | nil => rfl
  | cons c a ih => simp [withOffsets, ih, Nat.add_assoc]

/-! ## Slices -/

/-- A slice is a part of the text, and the offsets are the places around it. -/
theorem slice?_eq_some_iff {text part : String} {start stop : Nat} :
    slice? text start stop = some part ↔
      ∃ before after : String, text = before ++ part ++ after ∧ start = before.utf8ByteSize ∧
        stop = before.utf8ByteSize + part.utf8ByteSize := by
  constructor
  · intro h
    unfold slice? at h
    split at h
    · next hoffsets =>
        obtain ⟨hle, hstart, hstop⟩ := hoffsets
        have hend : stop ≤ text.toByteArray.size := hstop.le_rawEndPos
        -- what lies outside the slice is text as well, since the slice starts and stops at offsets
        obtain ⟨before, hbefore⟩ : ∃ before : String,
            before.toByteArray = text.toByteArray.extract 0 start :=
          ⟨⟨_, hstart.isValidUTF8_extract_zero⟩, rfl⟩
        obtain ⟨after, hafter⟩ : ∃ after : String,
            after.toByteArray = text.toByteArray.extract stop text.toByteArray.size :=
          ⟨⟨_, hstop.isValidUTF8_extract_utf8ByteSize⟩, rfl⟩
        have hsize : before.utf8ByteSize = start := by
          rw [← String.size_toByteArray, hbefore, ByteArray.size_extract]
          omega
        cases h
        refine ⟨before, after, ?_, hsize.symm, ?_⟩
        · rw [← String.toByteArray_inj, String.toByteArray_append, String.toByteArray_append,
            hbefore, hafter,
            ← ByteArray.extract_eq_extract_append_extract start (Nat.zero_le _) hle,
            ← ByteArray.extract_eq_extract_append_extract stop (Nat.zero_le _) hend,
            ByteArray.extract_zero_size]
        · rw [hsize, ← String.size_toByteArray, ByteArray.size_extract]
          omega
    · cases h
  · rintro ⟨before, after, rfl, rfl, rfl⟩
    -- both numbers are offsets by the parts before them, and the bytes between them are the part
    have hstart : IsOffset (before ++ part ++ after) before.utf8ByteSize :=
      String.Pos.Raw.isValid_iff_exists_append.mpr ⟨before, part ++ after, String.append_assoc, rfl⟩
    have hstop : IsOffset (before ++ part ++ after) (before.utf8ByteSize + part.utf8ByteSize) := by
      rw [← String.utf8ByteSize_append]
      exact String.Pos.Raw.isValid_iff_exists_append.mpr ⟨before ++ part, after, rfl, rfl⟩
    have hextract : (before ++ part ++ after).toByteArray.extract before.utf8ByteSize
        (before.utf8ByteSize + part.utf8ByteSize) = part.toByteArray := by
      rw [String.toByteArray_append, String.toByteArray_append, ← String.size_toByteArray,
        ← String.size_toByteArray, ← ByteArray.size_append, ByteArray.extract_append_size_left,
        ByteArray.size_append, ByteArray.extract_append_eq_right rfl rfl]
    rw [slice?, dif_pos ⟨Nat.le_add_right _ _, hstart, hstop⟩, Option.some.injEq,
      ← String.toByteArray_inj]
    exact hextract

/-- The slice from where a part of the text starts to where it ends is that part. -/
theorem slice?_part {text : String} {before part after : List Char}
    (h : text.toList = before ++ part ++ after) :
    slice? text (byteSize before) (byteSize before + byteSize part) =
      some (String.ofList part) := by
  refine slice?_eq_some_iff.mpr ⟨String.ofList before, String.ofList after, ?_, by simp, by simp⟩
  rw [← String.toList_inj, h]
  simp

theorem slice?_front {text : String} {front rest : List Char} (h : text.toList = front ++ rest) :
    slice? text 0 (byteSize front) = some (String.ofList front) := by
  have hpart : slice? text (byteSize []) (byteSize [] + byteSize front) =
      some (String.ofList front) := slice?_part h
  rwa [byteSize_nil, Nat.zero_add] at hpart

theorem slice?_rest {text : String} {front rest : List Char} (h : text.toList = front ++ rest) :
    slice? text (byteSize front) text.utf8ByteSize = some (String.ofList rest) := by
  have hend : text.toList = front ++ rest ++ [] := by rw [h, List.append_nil]
  rw [utf8ByteSize_eq, h, byteSize_append]
  exact slice?_part hend

theorem slice?_tail {text : String} {c : Char} {cs : List Char} (h : text.toList = c :: cs) :
    slice? text c.utf8Size text.utf8ByteSize = some (String.ofList cs) := by
  have hfront : text.toList = [c] ++ cs := h
  simpa using slice?_rest hfront

/-! ## Offsets that are found -/

theorem find?_withOffsets_eq_none {c : Char} {cs : List Char} (h : c ∉ cs) (start : Nat) :
    (withOffsets start cs).find? (·.2 = c) = none := by
  induction cs generalizing start with
  | nil => rfl
  | cons d cs ih =>
      obtain ⟨hd, hrest⟩ := not_or.mp (mt List.mem_cons.mpr h)
      simp [withOffsets, Ne.symm hd, ih hrest]

theorem find?_reverse_withOffsets_eq_none {c : Char} {cs : List Char} (h : c ∉ cs) (start : Nat) :
    (withOffsets start cs).reverse.find? (·.2 = c) = none := by
  have hnone := find?_withOffsets_eq_none h start
  rw [List.find?_eq_none] at hnone ⊢
  intro place hmem
  exact hnone place (List.mem_reverse.mp hmem)

/-- The first offset of a character is the size of what is cut off before it. -/
theorem find?_eq_map_cut? (c : Char) (text : String) :
    find? c text = (cut? c text.toList).map fun (before, _) => byteSize before := by
  unfold find?
  cases hcut : cut? c text.toList with
  | none =>
      rw [find?_withOffsets_eq_none (cut?_eq_none_iff.mp hcut)]
      rfl
  | some parts =>
      obtain ⟨before, after⟩ := parts
      obtain ⟨hsplit, hbefore⟩ := cut?_eq_some_iff.mp hcut
      -- no place in the first part will do, so it is the one right behind it
      rw [hsplit, withOffsets_append, List.find?_append, find?_withOffsets_eq_none hbefore]
      simp [withOffsets]

/-- The last offset of a character is the size of what stands before its last cut. -/
theorem findLast?_eq_map_cutLast? (c : Char) (text : String) :
    findLast? c text = (cutLast? c text.toList).map fun (before, _) => byteSize before := by
  unfold findLast?
  cases hcut : cutLast? c text.toList with
  | none =>
      rw [find?_reverse_withOffsets_eq_none (cutLast?_eq_none_iff.mp hcut)]
      rfl
  | some parts =>
      obtain ⟨before, after⟩ := parts
      obtain ⟨hsplit, hafter⟩ := cutLast?_eq_some_iff.mp hcut
      -- from the end, no place in the second part will do
      rw [hsplit, withOffsets_append, withOffsets, List.reverse_append, List.reverse_cons,
        List.append_assoc, List.find?_append, find?_reverse_withOffsets_eq_none hafter]
      simp

/-- The parts around a character, cut out by the offset of the character. -/
theorem slices_around {text : String} {c : Char} {before after : List Char}
    (h : text.toList = before ++ c :: after) :
    slice? text 0 (byteSize before) = some (String.ofList before) ∧
      slice? text (byteSize before + c.utf8Size) text.utf8ByteSize =
        some (String.ofList after) := by
  have hrest : text.toList = (before ++ [c]) ++ after := by
    rw [h, List.append_assoc, List.singleton_append]
  have hslice := slice?_rest hrest
  rw [byteSize_append, byteSize_cons, byteSize_nil, Nat.add_zero] at hslice
  exact ⟨slice?_front h, hslice⟩

/-! ## Bytes that are counted -/

theorem byteSize_takeWhile {c : Char} (hc : c.utf8Size = 1) (cs : List Char) :
    byteSize (cs.takeWhile (· = c)) = (cs.takeWhile (· = c)).length := by
  induction cs with
  | nil => rfl
  | cons d cs ih =>
      by_cases hd : d = c
      · subst hd
        simp [hc, ih, Nat.add_comm]
      · simp [hd]

/-- A character of one byte in front is counted as often as it is there. -/
theorem leading?_eq {c : Char} (hc : c.utf8Size = 1) (text : String) :
    leading? c text = some (text.toList.takeWhile (· = c)).length := by
  -- the run in front and what is left of it make up the text, so the difference is the run
  have hsplit : text.utf8ByteSize =
      (text.toList.takeWhile (· = c)).length + (trimStart c text).utf8ByteSize := by
    rw [utf8ByteSize_eq, trimStart, utf8ByteSize_ofList, ← byteSize_takeWhile hc, ← byteSize_append,
      List.takeWhile_append_dropWhile]
  rw [leading?, hsplit, difference?, if_pos (Nat.le_add_left _ _), Nat.add_sub_cancel]

end Linkage.Text
