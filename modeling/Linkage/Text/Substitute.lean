/-!
# Replacing one character by another

`substitute a b s` writes `b` wherever `s` has `a`. It works character by character, so it keeps
the length and distributes over `++` (`toList_substitute` reduces it to a `map`). It can be undone
exactly on texts without `b` (`substitute_substitute_eq_self_iff`).
-/

namespace Linkage.Text

/-- The character that stands for `c` when `b` is written for `a`. -/
def swap (a b c : Char) : Char := if c = a then b else c

/-- The text with every `a` replaced by `b`. -/
def substitute (a b : Char) (s : String) : String := String.ofList (s.toList.map (swap a b))

@[simp] theorem toList_substitute (a b : Char) (s : String) :
    (substitute a b s).toList = s.toList.map (swap a b) := String.toList_ofList

theorem substitute_ofList (a b : Char) (cs : List Char) :
    substitute a b (String.ofList cs) = String.ofList (cs.map (swap a b)) := by
  rw [substitute, String.toList_ofList]

/-- The other characters are left where they were. -/
theorem mem_substitute_iff {a b c : Char} {s : String} (hca : c ≠ a) (hcb : c ≠ b) :
    c ∈ (substitute a b s).toList ↔ c ∈ s.toList := by
  rw [toList_substitute, List.mem_map]
  constructor
  · rintro ⟨d, hmem, hswap⟩
    unfold swap at hswap
    split at hswap
    · exact absurd hswap.symm hcb
    · exact hswap ▸ hmem
  · intro hmem
    exact ⟨c, hmem, if_neg hca⟩

/-- The replaced character is gone. -/
theorem not_mem_substitute {a b : Char} (hab : a ≠ b) (s : String) :
    a ∉ (substitute a b s).toList := by
  rw [toList_substitute, List.mem_map]
  rintro ⟨c, _, hswap⟩
  unfold swap at hswap
  split at hswap
  · exact hab hswap.symm
  · contradiction

@[simp] theorem substitute_self (a : Char) (s : String) : substitute a a s = s := by
  have hswap : swap a a = id := by
    funext c
    simp only [swap, id_eq, ite_eq_right_iff]
    exact Eq.symm
  rw [substitute, hswap, List.map_id, String.ofList_toList]

/-- The way over a second character can be shortened exactly when the text did not have it
before. -/
theorem substitute_substitute_eq_iff {a b c : Char} {s : String} (hab : a ≠ b) (hcb : c ≠ b) :
    substitute b c (substitute a b s) = substitute a c s ↔ b ∉ s.toList := by
  -- one character: the two ways differ only at `b`, which the short one leaves alone
  have hway : ∀ d, swap b c (swap a b d) = swap a c d ↔ d ≠ b := by
    intro d
    by_cases hb : d = b
    · simp [swap, hb, hcb, Ne.symm hab]
    · by_cases ha : d = a <;> simp [swap, ha, hb, hab]
  rw [← String.toList_inj, toList_substitute, toList_substitute, toList_substitute, List.map_map,
    List.map_inj_left]
  constructor
  · intro h hmem
    exact (hway b).mp (h b hmem) rfl
  · intro h d hmem
    exact (hway d).mpr fun hd => h (hd ▸ hmem)

/-- Replacing back gives the text again exactly when it did not have the new character before. -/
theorem substitute_substitute_eq_self_iff {a b : Char} {s : String} (hab : a ≠ b) :
    substitute b a (substitute a b s) = s ↔ b ∉ s.toList := by
  have hway := substitute_substitute_eq_iff (s := s) hab hab
  rwa [substitute_self] at hway

theorem substitute_eq_empty_iff {a b : Char} {s : String} : substitute a b s = "" ↔ s = "" := by
  rw [← String.toList_eq_nil_iff, toList_substitute, List.map_eq_nil_iff, String.toList_eq_nil_iff]

end Linkage.Text
