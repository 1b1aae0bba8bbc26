/-!
# Cutting a text at a character

`cut? stop cs` splits `cs` around the first `stop`, `cutLast? stop cs` around the last one. Both
are characterized by the text they came from:

    cut?_eq_some_iff     : cut? stop cs = some (a, b)     ↔ cs = a ++ stop :: b ∧ stop ∉ a
    cutLast?_eq_some_iff : cutLast? stop cs = some (a, b) ↔ cs = a ++ stop :: b ∧ stop ∉ b
-/

namespace Linkage.Text

/-- What stands before the first `stop`, and what stands after it. -/
def cut? (stop : Char) (cs : List Char) : Option (List Char × List Char) :=
  match cs.dropWhile (· != stop) with
  | [] => none
  | _ :: after => some (cs.takeWhile (· != stop), after)

/-- What stands before the last `stop`, and what stands after it. -/
def cutLast? (stop : Char) (cs : List Char) : Option (List Char × List Char) :=
  (cut? stop cs.reverse).map fun (after, before) => (before.reverse, after.reverse)

/-! ### The first one -/

theorem cut?_nil (stop : Char) : cut? stop [] = none := rfl

theorem cut?_cons_self (stop : Char) (cs : List Char) : cut? stop (stop :: cs) = some ([], cs) := by
  simp [cut?]

theorem cut?_cons_of_ne {stop c : Char} (h : c ≠ stop) (cs : List Char) :
    cut? stop (c :: cs) = (cut? stop cs).map fun (a, b) => (c :: a, b) := by
  unfold cut?
  rw [List.dropWhile_cons_of_pos (by simpa using h)]
  cases cs.dropWhile (· != stop) with
  | nil => rfl
  | cons _ after => simp [h]

theorem cut?_append {stop : Char} {a : List Char} (h : stop ∉ a) (b : List Char) :
    cut? stop (a ++ stop :: b) = some (a, b) := by
  induction a with
  | nil => exact cut?_cons_self stop b
  | cons c a ih =>
    have hc : c ≠ stop := fun e => h (by simp [e])
    rw [List.cons_append, cut?_cons_of_ne hc, ih fun m => h (by simp [m])]
    rfl

/-- The parts make up the text, and the cut was the first one. -/
theorem eq_of_cut? {stop : Char} {cs a b : List Char} (h : cut? stop cs = some (a, b)) :
    cs = a ++ stop :: b ∧ stop ∉ a := by
  induction cs generalizing a with
  | nil => cases h
  | cons c cs ih =>
    -- either the cut is here, or it is the cut of the rest with one more character before it
    by_cases hc : c = stop
    · subst hc
      rw [cut?_cons_self] at h
      cases h
      simp
    · rw [cut?_cons_of_ne hc, Option.map_eq_some_iff] at h
      obtain ⟨⟨a', b'⟩, hcut, heq⟩ := h
      cases heq
      obtain ⟨rfl, hmem⟩ := ih hcut
      exact ⟨rfl, by simp [hmem, Ne.symm hc]⟩

theorem cut?_eq_some_iff {stop : Char} {cs a b : List Char} :
    cut? stop cs = some (a, b) ↔ cs = a ++ stop :: b ∧ stop ∉ a :=
  ⟨eq_of_cut?, fun ⟨h, hmem⟩ => h ▸ cut?_append hmem b⟩

theorem cut?_eq_none_iff {stop : Char} {cs : List Char} : cut? stop cs = none ↔ stop ∉ cs := by
  induction cs with
  | nil => simp [cut?_nil]
  | cons c cs ih =>
    by_cases hc : c = stop
    · simp [hc, cut?_cons_self]
    · simp [cut?_cons_of_ne hc, ih, Ne.symm hc]

/-- What follows the cut is shorter than the whole. -/
theorem length_lt_of_cut? {stop : Char} {cs a b : List Char} (h : cut? stop cs = some (a, b)) :
    b.length < cs.length := by
  obtain ⟨rfl, _⟩ := eq_of_cut? h
  simp only [List.length_append, List.length_cons]
  omega

/-! ### The last one -/

/-- The last cut leaves no other behind it. -/
theorem cutLast?_eq_some_iff {stop : Char} {cs a b : List Char} :
    cutLast? stop cs = some (a, b) ↔ cs = a ++ stop :: b ∧ stop ∉ b := by
  unfold cutLast?
  rw [Option.map_eq_some_iff]
  constructor
  · -- the first cut of the reversed text, with its parts turned around again
    rintro ⟨⟨x, y⟩, hcut, heq⟩
    cases heq
    obtain ⟨hcs, hmem⟩ := eq_of_cut? hcut
    refine ⟨?_, by simpa using hmem⟩
    rw [← cs.reverse_reverse, hcs]
    simp
  · rintro ⟨rfl, hmem⟩
    refine ⟨(b.reverse, a.reverse), cut?_eq_some_iff.mpr ⟨by simp, by simpa using hmem⟩, by simp⟩

/-- The direction of the search does not matter to a text that is not cut. -/
theorem cutLast?_eq_none_iff {stop : Char} {cs : List Char} :
    cutLast? stop cs = none ↔ stop ∉ cs := by
  rw [cutLast?, Option.map_eq_none_iff, cut?_eq_none_iff, List.mem_reverse]

end Linkage.Text
