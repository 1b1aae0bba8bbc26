import Linkage.Declaration
import Mathlib.Data.List.DropRight

/-!
# Shortened declarations

The renderer shortens the name of a class and puts the brackets of its dimensions behind it. The
same comes out when the whole declaration of the type, brackets and all, is shortened: brackets
have neither a dot nor a letter, so they cannot move the last dot and cannot complete a package
name. `shorten` is that other way round, said without the renderer's own functions.
-/

namespace Linkage.Declaration

/-- A declaration as the options show it: without a leading `java.lang.`, or only the part after
the last dot unless that dot comes first. -/
def shorten (fullNames : Bool) (declaration : String) : String :=
  let cs := declaration.toList
  String.ofList <|
    if fullNames then
      if "java.lang.".toList <+: cs then cs.drop 10 else cs
    else if '.' ∈ cs.tail then cs.rtakeWhile (· ≠ '.') else cs

theorem toList_shorten (fullNames : Bool) (declaration : String) :
    (shorten fullNames declaration).toList =
      if fullNames then
        if corePackage <+: declaration.toList then declaration.toList.drop 10
        else declaration.toList
      else if '.' ∈ declaration.toList.tail then declaration.toList.rtakeWhile (· ≠ '.')
      else declaration.toList :=
  String.toList_ofList

/-! ## Brackets -/

theorem mem_brackets {rank : Nat} {c : Char} (h : c ∈ (Ty.brackets rank).toList) :
    c = '[' ∨ c = ']' := by
  rw [Ty.brackets, String.toList_join, List.mem_flatMap] at h
  obtain ⟨pair, hpair, hmem⟩ := h
  rw [(List.mem_replicate.mp hpair).2] at hmem
  simpa using hmem

/-! ## The last dot -/

/-- Text without a dot stays behind the simple name. -/
theorem simpleName_append (dotted : List Char) {suffix : List Char} (h : '.' ∉ suffix) :
    simpleName dotted ++ suffix =
      if '.' ∈ (dotted ++ suffix).tail then (dotted ++ suffix).rtakeWhile (· ≠ '.')
      else dotted ++ suffix := by
  unfold simpleName
  split
  · next c before simple hcut =>
      -- seen from the end, the suffix and the simple name come before the last dot
      obtain ⟨rfl, hsimple⟩ := Text.cutLast?_eq_some_iff.mp hcut
      have hdot : '.' ∈ (c :: before ++ '.' :: simple ++ suffix).tail := by simp
      have hall : ∀ d ∈ (simple ++ suffix).reverse, decide (d ≠ '.') = true := by
        intro d hd
        rw [List.mem_reverse, List.mem_append] at hd
        apply decide_eq_true
        rintro rfl
        rcases hd with hd | hd
        · exact hsimple hd
        · exact h hd
      have hreverse : (c :: before ++ '.' :: simple ++ suffix).reverse =
          (simple ++ suffix).reverse ++ '.' :: (c :: before).reverse := by simp
      rw [if_pos hdot, List.rtakeWhile, hreverse, List.takeWhile_append_of_pos hall,
        List.takeWhile_cons_of_neg (by simp), List.append_nil, List.reverse_reverse]
  · next simple hcut =>
      -- the only dot comes first
      obtain ⟨rfl, hsimple⟩ := Text.cutLast?_eq_some_iff.mp hcut
      rw [if_neg]
      simp [hsimple, h]
  · next hcut =>
      -- no dot at all, neither in the name nor in the suffix
      have hdots : '.' ∉ dotted := Text.cutLast?_eq_none_iff.mp hcut
      rw [if_neg]
      intro hmem
      rcases List.mem_append.mp (List.mem_of_mem_tail hmem) with hmem | hmem
      · exact hdots hmem
      · exact h hmem

/-! ## The core package -/

/-- Text without a character of the package cannot complete its name. -/
theorem prefix_append_iff {p cs suffix : List Char} (h : ∀ c ∈ p, c ∉ suffix) :
    p <+: cs ++ suffix ↔ p <+: cs := by
  constructor
  · intro hp
    by_cases hlen : p.length ≤ cs.length
    · exact List.prefix_of_prefix_length_le hp (List.prefix_append _ _) hlen
    · -- a longer prefix has a character of `suffix`, right behind `cs`
      exfalso
      have hcs : cs <+: p :=
        List.prefix_of_prefix_length_le (List.prefix_append _ _) hp (by omega)
      obtain ⟨more, rfl⟩ := hcs
      rw [List.prefix_append_right_inj] at hp
      cases more with
      | nil => simp at hlen
      | cons c more => exact h c (by simp) (hp.subset (by simp))
  · intro hp
    exact hp.trans (List.prefix_append _ _)

/-- Text that shares no character with the package name stays behind what is left of the name. -/
theorem withoutCorePackage_append (dotted : List Char) {suffix : List Char}
    (h : ∀ c ∈ corePackage, c ∉ suffix) :
    withoutCorePackage dotted ++ suffix =
      if corePackage <+: dotted ++ suffix then (dotted ++ suffix).drop 10
      else dotted ++ suffix := by
  unfold withoutCorePackage
  by_cases hp : corePackage <+: dotted
  · have hlen : corePackage.length ≤ dotted.length := hp.length_le
    rw [if_pos (List.isPrefixOf_iff_prefix.mpr hp), if_pos ((prefix_append_iff h).mpr hp)]
    exact (List.drop_append_of_le_length hlen).symm
  · rw [if_neg (mt List.isPrefixOf_iff_prefix.mp hp), if_neg (mt (prefix_append_iff h).mp hp)]

/-! ## Names with brackets -/

/-- To shorten a declaration is to shorten the name in it. -/
theorem shorten_append_brackets (fullNames : Bool) (dotted : String) (rank : Nat) :
    shorten fullNames (dotted ++ Ty.brackets rank) =
      String.ofList
          (if fullNames then withoutCorePackage dotted.toList else simpleName dotted.toList)
        ++ Ty.brackets rank := by
  -- neither shortening can see the brackets: they hold no dot and no letter
  have hdot : '.' ∉ (Ty.brackets rank).toList := by
    intro hmem
    rcases mem_brackets hmem with h | h <;> cases h
  have hcore : ∀ c ∈ corePackage, c ∉ (Ty.brackets rank).toList := by
    intro c hc hmem
    rcases mem_brackets hmem with rfl | rfl <;> exact absurd hc (by decide)
  rw [← String.toList_inj, toList_shorten, String.toList_append, String.toList_append,
    String.toList_ofList]
  cases fullNames with
  | true =>
      rw [if_pos rfl, if_pos rfl]
      exact (withoutCorePackage_append dotted.toList hcore).symm
  | false =>
      rw [if_neg Bool.false_ne_true, if_neg Bool.false_ne_true]
      exact (simpleName_append dotted.toList hdot).symm

/-- A keyword has no package. -/
theorem shorten_keyword (fullNames : Bool) (p : Primitive) (rank : Nat) :
    shorten fullNames (p.keyword ++ Ty.brackets rank) = p.keyword ++ Ty.brackets rank := by
  rw [shorten_append_brackets]
  cases fullNames <;> cases p <;> rfl

end Linkage.Declaration
