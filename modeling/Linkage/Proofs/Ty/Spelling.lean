import Linkage.Ty.Basic

/-!
# Reading undoes spelling

`Ty.split` finds a type at the front of a text exactly when the text starts with the spelling of
a type that can be read, and it hands back what follows that spelling:

    split_eq_ok_iff : split cs = .ok (ty, rest) ↔ ty.Readable ∧ cs = ty.spell ++ rest
    whole_eq_ok_iff : whole cs = .ok ty         ↔ ty.Readable ∧ cs = ty.spell

No text spells two types (`descriptor_inj`). A type cannot be read when its class is not known, or
when the name of its class is empty or has a `;`.
-/

namespace Linkage

/-! ## Types that can be read -/

/-- The characters of the class name of an element; none unless it is a known class. -/
def Element.className : Element → List Char
  | object name => name.toList
  | primitive _ | anyObject => []

/-- An element whose spelling a reader takes for that element. -/
def Element.Readable : Element → Prop
  | primitive _ => True
  | object name => name ≠ "" ∧ ';' ∉ name.toList
  | anyObject => False

instance Element.decidableReadable : (element : Element) → Decidable element.Readable
  | primitive _ => inferInstanceAs (Decidable True)
  | object name => inferInstanceAs (Decidable (name ≠ "" ∧ ';' ∉ name.toList))
  | anyObject => inferInstanceAs (Decidable False)

namespace Ty

/-- A type whose spelling a reader takes for that type. -/
def Readable (ty : Ty) : Prop := ty.element.Readable

instance (ty : Ty) : Decidable ty.Readable := inferInstanceAs (Decidable ty.element.Readable)

/-- A type that can stand in an argument list, where a `)` cuts off a class name. -/
structure FitsArgument (ty : Ty) : Prop where
  readable : ty.Readable
  no_close : ')' ∉ ty.element.className

instance (ty : Ty) : Decidable ty.FitsArgument :=
  decidable_of_iff (ty.Readable ∧ ')' ∉ ty.element.className)
    ⟨fun h => ⟨h.1, h.2⟩, fun h => ⟨h.readable, h.no_close⟩⟩

@[simp] theorem toList_descriptor (ty : Ty) : ty.descriptor.toList = ty.spell :=
  String.toList_ofList

/-- A class name stands in full in the spelling of its type. -/
theorem mem_spell_of_mem_className {ty : Ty} {c : Char} (h : c ∈ ty.element.className) :
    c ∈ ty.spell := by
  obtain ⟨element, rank⟩ := ty
  cases element with
  | primitive p => simp [Element.className] at h
  | object name =>
      have hname : c ∈ name.toList := h
      simp [spell, Element.spell, hname]
  | anyObject => simp [Element.className] at h

/-! ## Runs of markers -/

/-- The markers at the front of a text, as many as there are. -/
theorem replicate_takeWhile_append_dropWhile (cs : List Char) :
    List.replicate (cs.takeWhile (· = '[')).length '[' ++ cs.dropWhile (· = '[') = cs := by
  have hrun : cs.takeWhile (· = '[') = List.replicate (cs.takeWhile (· = '[')).length '[' := by
    rw [List.eq_replicate_iff]
    refine ⟨rfl, ?_⟩
    intro c hc
    have hmarker := List.all_eq_true.mp List.all_takeWhile c hc
    simpa using hmarker
  rw [← hrun]
  exact List.takeWhile_append_dropWhile

theorem takeWhile_replicate_append {cs : List Char} (h : cs.head? ≠ some '[') (rank : Nat) :
    (List.replicate rank '[' ++ cs).takeWhile (· = '[') = List.replicate rank '[' := by
  rw [List.takeWhile_append_of_pos (by simp)]
  cases cs with
  | nil => simp
  | cons c cs =>
      have hc : c ≠ '[' := by simpa using h
      simp [hc]

theorem dropWhile_replicate_append {cs : List Char} (h : cs.head? ≠ some '[') (rank : Nat) :
    (List.replicate rank '[' ++ cs).dropWhile (· = '[') = cs := by
  rw [List.dropWhile_append_of_pos (by simp)]
  cases cs with
  | nil => rfl
  | cons c cs =>
      have hc : c ≠ '[' := by simpa using h
      simp [hc]

/-- An element never starts like an array. -/
theorem head?_element_spell (element : Element) (rest : List Char) :
    (element.spell ++ rest).head? ≠ some '[' := by
  cases element with
  | primitive p => cases p <;> simp [Element.spell, Primitive.tag]
  | object name => simp [Element.spell]
  | anyObject => simp [Element.spell]

theorem head?_spell (element : Element) : element.spell.head? ≠ some '[' := by
  simpa using head?_element_spell element []

/-! ## Types that are spelled alike -/

/-- No two elements are spelled alike, not even those that no reader takes. -/
theorem element_spell_injective {a b : Element} (h : a.spell = b.spell) : a = b := by
  cases a with
  | primitive p =>
      cases b with
      | primitive q => rw [Primitive.tag_injective (List.singleton_inj.mp h)]
      | object name => simp [Element.spell] at h
      | anyObject => cases p <;> cases h
  | object name =>
      cases b with
      | primitive q => simp [Element.spell] at h
      | object other =>
          -- both names stand between the same `L` and the same `;`
          have hname : name.toList = other.toList := by simpa [Element.spell] using h
          rw [String.toList_inj.mp hname]
      | anyObject => simp [Element.spell] at h
  | anyObject =>
      cases b with
      | primitive q => cases q <;> cases h
      | object other => simp [Element.spell] at h
      | anyObject => rfl

/-- Types that are spelled alike are the same. -/
theorem spell_injective {a b : Ty} (h : a.spell = b.spell) : a = b := by
  obtain ⟨element, rank⟩ := a
  obtain ⟨other, rank'⟩ := b
  have hhead := head?_spell element
  have hhead' := head?_spell other
  -- the markers end where the element starts, in one spelling as in the other
  have hmarkers : List.replicate rank '[' = List.replicate rank' '[' := by
    rw [← takeWhile_replicate_append hhead rank, ← takeWhile_replicate_append hhead' rank']
    exact congrArg (List.takeWhile (· = '[')) h
  have helement : element.spell = other.spell := by
    rw [← dropWhile_replicate_append hhead rank, ← dropWhile_replicate_append hhead' rank']
    exact congrArg (List.dropWhile (· = '[')) h
  have hrank : rank = rank' := by simpa using congrArg List.length hmarkers
  rw [element_spell_injective helement, hrank]

/-- No text describes two types. -/
theorem descriptor_inj {a b : Ty} : a.descriptor = b.descriptor ↔ a = b := by
  constructor
  · intro h
    have hspell := congrArg String.toList h
    rw [toList_descriptor, toList_descriptor] at hspell
    exact spell_injective hspell
  · rintro rfl
    rfl

/-! ## Two directions -/

/-- What a type spells is read as that type, whatever follows. -/
theorem split_spell_append {ty : Ty} (h : ty.Readable) (rest : List Char) :
    split (ty.spell ++ rest) = .ok (ty, rest) := by
  obtain ⟨element, rank⟩ := ty
  have hhead := head?_element_spell element rest
  unfold split
  simp only [spell, List.append_assoc]
  rw [takeWhile_replicate_append hhead, dropWhile_replicate_append hhead, List.length_replicate]
  cases element with
  | primitive p =>
      have htag : Tag.ofChar? p.tag = some (.primitive p) := Tag.ofChar?_char (.primitive p)
      simp [Element.spell, htag]
  | object name =>
      obtain ⟨hne, hend⟩ := h
      have htag : Tag.ofChar? 'L' = some .classStart := rfl
      have hcut : Text.cut? ';' (name.toList ++ ';' :: rest) = some (name.toList, rest) :=
        Text.cut?_append hend rest
      simp only [Element.spell, List.cons_append, List.append_assoc, List.nil_append, htag, hcut]
      -- the reader refuses an empty name, which `hne` rules out
      cases hname : name.toList with
      | nil => exact absurd (String.toList_eq_nil_iff.mp hname) hne
      | cons c cs => simp [← hname]
  | anyObject => exact h.elim

/-- A type that was read is what the text spelled, up to the rest. -/
theorem eq_spell_of_split {cs rest : List Char} {ty : Ty} (h : split cs = .ok (ty, rest)) :
    ty.Readable ∧ cs = ty.spell ++ rest := by
  have hcs := replicate_takeWhile_append_dropWhile cs
  unfold split at h
  -- from here on the markers are just a number; the element behind them decides
  generalize (cs.takeWhile (· = '[')).length = rank at h hcs
  cases hdrop : cs.dropWhile (· = '[') with
  | nil => simp [hdrop] at h
  | cons c after =>
      simp only [hdrop] at h hcs
      subst hcs
      split at h
      · next htag =>
          -- an `L`: the name goes up to the first `;`, unless there is none or it is empty
          obtain rfl : 'L' = c := Tag.char_of_ofChar? htag
          split at h
          · cases h
          · cases h
          · next name after' hne hcut =>
              cases h
              obtain ⟨rfl, hend⟩ := Text.eq_of_cut? hcut
              refine ⟨⟨?_, ?_⟩, ?_⟩
              · intro hempty
                exact hne (String.ofList_eq_empty_iff.mp hempty)
              · simpa using hend
              · simp [spell, Element.spell]
      · next p htag =>
          cases h
          obtain rfl : p.tag = c := Tag.char_of_ofChar? htag
          exact ⟨trivial, by simp [spell, Element.spell]⟩
      · cases h

/-! ## Reading and spelling -/

/-- A type is read from the front of the texts that start with its spelling. -/
theorem split_eq_ok_iff {cs rest : List Char} {ty : Ty} :
    split cs = .ok (ty, rest) ↔ ty.Readable ∧ cs = ty.spell ++ rest := by
  constructor
  · intro h
    exact eq_spell_of_split h
  · rintro ⟨h, rfl⟩
    exact split_spell_append h rest

theorem whole_eq_ok_iff {cs : List Char} {ty : Ty} :
    whole cs = .ok ty ↔ ty.Readable ∧ cs = ty.spell := by
  have hsplit : whole cs = .ok ty ↔ split cs = .ok (ty, []) := by
    unfold whole
    split <;> simp_all
  rw [hsplit, split_eq_ok_iff, List.append_nil]

theorem whole_spell {ty : Ty} (h : ty.Readable) : whole ty.spell = .ok ty :=
  whole_eq_ok_iff.mpr ⟨h, rfl⟩

/-- A type is read from its descriptor alone. -/
theorem parse_eq_ok_iff {desc : String} {ty : Ty} :
    parse desc = .ok ty ↔ ty.Readable ∧ desc = ty.descriptor := by
  rw [parse, mapError_eq_ok_iff, whole_eq_ok_iff, ← toList_descriptor, String.toList_inj]

end Ty
end Linkage
