import Linkage.Proofs.Ty.Spelling

/-!
# Why a text is not the descriptor of a type

`Refused cs reason` says what a text that spells no type looks like, one form for each reason, and
the reader gives exactly that reason:

    whole_eq_error_iff : whole cs = .error reason ↔ Refused cs reason

Of these forms, two are the beginning of a descriptor, so more text can still mend them
(`Refused.exists_completion`), and the others keep their form whatever follows (`Refused.append`).
The reason alone tells them apart (`exists_completion_iff`).
-/

namespace Linkage

/-! ## Unfinished texts -/

namespace Reason

/-- The text ends too early, and more text may mend it. -/
def Unfinished (reason : Reason) : Prop :=
  reason ∈ [unterminatedArguments, missingElement, unterminatedClass]

instance (reason : Reason) : Decidable reason.Unfinished :=
  inferInstanceAs
    (Decidable (reason ∈ [unterminatedArguments, missingElement, unterminatedClass]))

theorem unfinished_iff (reason : Reason) :
    reason.Unfinished ↔
      reason.message ∈
        ["unterminated argument list", "missing element type", "unterminated class reference"] := by
  cases reason <;> decide

end Reason

namespace Ty

/-! ## The forms of refused texts -/

/-- The texts that spell no type, by the reason. -/
inductive Refused : List Char → Reason → Prop where
  | missingElement (rank : Nat) : Refused (List.replicate rank '[') .missingElement
  | unterminatedClass (rank : Nat) {body : List Char} : ';' ∉ body →
      Refused (List.replicate rank '[' ++ 'L' :: body) .unterminatedClass
  | emptyClassName (rank : Nat) (rest : List Char) :
      Refused (List.replicate rank '[' ++ 'L' :: ';' :: rest) .emptyClassName
  | unrecognizedTag (rank : Nat) {c : Char} (rest : List Char) : c ≠ '[' → c ≠ 'L' →
      Primitive.ofTag? c = none →
      Refused (List.replicate rank '[' ++ c :: rest) .unrecognizedTag
  | trailingCharacters {ty : Ty} {rest : List Char} : ty.Readable → rest ≠ [] →
      Refused (ty.spell ++ rest) .trailingCharacters

/-- Markers in front do not change why a text is refused. -/
theorem split_replicate_append_eq_error {cs : List Char} {reason : Reason}
    (hhead : cs.head? ≠ some '[') (h : split cs = .error reason) (rank : Nat) :
    split (List.replicate rank '[' ++ cs) = .error reason := by
  have hdrop : cs.dropWhile (· = '[') = cs := dropWhile_replicate_append hhead 0
  unfold split at h ⊢
  rw [dropWhile_replicate_append hhead]
  rw [hdrop] at h
  -- the rank only shows in a type that was read
  split at h
  · exact h
  · split at h
    · split at h
      · exact h
      · exact h
      · cases h
    · cases h
    · exact h

/-- What cannot be read from the front is not the descriptor of a type either. -/
theorem whole_eq_error_of_split {cs : List Char} {reason : Reason} (h : split cs = .error reason) :
    whole cs = .error reason := by
  simp only [whole, h]

/-- A text of the form of a refusal is refused for its reason. -/
theorem Refused.whole_eq_error {cs : List Char} {reason : Reason} (h : Refused cs reason) :
    whole cs = .error reason := by
  cases h with
  | missingElement rank =>
      have hsplit := split_replicate_append_eq_error (by simp : [].head? ≠ some '[') rfl rank
      rw [List.append_nil] at hsplit
      exact whole_eq_error_of_split hsplit
  | @unterminatedClass rank body hend =>
      have htag : Tag.ofChar? 'L' = some .classStart := rfl
      have hsplit : split ('L' :: body) = .error .unterminatedClass := by
        simp [split, htag, Text.cut?_eq_none_iff.mpr hend]
      exact whole_eq_error_of_split (split_replicate_append_eq_error (by simp) hsplit rank)
  | emptyClassName rank rest =>
      have htag : Tag.ofChar? 'L' = some .classStart := rfl
      have hsplit : split ('L' :: ';' :: rest) = .error .emptyClassName := by
        simp [split, htag, Text.cut?_cons_self]
      exact whole_eq_error_of_split (split_replicate_append_eq_error (by simp) hsplit rank)
  | @unrecognizedTag rank c rest hmarker hclass hprimitive =>
      have hsplit : split (c :: rest) = .error .unrecognizedTag := by
        unfold split
        rw [List.dropWhile_cons_of_neg (by simpa using hmarker)]
        cases htag : Tag.ofChar? c with
        | none => simp only [htag]
        | some tag =>
            obtain rfl := Tag.char_of_ofChar? htag
            cases tag with
            | primitive p => simp [Tag.char] at hprimitive
            | classStart => exact absurd rfl hclass
            | arrayDim | classEnd | argsStart | argsEnd | annotationValue _ => simp only [htag]
      exact whole_eq_error_of_split
        (split_replicate_append_eq_error (by simpa using hmarker) hsplit rank)
  | @trailingCharacters ty rest hread hrest =>
      have hsplit := split_spell_append hread rest
      cases rest with
      | nil => exact absurd rfl hrest
      | cons c rest => simp only [whole, hsplit]

/-- Nothing but an empty name is wrong with a class name that is complete. -/
theorem whole_className (rank : Nat) {body : List Char} (hend : ';' ∉ body) :
    (body = [] ∧ whole (List.replicate rank '[' ++ 'L' :: (body ++ [';'])) =
        .error .emptyClassName) ∨
      whole (List.replicate rank '[' ++ 'L' :: (body ++ [';'])) =
        .ok ⟨.object (String.ofList body), rank⟩ := by
  by_cases hempty : body = []
  · subst hempty
    exact .inl ⟨rfl, (Refused.emptyClassName rank []).whole_eq_error⟩
  · have hread : Readable ⟨.object (String.ofList body), rank⟩ := by
      refine ⟨?_, by simpa using hend⟩
      rw [Ne, String.ofList_eq_empty_iff]
      exact hempty
    have hspell : List.replicate rank '[' ++ 'L' :: (body ++ [';']) =
        spell ⟨.object (String.ofList body), rank⟩ := by
      simp [spell, Element.spell]
    rw [hspell]
    exact .inr (whole_spell hread)

/-- A text from whose front no type can be read has one of the forms. -/
theorem refused_of_split {cs : List Char} {reason : Reason} (h : split cs = .error reason) :
    Refused cs reason := by
  have hcs := replicate_takeWhile_append_dropWhile cs
  have hstop := List.head?_dropWhile_not (· = '[') cs
  unfold split at h
  generalize (cs.takeWhile (· = '[')).length = rank at h hcs
  cases hdrop : cs.dropWhile (· = '[') with
  | nil =>
      simp only [hdrop] at h hcs
      cases h
      rw [← hcs, List.append_nil]
      exact .missingElement rank
  | cons c rest =>
      simp only [hdrop] at h hcs hstop
      -- the markers are all in front: the next character is none
      have hmarker : c ≠ '[' := by simpa using hstop
      subst hcs
      split at h
      · next htag =>
          -- an `L` opens a class name, which may lack its `;` or have no characters
          obtain rfl : 'L' = c := Tag.char_of_ofChar? htag
          split at h
          · next hcut =>
              cases h
              exact .unterminatedClass rank (Text.cut?_eq_none_iff.mp hcut)
          · next after hcut =>
              cases h
              obtain ⟨rfl, _⟩ := Text.eq_of_cut? hcut
              exact .emptyClassName rank after
          · cases h
      · -- a primitive letter is never refused
        cases h
      · next hclass hprimitive =>
          cases h
          refine .unrecognizedTag rank rest hmarker ?_ ?_
          · rintro rfl
            exact hclass rfl
          · cases hp : Primitive.ofTag? c with
            | none => rfl
            | some p => exact absurd (by simp [Tag.ofChar?, hp]) (hprimitive p)

/-- A text is refused for the reason whose form it has. -/
theorem whole_eq_error_iff {cs : List Char} {reason : Reason} :
    whole cs = .error reason ↔ Refused cs reason := by
  constructor
  · intro h
    unfold whole at h
    -- nothing was read, or all of it, or a type with something behind it
    split at h
    · next hsplit =>
        cases h
        exact refused_of_split hsplit
    · cases h
    · next hsplit =>
        cases h
        obtain ⟨hread, rfl⟩ := split_eq_ok_iff.mp hsplit
        exact .trailingCharacters hread (List.cons_ne_nil _ _)
  · exact Refused.whole_eq_error

theorem parse_eq_error_iff {desc : String} {e : DescriptorError} :
    parse desc = .error e ↔ ∃ reason, Refused desc.toList reason ∧ e = .malformed desc reason := by
  rw [parse, mapError_eq_error_iff]
  simp only [whole_eq_error_iff]

/-! ## What more text does -/

/-- Unless a text only ends too early, it stays refused for the same reason. -/
theorem Refused.append {cs : List Char} {reason : Reason} (h : Refused cs reason)
    (hreason : ¬reason.Unfinished) (suffix : List Char) : Refused (cs ++ suffix) reason := by
  cases h with
  | missingElement rank => exact absurd (by decide) hreason
  | unterminatedClass rank hend => exact absurd (by decide) hreason
  | emptyClassName rank rest =>
      rw [List.append_assoc]
      exact .emptyClassName rank (rest ++ suffix)
  | unrecognizedTag rank rest hmarker hclass hprimitive =>
      rw [List.append_assoc]
      exact .unrecognizedTag rank (rest ++ suffix) hmarker hclass hprimitive
  | trailingCharacters hread hrest =>
      rw [List.append_assoc]
      exact .trailingCharacters hread (by simp [hrest])

/-- A text that ends too early is the beginning of a descriptor. -/
theorem Refused.exists_completion {cs : List Char} {reason : Reason} (h : Refused cs reason)
    (hreason : reason.Unfinished) :
    ∃ (suffix : List Char) (ty : Ty), ty.Readable ∧ cs ++ suffix = ty.spell := by
  cases h with
  | missingElement rank => exact ⟨['I'], ⟨.primitive .int, rank⟩, trivial, rfl⟩
  | @unterminatedClass rank body hend =>
      -- one more character, as the body may be empty
      refine ⟨['a', ';'], ⟨.object (String.ofList (body ++ ['a'])), rank⟩, ⟨?_, ?_⟩, ?_⟩
      · simp
      · simp [hend]
      · simp [spell, Element.spell]
  | emptyClassName rank rest => exact absurd hreason (by decide)
  | unrecognizedTag rank rest _ _ _ => exact absurd hreason (by decide)
  | trailingCharacters _ _ => exact absurd hreason (by decide)

/-- Some text mends a text that is refused exactly when that text only ends too early. -/
theorem exists_completion_iff {desc : String} {reason : Reason} (h : Refused desc.toList reason) :
    (∃ suffix ty, parse (desc ++ suffix) = .ok ty) ↔ reason.Unfinished := by
  constructor
  · rintro ⟨suffix, ty, hread⟩
    by_cases hreason : reason.Unfinished
    · exact hreason
    · have hrefused := h.append hreason suffix.toList
      rw [← String.toList_append] at hrefused
      rw [parse_eq_error_iff.mpr ⟨reason, hrefused, rfl⟩] at hread
      cases hread
  · intro hreason
    obtain ⟨suffix, ty, hread, hspell⟩ := h.exists_completion hreason
    refine ⟨String.ofList suffix, ty, parse_eq_ok_iff.mpr ⟨hread, ?_⟩⟩
    rw [← String.toList_inj, String.toList_append, String.toList_ofList, toList_descriptor, hspell]

/-- Nothing can follow a descriptor. -/
theorem parse_append {desc suffix : String} {ty : Ty} (h : parse desc = .ok ty)
    (hsuffix : suffix ≠ "") :
    parse (desc ++ suffix) = .error (.malformed (desc ++ suffix) .trailingCharacters) := by
  obtain ⟨hread, rfl⟩ := parse_eq_ok_iff.mp h
  refine parse_eq_error_iff.mpr ⟨_, ?_, rfl⟩
  rw [String.toList_append, toList_descriptor]
  exact .trailingCharacters hread (mt String.toList_eq_nil_iff.mp hsuffix)

end Ty
end Linkage
