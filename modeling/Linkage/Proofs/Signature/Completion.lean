import Linkage.Proofs.Signature.Refusal

/-!
# Unfinished descriptors

A refused descriptor is either wrong or only unfinished, and the reason of the refusal tells which
(`reasons_tell_unfinished`). Whatever the machine has consumed without refusing is the beginning of
a descriptor: each phase can be brought to an end (`Invariant.exists_completion`), and so can a
return type that ends too early. Every other refusal is decided by the text up to some place, and
comes back whatever follows (`Refused.append`).
-/

namespace Linkage
namespace Signature

/-- An opened list of types that goes on to close and to spell a type is a descriptor. -/
theorem Opened.exists_parts {text : List Char} {types : List Ty} (h : Opened text types)
    {returnType : Ty} (hread : returnType.Readable) :
    ∃ parts : Parts, parts.WellFormed ∧
      parts.descriptor.toList = text ++ ')' :: returnType.spell := by
  obtain ⟨before, hopen, hclose, hall, rfl⟩ := h
  refine ⟨⟨String.ofList before, types, returnType⟩, ⟨?_, ?_, hall, hread⟩, ?_⟩
  · simpa using hopen
  · simpa using hclose
  · rw [Parts.toList_descriptor]
    simp

/-- What the machine has consumed is the beginning of a descriptor. -/
theorem Reader.Invariant.exists_completion {text : List Char} {reader : Reader}
    (h : Invariant text reader) :
    ∃ (suffix : List Char) (parts : Parts), parts.WellFormed ∧
      parts.descriptor.toList = text ++ suffix := by
  have hvoid : Ty.Readable ⟨.primitive .void, 0⟩ := trivial
  cases h with
  | outside hopen hclose =>
      -- the list has still to be opened and closed
      have hopened : Opened (text ++ ['(']) [] := ⟨text, hopen, hclose, by simp, by simp⟩
      obtain ⟨parts, hparts, hdesc⟩ := hopened.exists_parts hvoid
      refine ⟨['(', ')', 'V'], parts, hparts, ?_⟩
      rw [hdesc, List.append_assoc]
      rfl
  | @markers text types rank hopened =>
      -- an `int` ends the markers, or is an argument of its own without them
      have hfits : Ty.FitsArgument ⟨.primitive .int, rank⟩ := ⟨trivial, List.not_mem_nil⟩
      obtain ⟨parts, hparts, hdesc⟩ := (hopened.push hfits).exists_parts hvoid
      refine ⟨['I', ')', 'V'], parts, hparts, ?_⟩
      rw [hdesc, List.append_assoc, List.append_assoc, Ty.spell, List.append_assoc]
      rfl
  | @className text types rank body hopened hend hclose =>
      -- one more character, as the body may be empty
      have hfits : Ty.FitsArgument ⟨.object (String.ofList (body ++ ['a'])), rank⟩ := by
        refine ⟨⟨by simp, by simp [hend]⟩, ?_⟩
        simp [Element.className, hclose]
      obtain ⟨parts, hparts, hdesc⟩ := (hopened.push hfits).exists_parts hvoid
      refine ⟨['a', ';', ')', 'V'], parts, hparts, ?_⟩
      rw [hdesc]
      simp [Ty.spell, Element.spell, Primitive.tag]

/-- A text that ends too early is the beginning of a descriptor. -/
theorem Refused.exists_completion {text : List Char} {reason : Reason} (h : Refused text reason)
    (hreason : reason.Unfinished) :
    ∃ (suffix : List Char) (parts : Parts), parts.WellFormed ∧
      parts.descriptor.toList = text ++ suffix := by
  cases h with
  | unterminated hinv => exact hinv.exists_completion
  | returnType hopened hrest =>
      obtain ⟨suffix, returnType, hread, hspell⟩ := hrest.exists_completion hreason
      obtain ⟨parts, hparts, hdesc⟩ := hopened.exists_parts hread
      refine ⟨suffix, parts, hparts, ?_⟩
      rw [hdesc, ← hspell, List.append_assoc, List.cons_append]
  | closedBeforeOpening _ _ _ => exact absurd hreason (by decide)
  | closedMidType _ _ _ => exact absurd hreason (by decide)
  | unexpectedCharacter _ _ _ _ => exact absurd hreason (by decide)

/-- Unless a text only ends too early, it stays refused for the same reason. -/
theorem Refused.append {text : List Char} {reason : Reason} (h : Refused text reason)
    (hreason : ¬reason.Unfinished) (suffix : List Char) : Refused (text ++ suffix) reason := by
  cases h with
  | unterminated hinv => exact absurd (by decide) hreason
  | closedBeforeOpening rest hopen hclose =>
      rw [List.append_assoc]
      exact .closedBeforeOpening (rest ++ suffix) hopen hclose
  | closedMidType rest hopened hbegun =>
      rw [List.append_assoc]
      exact .closedMidType (rest ++ suffix) hopened hbegun
  | unexpectedCharacter rank rest hopened hunexpected =>
      rw [List.append_assoc]
      exact .unexpectedCharacter rank (rest ++ suffix) hopened hunexpected
  | returnType hopened hrest =>
      rw [List.append_assoc]
      exact .returnType hopened (hrest.append hreason suffix)

/-- A refusal with a reason that is not unfinished comes back, though the text that it names may be
longer. -/
theorem Refusal.exists_append {desc text : String} {reason : Reason}
    (h : Refusal desc (.malformed text reason)) (hreason : ¬reason.Unfinished) (suffix : String) :
    ∃ text', Refusal (desc ++ suffix) (.malformed text' reason) := by
  cases h with
  | whole hrefused =>
      refine ⟨_, .whole ?_⟩
      rw [String.toList_append]
      exact hrefused.append hreason suffix.toList
  | @argument opened rest types rank hopened hdesc =>
      have hsplit : (desc ++ suffix).toList =
          opened ++ (List.replicate rank '[' ++ ['L', ';']) ++ (rest ++ suffix.toList) := by
        rw [String.toList_append, hdesc, List.append_assoc]
      exact ⟨_, .argument rank hopened hsplit⟩

/-- Some text mends a refused text exactly when that text only ends too early. -/
theorem exists_completion_iff {desc text : String} {reason : Reason}
    (h : Refusal desc (.malformed text reason)) :
    (∃ suffix sig, parse (desc ++ suffix) = .ok sig) ↔ reason.Unfinished := by
  constructor
  · rintro ⟨suffix, sig, hread⟩
    by_cases hreason : reason.Unfinished
    · exact hreason
    · -- otherwise the longer text is refused for the same reason
      obtain ⟨_, hrefusal⟩ := h.exists_append hreason suffix
      rw [hrefusal.parse_eq_error] at hread
      cases hread
  · intro hreason
    -- an argument with an empty name is not unfinished, so the whole text is
    have hrefused : Refused desc.toList reason := by
      cases h with
      | whole hrefused => exact hrefused
      | argument _ _ _ => exact absurd hreason (by decide)
    obtain ⟨suffix, parts, hparts, hdesc⟩ := hrefused.exists_completion hreason
    have hsuffix : desc ++ String.ofList suffix = parts.descriptor := by
      rw [← String.toList_inj, String.toList_append, String.toList_ofList, hdesc]
    exact ⟨String.ofList suffix, parts.signature, hsuffix ▸ parse_descriptor hparts⟩

/-- Nothing can follow a descriptor. -/
theorem parse_append {desc suffix : String} {sig : Signature} (h : parse desc = .ok sig)
    (hsuffix : suffix ≠ "") :
    parse (desc ++ suffix) = .error (.malformed (desc ++ suffix) .trailingCharacters) := by
  obtain ⟨parts, hparts, rfl, _⟩ := exists_parts_of_parse h
  have hopened : Opened (parts.before.toList ++ '(' :: parts.types.flatMap Ty.spell) parts.types :=
    ⟨parts.before.toList, hparts.no_open, hparts.no_close, hparts.types, rfl⟩
  have hrest : Ty.Refused (parts.returnType.spell ++ suffix.toList) .trailingCharacters :=
    .trailingCharacters hparts.returnType (mt String.toList_eq_nil_iff.mp hsuffix)
  have hrefused := Refused.returnType hopened hrest
  apply Refused.parse_eq_error
  rw [String.toList_append, Parts.toList_descriptor]
  simpa using hrefused

end Signature

/-- **The reason of a refusal tells an unfinished text from a wrong one.** When a method descriptor
or a field descriptor is refused, some text behind it makes it one that is read exactly when the
reason is one of the named ones. Any text behind one that is read is refused as trailing. -/
theorem reasons_tell_unfinished :
    (∀ (desc : String) (e : DescriptorError), Signature.parse desc = .error e →
      ∃ text reason, e = .malformed text reason ∧
        ((∃ suffix sig, Signature.parse (desc ++ suffix) = .ok sig) ↔
          reason.message ∈ ["unterminated argument list", "missing element type",
            "unterminated class reference"])) ∧
    (∀ (desc : String) (e : DescriptorError), Ty.parse desc = .error e →
      ∃ text reason, e = .malformed text reason ∧
        ((∃ suffix ty, Ty.parse (desc ++ suffix) = .ok ty) ↔
          reason.message ∈ ["missing element type", "unterminated class reference"])) ∧
    (∀ (desc suffix : String) (sig : Signature), Signature.parse desc = .ok sig → suffix ≠ "" →
      ∃ text reason, Signature.parse (desc ++ suffix) = .error (.malformed text reason) ∧
        reason.message = "trailing characters after field type") ∧
    ∀ (desc suffix : String) (ty : Ty), Ty.parse desc = .ok ty → suffix ≠ "" →
      ∃ text reason, Ty.parse (desc ++ suffix) = .error (.malformed text reason) ∧
        reason.message = "trailing characters after field type" := by
  refine ⟨?_, ?_, ?_, ?_⟩
  · intro desc e h
    have hrefusal := Signature.parse_eq_error_iff.mp h
    obtain ⟨text, reason, rfl⟩ : ∃ text reason, e = .malformed text reason := by
      cases hrefusal with
      | whole _ => exact ⟨_, _, rfl⟩
      | argument _ _ _ => exact ⟨_, _, rfl⟩
    refine ⟨text, reason, rfl, ?_⟩
    rw [Signature.exists_completion_iff hrefusal, Reason.unfinished_iff]
  · intro desc e h
    obtain ⟨reason, hrefused, rfl⟩ := Ty.parse_eq_error_iff.mp h
    refine ⟨desc, reason, rfl, ?_⟩
    rw [Ty.exists_completion_iff hrefused]
    -- an argument list is nothing that a field descriptor could lack
    generalize desc.toList = cs at hrefused
    cases hrefused with
    | missingElement _ | unterminatedClass _ _ | emptyClassName _ _ | unrecognizedTag _ _ _ _ _
    | trailingCharacters _ _ => decide
  · intro desc suffix sig h hsuffix
    exact ⟨_, _, Signature.parse_append h hsuffix, rfl⟩
  · intro desc suffix ty h hsuffix
    exact ⟨_, _, Ty.parse_append h hsuffix, rfl⟩

/-- Texts that end in a class name, in an empty one and in markers, and two that can have nothing
more. -/
theorem reasons_tell_unfinished_inside_class_names :
    (∃ suffix sig, Signature.parse ("x([Lp/(" ++ suffix) = .ok sig) ∧
      (¬∃ suffix sig, Signature.parse ("(I[L;" ++ suffix) = .ok sig) ∧
      (∃ suffix ty, Ty.parse ("[[L" ++ suffix) = .ok ty) ∧
      (∃ text reason, Signature.parse ("(I)Lq);" ++ ";") = .error (.malformed text reason) ∧
        reason.message = "trailing characters after field type") ∧
      ∃ text reason, Ty.parse ("[J" ++ "[") = .error (.malformed text reason) ∧
        reason.message = "trailing characters after field type" := by
  obtain ⟨hmethod, hfield, hmethod_more, hfield_more⟩ := reasons_tell_unfinished
  refine ⟨?_, ?_, ?_, ?_, ?_⟩
  · obtain ⟨_, _, he, hmended⟩ := hmethod "x([Lp/(" _ rfl
    cases he
    exact hmended.mpr (by decide)
  · obtain ⟨_, _, he, hmended⟩ := hmethod "(I[L;" _ rfl
    cases he
    rw [hmended]
    decide
  · obtain ⟨_, _, he, hmended⟩ := hfield "[[L" _ rfl
    cases he
    exact hmended.mpr (by decide)
  · exact hmethod_more "(I)Lq);" ";" _ rfl (by decide)
  · exact hfield_more "[J" "[" _ rfl (by decide)

end Linkage
