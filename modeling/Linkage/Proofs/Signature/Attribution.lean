import Linkage.Proofs.Member.Reference
import Linkage.Proofs.Signature.Refusal

/-!
# Which text a refusal names

A refused method descriptor is named in full, whatever the machine or the reader of the return type
found wrong in it. The one exception is an argument with an empty class name: it is the only span
that can be complete and no type, and the refusal then names the span alone
(`refusals_name_text_or_argument`). The log and the reader of references pass the refusal on as it
is.

`EmptyArgument desc span` says where such a span stands, in terms of the text.
-/

namespace Linkage
namespace Signature

/-! ## Empty arguments -/

/-- The argument list of the text goes on, behind complete arguments, with `span`, an argument that
has an empty class name. -/
def EmptyArgument (desc span : String) : Prop :=
  ∃ (before : String) (types : List Ty) (rank : Nat) (rest : String),
    '(' ∉ before.toList ∧ ')' ∉ before.toList ∧ (∀ ty ∈ types, ty.FitsArgument) ∧
      span = String.ofList (List.replicate rank '[') ++ "L;" ∧
      desc = before ++ "(" ++ String.join (types.map Ty.descriptor) ++ span ++ rest

/-- The same on characters, where the text before the argument has opened a list. -/
theorem emptyArgument_iff {desc span : String} :
    EmptyArgument desc span ↔
      ∃ (text : List Char) (types : List Ty) (rank : Nat) (rest : List Char), Opened text types ∧
        span = String.ofList (List.replicate rank '[' ++ ['L', ';']) ∧
        desc.toList = text ++ (List.replicate rank '[' ++ ['L', ';']) ++ rest := by
  constructor
  · rintro ⟨before, types, rank, rest, hopen, hclose, hall, rfl, rfl⟩
    refine ⟨before.toList ++ '(' :: types.flatMap Ty.spell, types, rank, rest.toList,
      ⟨before.toList, hopen, hclose, hall, rfl⟩, ?_, ?_⟩
    · rw [← String.toList_inj]
      simp
    · simp [String.toList_join, List.flatMap_map]
  · rintro ⟨_, types, rank, rest, ⟨before, hopen, hclose, hall, rfl⟩, rfl, hdesc⟩
    refine ⟨String.ofList before, types, rank, String.ofList rest, by simpa using hopen,
      by simpa using hclose, hall, ?_, ?_⟩
    · rw [← String.toList_inj]
      simp
    · rw [← String.toList_inj, hdesc]
      simp [String.toList_join, List.flatMap_map]

/-- An empty argument is refused by itself. -/
theorem EmptyArgument.parse_eq_error {desc span : String} (h : EmptyArgument desc span) :
    parse desc = .error (.malformed span .emptyClassName) := by
  obtain ⟨text, types, rank, rest, hopened, rfl, hdesc⟩ := emptyArgument_iff.mp h
  exact (Refusal.argument rank hopened hdesc).parse_eq_error

/-- An empty argument is not the whole text, which has a `(` before it. -/
theorem EmptyArgument.ne {desc span : String} (h : EmptyArgument desc span) : desc ≠ span := by
  obtain ⟨before, types, rank, rest, _, _, _, rfl, rfl⟩ := h
  intro heq
  have hopen : '(' ∈ (String.ofList (List.replicate rank '[') ++ "L;").toList := by
    rw [← heq]
    simp
  simp at hopen

/-! ## Refusals -/

/-- The text that a refusal names is the whole one or that of an empty argument. -/
theorem exists_malformed_of_parse {desc : String} {e : DescriptorError}
    (h : parse desc = .error e) :
    ∃ text reason, e = .malformed text reason ∧
      (desc = text ∨ EmptyArgument desc text) := by
  cases parse_eq_error_iff.mp h with
  | whole _ => exact ⟨_, _, rfl, .inl rfl⟩
  | argument rank hopened hdesc =>
      exact ⟨_, _, rfl, .inr (emptyArgument_iff.mpr ⟨_, _, rank, _, hopened, rfl, hdesc⟩)⟩

end Signature

/-- **A refusal names the whole descriptor, or an argument with an empty class name.** The second
happens exactly when the text has such an argument behind complete ones, and the descriptor is
always refused then. The record of the reading has the whole descriptor and the message of the
refusal, and a reference with a proper owner is refused for the same reason. -/
theorem refusals_name_text_or_argument :
    (∀ desc span : String, Signature.EmptyArgument desc span →
      ∃ e, Signature.parse desc = .error e) ∧
    ∀ (desc : String) (e : DescriptorError), Signature.parse desc = .error e →
      (∃ text reason, e = .malformed text reason ∧
        (desc = text ↔ ∀ span, ¬Signature.EmptyArgument desc span) ∧
        ∀ span, Signature.EmptyArgument desc span →
          text = span ∧ reason.message = "empty class name") ∧
      (Signature.parseLogged desc).log.map Signature.Reading.record =
        [⟨.debug, "ember.descriptor", "failed to parse method descriptor",
          [("descriptor", .text desc), ("error", .text e.message)]⟩] ∧
      ∀ (ref : MethodRef) (owner : Ty), ref.descriptor = desc → ref.owner = .ok owner →
        (Method.ofRef ref).value = .error (.descriptor e) := by
  refine ⟨fun _ _ h => ⟨_, h.parse_eq_error⟩, ?_⟩
  intro desc e h
  refine ⟨?_, ?_, ?_⟩
  · obtain ⟨text, reason, rfl, htext⟩ := Signature.exists_malformed_of_parse h
    -- an empty argument decides the refusal, so it is the one that was named
    have hspan : ∀ span, Signature.EmptyArgument desc span →
        text = span ∧ reason.message = "empty class name" := by
      intro span hempty
      cases h.symm.trans hempty.parse_eq_error
      exact ⟨rfl, rfl⟩
    refine ⟨text, reason, rfl, ⟨?_, ?_⟩, hspan⟩
    · -- the whole text has a `(` that the argument lacks
      intro heq span hempty
      exact hempty.ne (heq.trans (hspan span hempty).1)
    · intro hnone
      rcases htext with htext | hempty
      · exact htext
      · exact absurd hempty (hnone text)
  · simp only [Signature.parseLogged, h]
    rfl
  · -- the descriptor is read only behind a proper owner
    rintro ref owner rfl howner
    rw [Method.ofRef_of_owner_eq_ok (mapError_eq_ok_iff.mp howner), h]
    rfl

/-- An empty argument under two dimensions, and an empty name in the return type, which is no
argument. -/
theorem refusals_name_text_or_argument_behind_complete_ones :
    (∃ e, Signature.parse "x(I[La/(;[[L;)V" = .error e) ∧
      (∃ text reason, Signature.parse "x(I[La/(;[[L;)V" = .error (.malformed text reason) ∧
        text = "[[L;" ∧ reason.message = "empty class name") ∧
      (∃ text reason, Signature.parse "(I)L;" = .error (.malformed text reason) ∧
        "(I)L;" = text) ∧
      (Method.ofRef ⟨"[I", "m", "(I)L;"⟩).value =
        .error (.descriptor (.malformed "(I)L;" .emptyClassName)) := by
  obtain ⟨hempty, hrefused⟩ := refusals_name_text_or_argument
  have hspan : Signature.EmptyArgument "x(I[La/(;[[L;)V" "[[L;" :=
    ⟨"x", [⟨.primitive .int, 0⟩, ⟨.object "a/(", 1⟩], 2, ")V", by decide, by decide, by decide,
      rfl, rfl⟩
  have hnone : ∀ span, ¬Signature.EmptyArgument "(I)L;" span := by
    intro span h
    have hparse : Signature.parse "(I)L;" = .error (.malformed "(I)L;" .emptyClassName) := rfl
    cases hparse.symm.trans h.parse_eq_error
    exact h.ne rfl
  refine ⟨hempty _ _ hspan, ?_, ?_, ?_⟩
  · obtain ⟨e, h⟩ := hempty _ _ hspan
    obtain ⟨text, reason, rfl, _, htext⟩ := (hrefused _ e h).1
    exact ⟨text, reason, h, htext _ hspan⟩
  · obtain ⟨text, reason, he, htext, _⟩ := (hrefused "(I)L;" _ rfl).1
    exact ⟨text, reason, congrArg Except.error he, htext.mpr hnone⟩
  · exact (hrefused "(I)L;" _ rfl).2.2 ⟨"[I", "m", "(I)L;"⟩ _ rfl rfl

end Linkage
