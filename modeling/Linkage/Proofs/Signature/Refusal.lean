import Linkage.Proofs.Signature.Reading
import Linkage.Proofs.Ty.Refusal

/-!
# Why a text is not a method descriptor

The machine refuses a text at the first character that cannot follow what it has consumed, at the
end of a text that never closes its list, or for the return type behind the list. `Refused` says
what such a text looks like, one form for each reason, and these refusals name the whole text. Only
an argument with an empty class name is refused by itself, as the span that the machine completed.
There is no other error:

    parse_eq_error_iff : parse desc = .error e ↔ Refusal desc e

Both directions rest on the invariant of the machine. It tells what was consumed when the machine
refuses (`Invariant.refusal`), and a text with the invariant takes the machine to the phase in which
it refuses (`Invariant.run_start`).
-/

namespace Linkage.Signature

/-! ## The forms of refused texts -/

/-- A character that neither starts a type nor closes the list. -/
structure Unexpected (c : Char) : Prop where
  not_marker : c ≠ '['
  not_class : c ≠ 'L'
  not_close : c ≠ ')'
  not_primitive : Primitive.ofTag? c = none

/-- The beginning of an argument, which a `)` must not cut off. -/
inductive Begun : List Char → Prop where
  | markers (rank : Nat) : Begun (List.replicate (rank + 1) '[')
  | className (rank : Nat) {body : List Char} : ';' ∉ body → ')' ∉ body →
      Begun (List.replicate rank '[' ++ 'L' :: body)

/-- The texts that are refused as a whole, by the reason. -/
inductive Refused : List Char → Reason → Prop where
  | unterminated {text : List Char} {reader : Reader} : Reader.Invariant text reader →
      Refused text .unterminatedArguments
  | closedBeforeOpening {before : List Char} (rest : List Char) : '(' ∉ before → ')' ∉ before →
      Refused (before ++ ')' :: rest) .closedBeforeOpening
  | closedMidType {text begun : List Char} {types : List Ty} (rest : List Char) :
      Opened text types → Begun begun → Refused (text ++ begun ++ ')' :: rest) .closedMidType
  | unexpectedCharacter {text : List Char} {types : List Ty} (rank : Nat) {c : Char}
      (rest : List Char) : Opened text types → Unexpected c →
      Refused (text ++ List.replicate rank '[' ++ c :: rest) .unexpectedCharacter
  | returnType {text rest : List Char} {types : List Ty} {reason : Reason} :
      Opened text types → Ty.Refused rest reason → Refused (text ++ ')' :: rest) reason

/-- The error that a text is refused with. -/
inductive Refusal (desc : String) : DescriptorError → Prop where
  | whole {reason : Reason} : Refused desc.toList reason → Refusal desc (.malformed desc reason)
  /-- The list comes to an argument with an empty class name. -/
  | argument {text rest : List Char} {types : List Ty} (rank : Nat) : Opened text types →
      desc.toList = text ++ (List.replicate rank '[' ++ ['L', ';']) ++ rest →
      Refusal desc
        (.malformed (String.ofList (List.replicate rank '[' ++ ['L', ';'])) .emptyClassName)

/-! ## Where a step refuses -/

namespace Reader

variable {desc : String} {args : Array Arg} {c : Char} {e : DescriptorError}

/-- Before the list, the machine refuses a `)` and nothing else. -/
theorem step_outside_error (h : step desc ⟨.outside, args⟩ c = .error e) :
    c = ')' ∧ e = .malformed desc .closedBeforeOpening := by
  by_cases hclose : ')' = c
  · subst hclose
    cases h
    exact ⟨rfl, rfl⟩
  by_cases hopen : '(' = c
  · subst hopen
    cases h
  · rw [step_outside desc hopen hclose] at h
    cases h

theorem step_unexpected (rank : Nat) (args : Array Arg) (h : Unexpected c) :
    step desc ⟨.afterMarkers rank, args⟩ c = .error (.malformed desc .unexpectedCharacter) := by
  obtain ⟨hmarker, hclass, hclose, hprimitive⟩ := h
  cases htag : Tag.ofChar? c with
  | none => cases rank <;> simp [step, Phase.afterMarkers, htag]
  | some tag =>
      obtain rfl := Tag.char_of_ofChar? htag
      cases tag with
      | primitive p => simp [Tag.char] at hprimitive
      | arrayDim => exact absurd rfl hmarker
      | classStart => exact absurd rfl hclass
      | argsEnd => exact absurd rfl hclose
      | classEnd | argsStart | annotationValue _ =>
          cases rank <;> simp [step, Phase.afterMarkers, htag]

/-- Between arguments or behind markers, the machine refuses a `)` that cuts off markers, and what
starts no type. -/
theorem step_afterMarkers_error {rank : Nat}
    (h : step desc ⟨.afterMarkers rank, args⟩ c = .error e) :
    (c = ')' ∧ 0 < rank ∧ e = .malformed desc .closedMidType) ∨
      (Unexpected c ∧ e = .malformed desc .unexpectedCharacter) := by
  by_cases hmarker : c = '['
  · subst hmarker
    rw [step_marker] at h
    cases h
  by_cases hclass : c = 'L'
  · subst hclass
    rw [step_classStart] at h
    cases h
  by_cases hclose : c = ')'
  · subst hclose
    cases rank with
    | zero => cases h
    | succ rank =>
        cases h
        exact .inl ⟨rfl, Nat.succ_pos rank, rfl⟩
  cases hp : Primitive.ofTag? c with
  | some p =>
      -- markers and a primitive are always a type
      obtain rfl := Primitive.tag_of_ofTag? hp
      have hread : Ty.Readable ⟨.primitive p, rank⟩ := trivial
      have hspell : List.replicate rank '[' ++ [p.tag] = Ty.spell ⟨.primitive p, rank⟩ := rfl
      rw [step_primitive, hspell, complete_spell hread] at h
      cases h
  | none =>
      have hunexpected : Unexpected c := ⟨hmarker, hclass, hclose, hp⟩
      rw [step_unexpected rank args hunexpected] at h
      cases h
      exact .inr ⟨hunexpected, rfl⟩

theorem complete_emptyClassName (reader : Reader) (rank : Nat) :
    reader.complete (List.replicate rank '[' ++ ['L', ';']) =
      .error (.malformed (String.ofList (List.replicate rank '[' ++ ['L', ';']))
        .emptyClassName) := by
  have hwhole := (Ty.Refused.emptyClassName rank []).whole_eq_error
  simp only [complete, hwhole]

/-- In a class name only a `)` is wrong, and the end of an empty one. -/
theorem step_className_error {rank : Nat} {body : List Char} (hend : ';' ∉ body)
    (h : step desc ⟨.className (body.reverse ++ 'L' :: List.replicate rank '['), args⟩ c =
      .error e) :
    (c = ')' ∧ e = .malformed desc .closedMidType) ∨
      (c = ';' ∧ body = [] ∧ e =
        .malformed (String.ofList (List.replicate rank '[' ++ ['L', ';'])) .emptyClassName) := by
  by_cases hclose : ')' = c
  · subst hclose
    cases h
    exact .inl ⟨rfl, rfl⟩
  by_cases hname : ';' = c
  · subst hname
    rw [step_classEnd] at h
    rcases Ty.whole_className rank hend with ⟨rfl, hwhole⟩ | hwhole
    · have herror := (complete_emptyClassName _ rank).symm.trans h
      cases herror
      exact .inr ⟨rfl, rfl, rfl⟩
    · simp only [complete, hwhole] at h
      cases h
  · rw [step_className desc hname hclose] at h
    cases h

/-! ## Refused runs -/

theorem run_opened {text : List Char} {types : List Ty} (h : Opened text types) (desc : String)
    (rest : List Char) :
    start.run desc (text ++ rest) = run desc ⟨.between, (numbered types).toArray⟩ rest := by
  obtain ⟨before, hopen, hclose, hall, rfl⟩ := h
  rw [List.append_assoc, List.cons_append]
  exact (run_outside desc hopen hclose #[] _).trans (run_flatMap_spell desc hall [] rest)

/-- Behind an opened list, markers take the machine to the phase after them. -/
theorem run_opened_markers {text : List Char} {types : List Ty} (h : Opened text types)
    (desc : String) (rank : Nat) (rest : List Char) :
    start.run desc (text ++ (List.replicate rank '[' ++ rest)) =
      run desc ⟨.afterMarkers rank, (numbered types).toArray⟩ rest := by
  have hmarkers := run_markers desc rank 0 (numbered types).toArray rest
  rw [Nat.zero_add] at hmarkers
  exact (run_opened h desc _).trans hmarkers

/-- A text with the invariant takes the machine where the invariant says. -/
theorem Invariant.run_start {text : List Char} {reader : Reader} (h : Invariant text reader)
    (desc : String) (rest : List Char) :
    Reader.start.run desc (text ++ rest) = reader.run desc rest := by
  cases h with
  | outside hopen hclose => exact run_before desc hopen hclose #[] rest
  | markers rank hopened =>
      rw [List.append_assoc]
      exact run_opened_markers hopened desc rank rest
  | className rank body hopened hend hclose =>
      rw [List.append_assoc, List.append_assoc, List.cons_append, run_opened_markers hopened,
        run_cons_next (step_classStart desc rank _), run_className desc hend hclose]

/-- A run that fails has come to a text of a refused form. -/
theorem Invariant.refusal {text rest : List Char} {reader : Reader} (hinv : Invariant text reader)
    (h : reader.run desc rest = .error e) (hdesc : desc.toList = text ++ rest) :
    Refusal desc e := by
  -- on the text still to be read; what was read is in the invariant
  induction rest generalizing text reader with
  | nil =>
      -- the text ends before the list does
      cases h
      rw [List.append_nil] at hdesc
      exact .whole (hdesc ▸ .unterminated hinv)
  | cons c rest ih =>
      unfold Reader.run at h
      cases hstep : reader.step desc c with
      | ok move =>
          cases move with
          | next next =>
              -- the machine goes on, with one more character consumed
              simp only [hstep] at h
              exact ih (hinv.step hstep) h (by simpa using hdesc)
          | close args =>
              simp only [hstep] at h
              -- the list is closed, so the return type was refused
              obtain ⟨rfl, types, hopened, _⟩ := hinv.close hstep
              cases hwhole : Ty.whole rest with
              | ok returnType => simp [hwhole] at h
              | error reason =>
                  simp only [hwhole] at h
                  cases h
                  have hrefused := Ty.whole_eq_error_iff.mp hwhole
                  exact .whole (hdesc ▸ .returnType hopened hrefused)
      | error e' =>
          simp only [hstep] at h
          cases h
          cases hinv with
          | outside hopen hclose =>
              obtain ⟨rfl, rfl⟩ := step_outside_error hstep
              exact .whole (hdesc ▸ .closedBeforeOpening rest hopen hclose)
          | @markers text types rank hopened =>
              rcases step_afterMarkers_error hstep with ⟨rfl, hrank, rfl⟩ | ⟨hunexpected, rfl⟩
              · cases rank with
                | zero => exact absurd hrank (Nat.lt_irrefl 0)
                | succ rank => exact .whole (hdesc ▸ .closedMidType rest hopened (.markers rank))
              · exact .whole (hdesc ▸ .unexpectedCharacter rank rest hopened hunexpected)
          | @className text types rank body hopened hend hclose =>
              rcases step_className_error hend hstep with ⟨rfl, rfl⟩ | ⟨rfl, rfl, rfl⟩
              · exact .whole (hdesc ▸ .closedMidType rest hopened (.className rank hend hclose))
              · exact .argument rank hopened (by simpa using hdesc)

theorem run_cons_error {reader : Reader} (h : reader.step desc c = .error e) (rest : List Char) :
    reader.run desc (c :: rest) = .error e := by
  simp only [run, h]

end Reader

/-- The `)` behind an opened list leaves the return type to be read. -/
theorem Opened.run_close {text : List Char} {types : List Ty} (h : Opened text types)
    (desc : String) {rest : List Char} {reason : Reason} (hrest : Ty.whole rest = .error reason) :
    Reader.start.run desc (text ++ ')' :: rest) = .error (.malformed desc reason) := by
  have hrun := (Reader.Invariant.markers 0 h).run_start desc (')' :: rest)
  rw [List.replicate_zero, List.append_nil] at hrun
  have hstep : Reader.step desc ⟨.afterMarkers 0, (numbered types).toArray⟩ ')' =
      .ok (.close (numbered types).toArray) := rfl
  rw [hrun]
  simp only [Reader.run, hstep, hrest]

/-- A text of the form of a refusal is refused for its reason. -/
theorem Refused.parse_eq_error {desc : String} {reason : Reason} (h : Refused desc.toList reason) :
    parse desc = .error (.malformed desc reason) := by
  unfold parse
  generalize desc.toList = cs at h
  -- the text up to the refusal takes the machine to its phase, and one step from there refuses
  cases h with
  | unterminated hinv =>
      have hrun := hinv.run_start desc []
      rw [List.append_nil] at hrun
      exact hrun
  | closedBeforeOpening rest hopen hclose =>
      rw [(Reader.Invariant.outside hopen hclose).run_start]
      rfl
  | closedMidType rest hopened hbegun =>
      cases hbegun with
      | markers rank =>
          rw [(Reader.Invariant.markers (rank + 1) hopened).run_start]
          rfl
      | @className rank body hend hclose =>
          rw [(Reader.Invariant.className rank body hopened hend hclose).run_start]
          rfl
  | unexpectedCharacter rank rest hopened hunexpected =>
      rw [(Reader.Invariant.markers rank hopened).run_start]
      exact Reader.run_cons_error (Reader.step_unexpected rank _ hunexpected) rest
  | returnType hopened hrest => exact hopened.run_close desc hrest.whole_eq_error

/-- What has the form of a refusal is refused. -/
theorem Refusal.parse_eq_error {desc : String} {e : DescriptorError} (h : Refusal desc e) :
    parse desc = .error e := by
  cases h with
  | whole hrefused => exact hrefused.parse_eq_error
  | @argument text rest types rank hopened hdesc =>
      have hinv := Reader.Invariant.className rank [] hopened List.not_mem_nil List.not_mem_nil
      have hstep := Reader.step_classEnd desc rank [] (numbered types).toArray
      have hcomplete := Reader.complete_emptyClassName
        ⟨.className ([].reverse ++ 'L' :: List.replicate rank '['), (numbered types).toArray⟩ rank
      have hsplit : desc.toList =
          text ++ (List.replicate rank '[' ++ ['L']) ++ ';' :: rest := by
        simpa using hdesc
      unfold parse
      rw [hsplit, hinv.run_start]
      exact Reader.run_cons_error (hstep.trans hcomplete) rest

/-- A text is refused with an error exactly when it has the form of that refusal. -/
theorem parse_eq_error_iff {desc : String} {e : DescriptorError} :
    parse desc = .error e ↔ Refusal desc e := by
  constructor
  · intro h
    exact Reader.Invariant.start.refusal h rfl
  · exact Refusal.parse_eq_error

end Linkage.Signature
