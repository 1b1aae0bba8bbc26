import Linkage.Proofs.Signature.Cursor
import Linkage.Proofs.Signature.Refusal

/-!
# What a cursor has consumed

Wherever the loop over a method descriptor goes on, the text that it has consumed can be read back
off its cursor:

    outside the list : text without parentheses
    in the list      : before ( args begun

Here `before` has no parentheses, `args` are the complete arguments as they are spelled, and `begun`
is what was seen of the next one, which the stage restricts (`Stage.Seen`). So no character is lost
or counted for two arguments, and in an argument the remembered offset is where `begun` starts.

The machine has this invariant already (`Reader.Invariant`), and a cursor tracks a machine. What is
left is to say it of the cursor, whose offset is right by `Tracks.start` (`Tracks.inside`), and to
see what spans it can complete (`Stage.Seen.completed`).
-/

namespace Linkage.Signature

/-! ## Begun and completed arguments -/

/-- What a cursor at this stage can have seen of the argument that it is in. -/
inductive Stage.Seen : Stage → List Char → Prop where
  | between : Seen .between []
  | markers (rank : Nat) : Seen .markers (List.replicate (rank + 1) '[')
  | className (rank : Nat) {body : List Char} : ';' ∉ body → ')' ∉ body →
      Seen .className (List.replicate rank '[' ++ 'L' :: body)

/-- A span that a cursor takes for an argument. -/
inductive Completed : List Char → Prop where
  | primitive (rank : Nat) (p : Primitive) : Completed (List.replicate rank '[' ++ [p.tag])
  | className (rank : Nat) {body : List Char} : ';' ∉ body → ')' ∉ body →
      Completed (List.replicate rank '[' ++ 'L' :: (body ++ [';']))

/-- What the table completes an argument with. -/
theorem Stage.cases_of_completes {stage : Stage} {c : Char}
    (h : stage.action c = .completeOne ∨ stage.action c = .complete) :
    (∃ p : Primitive, c = p.tag ∧ (stage = .between ∨ stage = .markers)) ∨
      (c = ';' ∧ stage = .className) := by
  unfold action at h
  -- a character without a role never completes an argument
  cases htag : Tag.ofChar? c with
  | none =>
      rw [htag] at h
      cases stage <;> simp at h
  | some tag =>
      obtain rfl := Tag.char_of_ofChar? htag
      rw [htag] at h
      cases tag with
      | primitive p =>
          -- a letter does so between two arguments and behind markers
          refine .inl ⟨p, rfl, ?_⟩
          cases stage <;> simp at h ⊢
      | classEnd => cases stage <;> simp [Tag.char] at h ⊢
      | arrayDim | classStart | argsStart | argsEnd | annotationValue _ => cases stage <;> simp at h

theorem Stage.ne_outside_of_completes {stage : Stage} {c : Char}
    (h : stage.action c = .completeOne ∨ stage.action c = .complete) : stage ≠ .outside := by
  rintro rfl
  rcases cases_of_completes h with ⟨_, _, hstage⟩ | ⟨_, hstage⟩ <;> simp at hstage

/-- What was seen of an argument makes up a span with the character that completes it. -/
theorem Stage.Seen.completed {stage : Stage} {begun : List Char} {c : Char}
    (hseen : stage.Seen begun)
    (h : stage.action c = .completeOne ∨ stage.action c = .complete) :
    Completed (begun ++ [c]) := by
  rcases cases_of_completes h with ⟨p, rfl, hstage⟩ | ⟨rfl, hstage⟩
  · cases hseen with
    | between => exact .primitive 0 p
    | markers rank => exact .primitive (rank + 1) p
    | className rank hend hclose => simp at hstage
  · cases hseen with
    | between => cases hstage
    | markers rank => cases hstage
    | className rank hend hclose =>
        rw [List.append_assoc, List.cons_append]
        exact .className rank hend hclose

/-- Nothing but an empty class name can be wrong with a completed span. -/
theorem Completed.whole {span : List Char} (h : Completed span) :
    (∃ ty, Ty.whole span = .ok ty) ∨ Ty.whole span = .error .emptyClassName := by
  cases h with
  | primitive rank p =>
      have hread : Ty.Readable ⟨.primitive p, rank⟩ := trivial
      exact .inl ⟨_, Ty.whole_spell hread⟩
  | className rank hend _ =>
      rcases Ty.whole_className rank hend with ⟨_, hwhole⟩ | hwhole
      · exact .inr hwhole
      · exact .inl ⟨_, hwhole⟩

/-! ## The machine -/

namespace Reader

/-- A machine that goes on keeps the invariant. -/
theorem Invariant.after {desc : String} {text more : List Char} {reader next : Reader}
    (hinv : Invariant text reader) (h : reader.after? desc more = some next) :
    Invariant (text ++ more) next := by
  induction more generalizing text reader with
  | nil =>
      cases h
      rw [List.append_nil]
      exact hinv
  | cons c more ih =>
      unfold after? at h
      cases hstep : reader.step desc c with
      | error e => simp [hstep] at h
      | ok move =>
          cases move with
          | close args => simp [hstep] at h
          | next next =>
              simp only [hstep] at h
              have hkept := ih (hinv.step hstep) h
              rwa [List.append_assoc, List.singleton_append] at hkept

/-- Before the list, the machine has not moved from its start. -/
theorem Invariant.outside_eq {text : List Char} {reader : Reader} (h : Invariant text reader)
    (hstage : reader.phase.stage = .outside) :
    '(' ∉ text ∧ ')' ∉ text ∧ reader = Reader.start := by
  cases h with
  | outside hopen hclose => exact ⟨hopen, hclose, rfl⟩
  | markers rank _ => cases rank <;> cases hstage
  | className _ _ _ _ _ => cases hstage

/-- In the list, the consumed text is what was opened and then what the phase has seen. -/
theorem Invariant.opened {text : List Char} {reader : Reader} (h : Invariant text reader)
    (hstage : reader.phase.stage ≠ .outside) :
    ∃ opened types, Opened opened types ∧ text = opened ++ reader.phase.span.reverse ∧
      reader.args = (numbered types).toArray ∧
      reader.phase.stage.Seen reader.phase.span.reverse := by
  cases h with
  | outside _ _ => exact absurd rfl hstage
  | @markers opened types rank hopened =>
      refine ⟨opened, types, hopened, ?_⟩
      -- no markers leave the machine between two arguments
      cases rank with
      | zero => exact ⟨rfl, rfl, .between⟩
      | succ rank =>
          simp only [Phase.afterMarkers, Phase.span, Phase.stage, List.reverse_replicate, true_and]
          exact .markers rank
  | @className opened types rank body hopened hend hclose =>
      refine ⟨opened, types, hopened, ?_⟩
      -- the span is kept reversed; the right way around it is the markers, the `L` and the name
      simp only [Phase.span, Phase.stage, List.reverse_append, List.reverse_cons,
        List.reverse_replicate, List.reverse_reverse, List.append_assoc, List.singleton_append,
        true_and]
      exact .className rank hend hclose

end Reader

/-! ## The cursor -/

namespace Cursor

/-- The text from the beginning up to the last complete argument, given what stands before the
list. -/
def listed (cursor : Cursor) (before : String) : String :=
  before ++ "(" ++ String.join (cursor.args.toList.map fun arg => arg.type.descriptor)

/-- The consumed text as a cursor in the list accounts for it. -/
structure Inside (consumed : String) (cursor : Cursor) (before begun : String) : Prop where
  no_open : '(' ∉ before.toList
  no_close : ')' ∉ before.toList
  consumed : consumed = cursor.listed before ++ begun
  position : ∀ (i : Nat) (h : i < cursor.args.size), cursor.args[i].position = i
  seen : cursor.stage.Seen begun.toList
  start : cursor.stage.inArgument = true → cursor.start = (cursor.listed before).utf8ByteSize

/-- The span that the next step reads as an argument, if it completes one. -/
def span? (desc : String) (cursor : Cursor) (pos : Nat) (c : Char) : Option String :=
  match cursor.stage.action c with
  | .completeOne => Text.slice? desc pos (pos + c.utf8Size)
  | .complete => Text.slice? desc cursor.start (pos + c.utf8Size)
  | .go _ | .mark _ | .close | .refuse _ => none

variable {desc span : String} {cursor : Cursor} {pos : Nat} {c : Char}

theorem completes_of_span? (h : cursor.span? desc pos c = some span) :
    cursor.stage.action c = .completeOne ∨ cursor.stage.action c = .complete := by
  unfold span? at h
  split at h
  · next haction => exact .inl haction
  · next haction => exact .inr haction
  all_goals cases h

/-- The span is what the step reads as the next argument. -/
theorem step?_of_span? (h : cursor.span? desc pos c = some span) :
    cursor.step? desc pos c = cursor.push? span := by
  unfold span? at h
  unfold step?
  split at h
  · next haction => simp only [haction, h, Option.bind_eq_bind, Option.bind_some]
  · next haction => simp only [haction, h, Option.bind_eq_bind, Option.bind_some]
  all_goals cases h

/-- Only a completed span adds to the arguments. -/
theorem args_eq_of_span?_eq_none {next : Cursor} (h : cursor.span? desc pos c = none)
    (hstep : cursor.step? desc pos c = some (.ok next)) : next.args = cursor.args := by
  unfold span? at h
  unfold step? at hstep
  cases haction : cursor.stage.action c with
  | go _ | mark _ =>
      simp only [haction] at hstep
      cases hstep
      rfl
  | completeOne | complete =>
      -- without its slice the step has no result
      simp only [haction] at h hstep
      simp [h] at hstep
  | close =>
      simp only [haction] at hstep
      obtain ⟨behind, _, hread⟩ := Option.bind_eq_some_iff.mp hstep
      obtain ⟨outcome, _, hnext⟩ := Option.bind_eq_some_iff.mp hread
      cases outcome with
      | error e => cases e <;> cases hnext
      | ok ty =>
          cases hnext
          rfl
  | refuse reason => simp [haction] at hstep

@[simp] theorem toList_listed (cursor : Cursor) (before : String) :
    (cursor.listed before).toList =
      before.toList ++ '(' :: (cursor.args.toList.map Arg.type).flatMap Ty.spell := by
  simp [listed, String.toList_join, List.flatMap_map]

end Cursor

/-! ## A cursor that tracks a machine -/

section

variable {desc : String} {text rest : List Char} {c : Char} {cursor : Cursor} {reader : Reader}

/-- The span that is read ends with the character and has all that was seen of the argument. -/
theorem Tracks.span_eq {span : String} (h : Tracks text cursor reader)
    (hdesc : desc.toList = text ++ c :: rest)
    (hspan : cursor.span? desc (Text.byteSize text) c = some span) :
    span.toList = reader.phase.span.reverse ++ [c] := by
  have hslices := h.slices hdesc
  have hsuits := reader.phase.suits_action c
  rw [← List.reverse_cons]
  unfold Cursor.span? at hspan
  rw [h.stage] at hspan
  cases haction : reader.phase.stage.action c with
  | completeOne =>
      rw [haction] at hsuits
      simp only [haction, hslices.character, Option.some.injEq] at hspan
      rw [← hspan, Phase.span_eq_nil hsuits, String.toList_ofList, List.reverse_singleton]
  | complete =>
      rw [haction] at hsuits
      simp only [haction, hslices.span (h.stage ▸ hsuits), Option.some.injEq] at hspan
      rw [← hspan, String.toList_ofList]
  | go _ | mark _ | close | refuse _ => simp [haction] at hspan

/-- In the list, a cursor accounts for the text by the invariant of the machine. -/
theorem Tracks.inside {consumed : String} (h : Tracks consumed.toList cursor reader)
    (hinv : reader.Invariant consumed.toList) (hstage : cursor.stage ≠ .outside) :
    ∃ before, cursor.Inside consumed before (String.ofList reader.phase.span.reverse) := by
  obtain ⟨opened, types, ⟨before, hopen, hclose, _, hopened⟩, htext, hargs, hseen⟩ :=
    hinv.opened (h.stage ▸ hstage)
  have hlisted : (cursor.listed (String.ofList before)).toList = opened := by
    simp [h.args, hargs, hopened]
  refine ⟨String.ofList before, ?_, ?_, ?_, ?_, ?_, ?_⟩
  · simpa using hopen
  · simpa using hclose
  · rw [← String.toList_inj, htext, String.toList_append, hlisted, String.toList_ofList]
  · intro i hi
    simp [h.args, hargs, numbered]
  · rw [h.stage, String.toList_ofList]
    exact hseen
  · intro hargument
    obtain ⟨front, hfront, hstart⟩ := h.start hargument
    -- what the offset cuts off and what was opened stand before the same span
    have hsame : front = opened := List.append_cancel_right (hfront.symm.trans htext)
    rw [hstart, hsame, ← hlisted, Text.utf8ByteSize_eq]

theorem Tracks.completed {span : String} (h : Tracks text cursor reader)
    (hinv : reader.Invariant text) (hdesc : desc.toList = text ++ c :: rest)
    (hspan : cursor.span? desc (Text.byteSize text) c = some span) : Completed span.toList := by
  have hcompletes := Cursor.completes_of_span? hspan
  rw [h.stage] at hcompletes
  obtain ⟨_, _, _, _, _, hseen⟩ := hinv.opened (Stage.ne_outside_of_completes hcompletes)
  rw [h.span_eq hdesc hspan]
  exact hseen.completed hcompletes

end

/-- A span that is read as an argument is read or has an empty class name. -/
theorem Completed.push? {span : String} (h : Completed span.toList) (cursor : Cursor) :
    (∃ next, cursor.push? span = some (.ok next)) ∨
      cursor.push? span = some (.error (.malformed span .emptyClassName)) := by
  unfold Cursor.push?
  rw [Ty.Offsets.parse?_eq, Ty.parse]
  rcases h.whole with ⟨ty, hwhole⟩ | hwhole
  · rw [hwhole]
    exact .inl ⟨_, rfl⟩
  · rw [hwhole]
    exact .inr rfl

end Linkage.Signature

namespace Linkage

/-- **The text that a cursor has consumed can be read back off it.** Wherever the loop goes on, a
cursor outside the list has consumed text without parentheses and has no argument. A cursor in the
list has consumed a text without parentheses, the `(`, its arguments as they are spelled, numbered
in order, and what its stage says of the next one, which starts at the remembered offset. Reading
goes on as the machine in the same place does. A step adds to the arguments only by a span that is
markers with a primitive tag or with a class name that has neither `;` nor `)`, and the only thing
that can be wrong with it is that the name is empty. -/
theorem cursor_accounts_for_consumed_text (desc consumed rest : String) (cursor : Signature.Cursor)
    (hdesc : desc = consumed ++ rest)
    (h : Signature.Cursor.initial.after? desc (Text.withOffsets 0 consumed.toList) = some cursor) :
    (cursor.stage = .outside →
      '(' ∉ consumed.toList ∧ ')' ∉ consumed.toList ∧ cursor.args = #[] ∧
        Signature.parse desc = Signature.Reader.start.run desc rest.toList) ∧
    (cursor.stage ≠ .outside → ∃ before begun : String, cursor.Inside consumed before begun ∧
      Signature.parse desc =
        Signature.Reader.run desc ⟨cursor.stage.phase begun.toList.reverse, cursor.args⟩
          rest.toList) ∧
    ∀ (c : Char) (tail : List Char), rest.toList = c :: tail →
      (∀ span, cursor.span? desc consumed.utf8ByteSize c = some span →
        cursor.step? desc consumed.utf8ByteSize c = cursor.push? span ∧
          Signature.Completed span.toList ∧
          ((∃ next, cursor.push? span = some (.ok next)) ∨
            ∃ reason, cursor.push? span = some (.error (.malformed span reason)) ∧
              reason.message = "empty class name")) ∧
      (cursor.span? desc consumed.utf8ByteSize c = none →
        ∀ next, cursor.step? desc consumed.utf8ByteSize c = some (.ok next) →
          next.args = cursor.args) := by
  have htext : desc.toList = consumed.toList ++ rest.toList := by rw [hdesc, String.toList_append]
  -- everything is read off the machine that the cursor tracks, by its invariant
  obtain ⟨reader, hreader, htracks⟩ := Signature.Cursor.exists_tracked htext h
  have hinv : reader.Invariant consumed.toList := Signature.Reader.Invariant.start.after hreader
  have hrun := Signature.Cursor.parse_eq_run htext h htracks
  refine ⟨?_, ?_, ?_⟩
  · intro hstage
    obtain ⟨hopen, hclose, rfl⟩ := hinv.outside_eq (htracks.stage ▸ hstage)
    exact ⟨hopen, hclose, htracks.args, hrun⟩
  · intro hstage
    obtain ⟨before, hinside⟩ := htracks.inside hinv hstage
    refine ⟨before, _, hinside, ?_⟩
    rw [hrun, String.toList_ofList, List.reverse_reverse, htracks.stage, htracks.args,
      Signature.Phase.phase_stage_span]
  · intro c tail hrest
    rw [hrest] at htext
    rw [Text.utf8ByteSize_eq]
    refine ⟨?_, ?_⟩
    · intro span hspan
      have hcompleted := htracks.completed hinv htext hspan
      refine ⟨Signature.Cursor.step?_of_span? hspan, hcompleted, ?_⟩
      rcases hcompleted.push? cursor with hnext | hempty
      · exact .inl hnext
      · exact .inr ⟨_, hempty, rfl⟩
    · intro hnone next hstep
      exact Signature.Cursor.args_eq_of_span?_eq_none hnone hstep

/-- An array of a class with a wide character in its name, then an argument without a name. -/
theorem cursor_accounts_for_consumed_text_around_empty_class_name :
    let desc := "é(La;[Lß;L;)V"
    let named : Signature.Cursor := ⟨.className, #[⟨⟨.object "a", 0⟩, 0⟩], 6, none⟩
    let unnamed : Signature.Cursor :=
      ⟨.className, #[⟨⟨.object "a", 0⟩, 0⟩, ⟨⟨.object "ß", 1⟩, 1⟩], 11, none⟩
    (Signature.Cursor.initial.after? desc (Text.withOffsets 0 "é(La;[Lß".toList) = some named ∧
      (∃ before begun : String, named.Inside "é(La;[Lß" before begun) ∧
      named.span? desc 10 ';' = some "[Lß;" ∧ Signature.Completed "[Lß;".toList ∧
      named.step? desc 10 ';' = named.push? "[Lß;") ∧
    Signature.Cursor.initial.after? desc (Text.withOffsets 0 "é(La;[Lß;L".toList) = some unnamed ∧
      unnamed.span? desc 12 ';' = some "L;" ∧
      ∃ reason, unnamed.step? desc 12 ';' = some (.error (.malformed "L;" reason)) ∧
        reason.message = "empty class name" := by
  intro desc named unnamed
  have hnamed : Signature.Cursor.initial.after? desc (Text.withOffsets 0 "é(La;[Lß".toList) =
      some named := by decide +kernel
  have hunnamed : Signature.Cursor.initial.after? desc (Text.withOffsets 0 "é(La;[Lß;L".toList) =
      some unnamed := by decide +kernel
  have hspan : named.span? desc 10 ';' = some "[Lß;" := by decide +kernel
  have hempty : unnamed.span? desc 12 ';' = some "L;" := by decide +kernel
  obtain ⟨_, hinside, hnext⟩ :=
    cursor_accounts_for_consumed_text desc "é(La;[Lß" ";L;)V" named (by decide) hnamed
  obtain ⟨_, _, hlast⟩ :=
    cursor_accounts_for_consumed_text desc "é(La;[Lß;L" ";)V" unnamed (by decide) hunnamed
  obtain ⟨before, begun, haccount, _⟩ := hinside (by decide)
  obtain ⟨hstep, hcompleted, _⟩ := (hnext ';' ['L', ';', ')', 'V'] (by decide)).1 _ hspan
  obtain ⟨hstep_empty, _, hread⟩ := (hlast ';' [')', 'V'] (by decide)).1 _ hempty
  have hrefused : unnamed.push? "L;" = some (.error (.malformed "L;" .emptyClassName)) := by
    rw [Signature.Cursor.push?, Ty.Offsets.parse?_eq]
    rfl
  refine ⟨⟨hnamed, ⟨before, begun, haccount⟩, hspan, hcompleted, hstep⟩, hunnamed, hempty, ?_⟩
  rcases hread with ⟨next, hread⟩ | ⟨reason, hread, hreason⟩
  · cases hrefused.symm.trans hread
  · exact ⟨reason, hstep_empty.trans hread, hreason⟩

end Linkage
