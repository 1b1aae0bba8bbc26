import Linkage.Proofs.Ty.Offsets
import Linkage.Signature

/-!
# Reading method descriptors by byte offsets

The machine of `Linkage.Signature` carries the characters of the argument that it is in. A
`Cursor` only remembers the byte offset at which that argument started, and cuts the argument out of
the descriptor when it is complete. Between two arguments the offset is left over from the last one
and means nothing, and in the other stages a slice from it could fail.

Both follow one table (`Stage.action`): the cursor by definition, the machine by
`Reader.step_eq_follow`. As long as the cursor tracks the machine, its slices are the spans of the
machine (`Tracks.slices`), so each step of one is the step of the other (`Tracks.step`), and they
read alike (`Cursor.parse?_eq`).
-/

namespace Linkage.Signature

/-! ## The table -/

/-- Where a cursor stands: as a machine does, or behind the list. -/
inductive Stage where
  | outside
  | between
  | markers
  | className
  | closed
  deriving DecidableEq, Repr

/-- What a character makes a cursor do. -/
inductive Action where
  | go (stage : Stage)
  /-- Go on, and remember that an argument starts here. -/
  | mark (stage : Stage)
  /-- Complete an argument of this one character. -/
  | completeOne
  /-- Complete the argument that started at the remembered offset. -/
  | complete
  /-- Read all that follows as the return type. -/
  | close
  | refuse (reason : Reason)
  deriving DecidableEq, Repr

namespace Stage

/-- The stages in which the remembered offset counts. -/
def inArgument : Stage → Bool
  | markers | className => true
  | outside | between | closed => false

def action (stage : Stage) (c : Char) : Action :=
  match stage, Tag.ofChar? c with
  | .between, some .argsEnd => .close
  | .markers, some .argsEnd | .className, some .argsEnd | .closed, some .argsEnd =>
    .refuse .closedMidType
  | .outside, some .argsStart => .go .between
  | .outside, some .argsEnd => .refuse .closedBeforeOpening
  | .outside, _ => .go .outside
  | .between, some .arrayDim => .mark .markers
  | .markers, some .arrayDim => .go .markers
  | .between, some .classStart => .mark .className
  | .markers, some .classStart => .go .className
  | .className, some .classEnd => .complete
  | .className, _ => .go .className
  | .between, some (.primitive _) => .completeOne
  | .markers, some (.primitive _) => .complete
  | .between, _ | .markers, _ => .refuse .unexpectedCharacter
  | .closed, _ => .go .closed

/-- The phase of a machine at this stage, with the part of the argument that it has seen. -/
def phase (span : List Char) : Stage → Phase
  | outside | closed => .outside
  | between => .between
  | markers => .markers span
  | className => .className span

end Stage

/-! ## The cursor -/

/-- The state of the loop over the characters and their offsets. -/
structure Cursor where
  stage : Stage
  args : Array Arg
  /-- Where the last argument started that took more than one character. -/
  start : Nat
  returnType : Option Ty
  deriving DecidableEq, Repr

namespace Cursor

def initial : Cursor := ⟨.outside, #[], 0, none⟩

/-- The argument in the span, behind those that are complete. -/
def push? (cursor : Cursor) (span : String) : Option (Except DescriptorError Cursor) := do
  match ← Ty.Offsets.parse? span with
  | .error e => some (.error e)
  | .ok ty =>
    some (.ok { cursor with stage := .between, args := cursor.args.push ⟨ty, cursor.args.size⟩ })

/-- What the character `c` at the offset `pos` does to the cursor. -/
def step? (desc : String) (cursor : Cursor) (pos : Nat) (c : Char) :
    Option (Except DescriptorError Cursor) :=
  let stop := pos + c.utf8Size
  match cursor.stage.action c with
  | .go stage => some (.ok { cursor with stage })
  | .mark stage => some (.ok { cursor with stage, start := pos })
  | .completeOne => do cursor.push? (← Text.slice? desc pos stop)
  | .complete => do cursor.push? (← Text.slice? desc cursor.start stop)
  | .close => do
    match ← Ty.Offsets.parse? (← Text.slice? desc stop desc.utf8ByteSize) with
    | .error (.malformed _ reason) => some (.error (.malformed desc reason))
    | .error e => some (.error e)
    | .ok ty => some (.ok { cursor with stage := .closed, returnType := some ty })
  | .refuse reason => some (.error (.malformed desc reason))

def finish (desc : String) (cursor : Cursor) : Except DescriptorError Signature :=
  match cursor.returnType with
  | none => .error (.malformed desc .unterminatedArguments)
  | some returnType => .ok ⟨cursor.args.toList, returnType⟩

/-- Go over the characters until the list is closed. -/
def run? (desc : String) : Cursor → List (Nat × Char) → Option (Except DescriptorError Signature)
  | cursor, [] => some (cursor.finish desc)
  | cursor, (pos, c) :: rest =>
    match cursor.step? desc pos c with
    | none => none
    | some (.error e) => some (.error e)
    | some (.ok next) =>
      if next.stage = .closed then some (next.finish desc) else next.run? desc rest

/-- The cursor behind these characters, if the loop has not ended there. -/
def after? (desc : String) : Cursor → List (Nat × Char) → Option Cursor
  | cursor, [] => some cursor
  | cursor, (pos, c) :: rest =>
    match cursor.step? desc pos c with
    | none => none
    | some (.error _) => none
    | some (.ok next) => if next.stage = .closed then none else next.after? desc rest

def parse? (desc : String) : Option (Except DescriptorError Signature) :=
  initial.run? desc (Text.withOffsets 0 desc.toList)

end Cursor

/-! ## The machine follows the table -/

def Phase.stage : Phase → Stage
  | outside => .outside
  | between => .between
  | markers _ => .markers
  | className _ => .className

/-- The part of the argument that the machine has seen, last character first. -/
def Phase.span : Phase → List Char
  | outside | between => []
  | markers span | className span => span

namespace Reader

/-- What the machine does for an action. -/
def follow (desc : String) (reader : Reader) (c : Char) : Action → Except DescriptorError Move
  | .go stage | .mark stage =>
    .ok (.next { reader with phase := stage.phase (c :: reader.phase.span) })
  | .completeOne | .complete => reader.complete (c :: reader.phase.span).reverse
  | .close => .ok (.close reader.args)
  | .refuse reason => .error (.malformed desc reason)

/-- A step of the machine is what the table says for its phase and the character. -/
theorem step_eq_follow (desc : String) (reader : Reader) (c : Char) :
    reader.step desc c = reader.follow desc c (reader.phase.stage.action c) := by
  obtain ⟨phase, args⟩ := reader
  unfold step Stage.action
  cases htag : Tag.ofChar? c with
  | none => cases phase <;> rfl
  | some tag => cases tag <;> cases phase <;> rfl

/-- The machine behind these characters, if it goes on there. -/
def after? (desc : String) : Reader → List Char → Option Reader
  | reader, [] => some reader
  | reader, c :: rest =>
    match reader.step desc c with
    | .error _ => none
    | .ok (.close _) => none
    | .ok (.next next) => next.after? desc rest

end Reader

/-- What the table takes care of before an action: an argument goes on only where one has started,
and one starts, or is completed by its only character, only where there is none. -/
def Action.Suits (stage : Stage) : Action → Prop
  | .go next => next ≠ .closed ∧ (next.inArgument = true → stage.inArgument = true)
  | .mark next => next ≠ .closed ∧ stage = .between
  | .completeOne => stage = .between
  | .complete => stage.inArgument = true
  | .close | .refuse _ => True

theorem Phase.suits_action (phase : Phase) (c : Char) :
    (phase.stage.action c).Suits phase.stage := by
  unfold Stage.action
  cases Tag.ofChar? c with
  | none => cases phase <;> simp [Action.Suits, Phase.stage, Stage.inArgument]
  | some tag => cases tag <;> cases phase <;> simp [Action.Suits, Phase.stage, Stage.inArgument]

theorem Phase.span_eq_nil {phase : Phase} (h : phase.stage = .between) : phase.span = [] := by
  cases phase with
  | outside => rfl
  | between => rfl
  | markers span => cases h
  | className span => cases h

theorem Phase.stage_ne_closed (phase : Phase) : phase.stage ≠ .closed := by
  cases phase <;> exact nofun

theorem Stage.stage_phase {stage : Stage} (h : stage ≠ .closed) (span : List Char) :
    (stage.phase span).stage = stage := by
  cases stage with
  | closed => exact absurd rfl h
  | outside | between | markers | className => rfl

theorem Stage.span_phase {stage : Stage} (h : stage.inArgument = true) (span : List Char) :
    (stage.phase span).span = span := by
  cases stage with
  | markers | className => rfl
  | outside | between | closed => cases h

theorem Phase.phase_stage_span (phase : Phase) : phase.stage.phase phase.span = phase := by
  cases phase <;> rfl

/-! ## The cursor tracks the machine -/

/-- Cursor and machine have both consumed the text and have come to the same place. In an argument,
the cursor has remembered where the span of the machine starts. -/
structure Tracks (text : List Char) (cursor : Cursor) (reader : Reader) : Prop where
  stage : cursor.stage = reader.phase.stage
  args : cursor.args = reader.args
  returnType : cursor.returnType = none
  start : cursor.stage.inArgument = true →
    ∃ before, text = before ++ reader.phase.span.reverse ∧ cursor.start = Text.byteSize before

/-- The slices that a step can take are what the machine has instead of them: the character, the
text behind it, and, in an argument, the span that ends with it. -/
structure Slices (desc : String) (text : List Char) (c : Char) (rest : List Char) (cursor : Cursor)
    (reader : Reader) : Prop where
  character : Text.slice? desc (Text.byteSize text) (Text.byteSize text + c.utf8Size) =
    some (String.ofList [c])
  behind : Text.slice? desc (Text.byteSize text + c.utf8Size) desc.utf8ByteSize =
    some (String.ofList rest)
  span : cursor.stage.inArgument = true →
    Text.slice? desc cursor.start (Text.byteSize text + c.utf8Size) =
      some (String.ofList (c :: reader.phase.span).reverse)

theorem Tracks.initial : Tracks [] Cursor.initial Reader.start := ⟨rfl, rfl, rfl, nofun⟩

section

variable {desc : String} {text rest : List Char} {c : Char} {cursor : Cursor} {reader : Reader}

theorem Tracks.slices (h : Tracks text cursor reader) (hdesc : desc.toList = text ++ c :: rest) :
    Slices desc text c rest cursor reader := by
  have hcharacter : desc.toList = text ++ [c] ++ rest := by
    rw [hdesc, List.append_assoc, List.singleton_append]
  refine ⟨?_, ?_, ?_⟩
  · exact Text.slice?_part hcharacter
  · exact (Text.slices_around hdesc).2
  · intro hargument
    -- the remembered offset is in front of the span, and the character comes right behind it
    obtain ⟨before, htext, hstart⟩ := h.start hargument
    have hspan : desc.toList = before ++ (c :: reader.phase.span).reverse ++ rest := by
      rw [hcharacter, htext, List.reverse_cons, List.append_assoc before]
    have hslice := Text.slice?_part hspan
    have hstop : Text.byteSize text + c.utf8Size =
        Text.byteSize before + Text.byteSize (c :: reader.phase.span).reverse := by
      rw [List.reverse_cons, ← Text.byteSize_append, ← List.append_assoc, ← htext]
      simp
    rw [hstart, hstop]
    exact hslice

/-! ## Step by step -/

/-- The two outcomes of one step: both go on, both refuse, or the machine closes the list and the
cursor has read the text behind it. -/
inductive Agrees (desc : String) (text rest : List Char) :
    Option (Except DescriptorError Cursor) → Except DescriptorError Move → Prop where
  | next {cursor : Cursor} {reader : Reader} : Tracks text cursor reader →
      Agrees desc text rest (some (.ok cursor)) (.ok (.next reader))
  | error (e : DescriptorError) : Agrees desc text rest (some (.error e)) (.error e)
  | closed {args : Array Arg} {start : Nat} {returnType : Ty} : Ty.whole rest = .ok returnType →
      Agrees desc text rest (some (.ok ⟨.closed, args, start, some returnType⟩)) (.ok (.close args))
  | noReturnType {args : Array Arg} {reason : Reason} : Ty.whole rest = .error reason →
      Agrees desc text rest (some (.error (.malformed desc reason))) (.ok (.close args))

/-- A complete argument is taken alike. -/
theorem Tracks.push (h : Tracks text cursor reader) (span : List Char) (c : Char) :
    Agrees desc (text ++ [c]) rest (cursor.push? (String.ofList span)) (reader.complete span) := by
  unfold Cursor.push? Reader.complete
  rw [Ty.Offsets.parse?_eq, Ty.parse, String.toList_ofList]
  cases Ty.whole span with
  | error reason => exact .error _
  | ok ty =>
      rw [← h.args]
      exact .next ⟨rfl, rfl, h.returnType, nofun⟩

/-- One step of the cursor and one of the machine come to the same place or refuse alike. -/
theorem Tracks.step (h : Tracks text cursor reader) (hdesc : desc.toList = text ++ c :: rest) :
    Agrees desc (text ++ [c]) rest (cursor.step? desc (Text.byteSize text) c)
      (reader.step desc c) := by
  have hslices := h.slices hdesc
  have hsuits := reader.phase.suits_action c
  rw [Reader.step_eq_follow]
  unfold Cursor.step?
  rw [h.stage]
  cases haction : reader.phase.stage.action c with
  | go next =>
      rw [haction] at hsuits
      obtain ⟨hopen, hargument⟩ := hsuits
      refine .next ⟨(next.stage_phase hopen _).symm, h.args, h.returnType, ?_⟩
      intro hnext
      -- the argument has started before, and the character belongs to it
      obtain ⟨before, htext, hstart⟩ := h.start (h.stage ▸ hargument hnext)
      refine ⟨before, ?_, hstart⟩
      rw [next.span_phase hnext, List.reverse_cons, ← List.append_assoc, ← htext]
  | mark next =>
      rw [haction] at hsuits
      obtain ⟨hopen, hbetween⟩ := hsuits
      refine .next ⟨(next.stage_phase hopen _).symm, h.args, h.returnType, ?_⟩
      -- the character is the first of the argument
      intro hnext
      refine ⟨text, ?_, rfl⟩
      rw [next.span_phase hnext, Phase.span_eq_nil hbetween, List.reverse_singleton]
  | completeOne =>
      rw [haction] at hsuits
      -- between two arguments the character is the whole span
      simp only [Reader.follow, hslices.character, Option.bind_eq_bind, Option.bind_some,
        Phase.span_eq_nil hsuits, List.reverse_singleton]
      exact h.push [c] c
  | complete =>
      rw [haction] at hsuits
      -- in an argument, the slice from the remembered offset is the span
      simp only [Reader.follow, hslices.span (h.stage ▸ hsuits), Option.bind_eq_bind,
        Option.bind_some]
      exact h.push (c :: reader.phase.span).reverse c
  | close =>
      -- the slice behind the `)` is the rest, and both read it as the return type
      simp only [Reader.follow, hslices.behind, Option.bind_eq_bind, Option.bind_some,
        Ty.Offsets.parse?_eq, Ty.parse, String.toList_ofList]
      cases hwhole : Ty.whole rest with
      | error reason => exact .noReturnType hwhole
      | ok returnType =>
          rw [h.args]
          exact .closed hwhole
  | refuse reason => exact .error _

/-! ## Runs -/

theorem Tracks.stage_ne_closed (h : Tracks text cursor reader) : cursor.stage ≠ .closed :=
  h.stage ▸ reader.phase.stage_ne_closed

theorem Tracks.run (h : Tracks text cursor reader) (hdesc : desc.toList = text ++ rest) :
    cursor.run? desc (Text.withOffsets (Text.byteSize text) rest) =
      some (reader.run desc rest) := by
  -- on the text still to be read; what was read is in the relation
  induction rest generalizing text cursor reader with
  | nil => simp only [Text.withOffsets, Cursor.run?, Cursor.finish, h.returnType, Reader.run]
  | cons c rest ih =>
      have hstep := h.step hdesc
      unfold Text.withOffsets Cursor.run? Reader.run
      generalize cursor.step? desc (Text.byteSize text) c = outcome at hstep ⊢
      generalize reader.step desc c = move at hstep ⊢
      cases hstep with
      | error e => rfl
      | @next next next' htracks =>
          have hrest := ih htracks (by rw [hdesc, List.append_assoc, List.singleton_append])
          rw [Text.byteSize_append, Text.byteSize_cons, Text.byteSize_nil, Nat.add_zero] at hrest
          simp only [if_neg htracks.stage_ne_closed]
          exact hrest
      | closed hwhole => simp only [hwhole, if_pos, Cursor.finish]
      | noReturnType hwhole => simp only [hwhole]

/-- Where the loop goes on, the machine goes on too, and the cursor tracks it. -/
theorem Tracks.after {more : List Char} (h : Tracks text cursor reader)
    (hdesc : desc.toList = text ++ (more ++ rest)) :
    Option.Rel (Tracks (text ++ more))
      (cursor.after? desc (Text.withOffsets (Text.byteSize text) more))
      (reader.after? desc more) := by
  induction more generalizing text cursor reader with
  | nil =>
      rw [List.append_nil]
      exact .some h
  | cons c more ih =>
      have hstep := h.step hdesc
      unfold Text.withOffsets Cursor.after? Reader.after?
      generalize cursor.step? desc (Text.byteSize text) c = outcome at hstep ⊢
      generalize reader.step desc c = move at hstep ⊢
      cases hstep with
      | error e => exact .none
      | @next next next' htracks =>
          have hrest := ih htracks (by rw [hdesc, List.append_assoc]; rfl)
          rw [Text.byteSize_append, Text.byteSize_cons, Text.byteSize_nil, Nat.add_zero,
            List.append_assoc] at hrest
          simp only [if_neg htracks.stage_ne_closed]
          exact hrest
      | closed hwhole => exact .none
      | noReturnType hwhole => exact .none

end

namespace Cursor

/-- No slice fails, and what is read is what the machine reads. -/
theorem parse?_eq (desc : String) : parse? desc = some (parse desc) := Tracks.initial.run rfl

/-- A run ends in its first part, or goes on behind it. -/
theorem run?_append (desc : String) (cursor : Cursor) (first rest : List (Nat × Char)) :
    cursor.run? desc (first ++ rest) =
      (cursor.after? desc first).elim (cursor.run? desc first) fun next => next.run? desc rest := by
  induction first generalizing cursor with
  | nil => rfl
  | cons place first ih =>
      obtain ⟨pos, c⟩ := place
      simp only [List.cons_append, run?, after?]
      cases cursor.step? desc pos c with
      | none => rfl
      | some outcome =>
          cases outcome with
          | error e => rfl
          | ok next =>
              by_cases hclosed : next.stage = .closed
              · simp only [if_pos hclosed, Option.elim_none]
              · simp only [if_neg hclosed, ih]

/-- Loop and machine go on behind the same texts. -/
theorem rel_after? {desc : String} {text rest : List Char} (hdesc : desc.toList = text ++ rest) :
    Option.Rel (Tracks text) (initial.after? desc (Text.withOffsets 0 text))
      (Reader.start.after? desc text) := Tracks.initial.after hdesc

/-- Behind a text where the loop goes on, there is a machine that the cursor tracks. -/
theorem exists_tracked {desc : String} {text rest : List Char} {cursor : Cursor}
    (hdesc : desc.toList = text ++ rest)
    (h : initial.after? desc (Text.withOffsets 0 text) = some cursor) :
    ∃ reader, Reader.start.after? desc text = some reader ∧ Tracks text cursor reader := by
  have hrel := rel_after? hdesc
  rw [h] at hrel
  generalize Reader.start.after? desc text = reached at hrel ⊢
  cases hrel with
  | some htracks => exact ⟨_, rfl, htracks⟩

/-- Where a cursor tracks a machine, reading goes on as the machine does. -/
theorem parse_eq_run {desc : String} {text rest : List Char} {cursor : Cursor} {reader : Reader}
    (hdesc : desc.toList = text ++ rest)
    (h : initial.after? desc (Text.withOffsets 0 text) = some cursor)
    (htracks : Tracks text cursor reader) : parse desc = reader.run desc rest := by
  have hrun : parse? desc = cursor.run? desc (Text.withOffsets (Text.byteSize text) rest) := by
    rw [parse?, hdesc, Text.withOffsets_append, run?_append, h, Option.elim_some, Nat.zero_add]
  rw [parse?_eq, htracks.run hdesc] at hrun
  exact Option.some.inj hrun

end Cursor

end Linkage.Signature
