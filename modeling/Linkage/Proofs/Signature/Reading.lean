import Linkage.Proofs.Signature.Parts

/-!
# Method descriptors are read exactly

The reader of method descriptors accepts what well-formed parts make up and nothing else, and it
finds the parts again:

    parse_eq_ok_iff       : parse desc = .ok sig ↔ ∃ parts, parts.WellFormed ∧ …
    descriptor_injective  : well-formed parts of one descriptor are the same

`Linkage.Proofs.Signature.Parts` has the direction from the parts to the reader. The other one
rests on an invariant of the machine, `Reader.Invariant`: the consumed text is some text without
parentheses, and from the `(` on it is the spelling of the complete arguments followed by the span
that the phase carries. A step keeps it (`Invariant.step`), and so does a run up to the `)` that
closes the list (`Invariant.run`).
-/

namespace Linkage.Signature

/-! ## The invariant -/

/-- The text opens an argument list and spells these complete arguments in it. -/
def Opened (text : List Char) (types : List Ty) : Prop :=
  ∃ before, '(' ∉ before ∧ ')' ∉ before ∧ (∀ ty ∈ types, ty.FitsArgument) ∧
    text = before ++ '(' :: types.flatMap Ty.spell

theorem Opened.push {text : List Char} {types : List Ty} {ty : Ty} (h : Opened text types)
    (hty : ty.FitsArgument) : Opened (text ++ ty.spell) (types ++ [ty]) := by
  obtain ⟨before, hopen, hclose, hall, rfl⟩ := h
  refine ⟨before, hopen, hclose, ?_, by simp⟩
  intro other hmem
  rcases List.mem_append.mp hmem with hmem | hmem
  · exact hall other hmem
  · rw [List.mem_singleton.mp hmem]
    exact hty

namespace Reader

/-- What a machine that has consumed the text can look like. -/
inductive Invariant : List Char → Reader → Prop where
  | outside {text : List Char} : '(' ∉ text → ')' ∉ text → Invariant text ⟨.outside, #[]⟩
  | markers {text : List Char} {types : List Ty} (rank : Nat) : Opened text types →
      Invariant (text ++ List.replicate rank '[') ⟨.afterMarkers rank, (numbered types).toArray⟩
  | className {text : List Char} {types : List Ty} (rank : Nat) (body : List Char) :
      Opened text types → ';' ∉ body → ')' ∉ body →
      Invariant (text ++ (List.replicate rank '[' ++ 'L' :: body))
        ⟨.className (body.reverse ++ 'L' :: List.replicate rank '['), (numbered types).toArray⟩

theorem Invariant.start : Invariant [] start := .outside (by simp) (by simp)

/-! ## What a step can do -/

variable {desc : String} {args : Array Arg} {c : Char} {move : Move}

theorem step_outside_cases (h : step desc ⟨.outside, args⟩ c = .ok move) :
    (c = '(' ∧ move = .next ⟨.between, args⟩) ∨
      ('(' ≠ c ∧ ')' ≠ c ∧ move = .next ⟨.outside, args⟩) := by
  by_cases hopen : '(' = c
  · subst hopen
    cases h
    exact .inl ⟨rfl, rfl⟩
  by_cases hclose : ')' = c
  · subst hclose
    cases h
  · rw [step_outside desc hopen hclose] at h
    cases h
    exact .inr ⟨hopen, hclose, rfl⟩

/-- Between arguments or behind markers, there is one more marker, a class name, a primitive type
or, without markers, the end of the list. -/
theorem step_afterMarkers_cases {rank : Nat}
    (h : step desc ⟨.afterMarkers rank, args⟩ c = .ok move) :
    (c = ')' ∧ rank = 0 ∧ move = .close args) ∨
      (c = '[' ∧ move = .next ⟨.afterMarkers (rank + 1), args⟩) ∨
      (c = 'L' ∧ move = .next ⟨.className ('L' :: List.replicate rank '['), args⟩) ∨
      ∃ p : Primitive, c = p.tag ∧
        complete ⟨.afterMarkers rank, args⟩ (List.replicate rank '[' ++ [p.tag]) = .ok move := by
  cases htag : Tag.ofChar? c with
  | none => cases rank <;> simp [step, Phase.afterMarkers, htag] at h
  | some tag =>
      -- the role of the character decides, and markers before it only forbid the `)`
      obtain rfl := Tag.char_of_ofChar? htag
      cases tag with
      | primitive p =>
          have hcomplete := (step_primitive desc rank args p).symm.trans h
          exact .inr (.inr (.inr ⟨p, rfl, hcomplete⟩))
      | arrayDim =>
          cases (step_marker desc rank args).symm.trans h
          exact .inr (.inl ⟨rfl, rfl⟩)
      | classStart =>
          cases (step_classStart desc rank args).symm.trans h
          exact .inr (.inr (.inl ⟨rfl, rfl⟩))
      | argsEnd =>
          cases rank with
          | zero =>
              cases h
              exact .inl ⟨rfl, rfl, rfl⟩
          | succ rank => cases h
      | classEnd => cases rank <;> cases h
      | argsStart => cases rank <;> cases h
      | annotationValue a => cases rank <;> cases a <;> cases h

theorem step_className_cases {rank : Nat} {body : List Char}
    (h : step desc ⟨.className (body.reverse ++ 'L' :: List.replicate rank '['), args⟩ c =
      .ok move) :
    (c = ';' ∧ complete ⟨.className (body.reverse ++ 'L' :: List.replicate rank '['), args⟩
        (List.replicate rank '[' ++ 'L' :: (body ++ [';'])) = .ok move) ∨
      (';' ≠ c ∧ ')' ≠ c ∧ move =
        .next ⟨.className (c :: (body.reverse ++ 'L' :: List.replicate rank '[')), args⟩) := by
  by_cases hend : ';' = c
  · subst hend
    rw [step_classEnd] at h
    exact .inl ⟨rfl, h⟩
  by_cases hclose : ')' = c
  · subst hclose
    cases h
  · rw [step_className desc hend hclose] at h
    cases h
    exact .inr ⟨hend, hclose, rfl⟩

/-- A span that completes an argument spells its type. -/
theorem exists_of_complete {reader : Reader} {span : List Char}
    (h : reader.complete span = .ok move) :
    ∃ ty : Ty, ty.Readable ∧ span = ty.spell ∧
      move = .next ⟨.between, reader.args.push ⟨ty, reader.args.size⟩⟩ := by
  unfold complete at h
  cases hwhole : Ty.whole span with
  | error reason => simp [hwhole] at h
  | ok ty =>
      simp only [hwhole] at h
      cases h
      obtain ⟨hread, hspan⟩ := Ty.whole_eq_ok_iff.mp hwhole
      exact ⟨ty, hread, hspan, rfl⟩

/-! ## Steps and runs keep the invariant -/

/-- A completed argument that holds no `)` extends the list that the text has opened. -/
theorem Invariant.complete {text span : List Char} {types : List Ty} {phase : Phase}
    {next : Reader} (hopened : Opened text types) (hclose : ')' ∉ span)
    (h : Reader.complete ⟨phase, (numbered types).toArray⟩ span = .ok (.next next)) :
    Invariant (text ++ span) next := by
  obtain ⟨ty, hread, rfl, hnext⟩ := exists_of_complete h
  -- the `)` that the span lacks is what an argument must not have
  have hfits : ty.FitsArgument := by
    refine ⟨hread, ?_⟩
    intro hmem
    apply hclose
    exact Ty.mem_spell_of_mem_className hmem
  have hkept := Invariant.markers 0 (hopened.push hfits)
  cases hnext
  simpa [Phase.afterMarkers] using hkept

/-- The machine can only go on to what the text with the next character allows. -/
theorem Invariant.step {text : List Char} {reader next : Reader} (hinv : Invariant text reader)
    (h : reader.step desc c = .ok (.next next)) : Invariant (text ++ [c]) next := by
  cases hinv with
  | outside hopen hclose =>
      rcases step_outside_cases h with ⟨rfl, hnext⟩ | ⟨hopen_c, hclose_c, hnext⟩
      · -- the list is opened here, with no argument yet
        cases hnext
        have hopened : Opened (text ++ ['(']) [] := ⟨text, hopen, hclose, by simp, by simp⟩
        simpa [Phase.afterMarkers, numbered] using Invariant.markers 0 hopened
      · -- still no parenthesis
        cases hnext
        refine .outside ?_ ?_
        · simp [hopen, hopen_c]
        · simp [hclose, hclose_c]
  | @markers text types rank hopened =>
      rcases step_afterMarkers_cases h with ⟨_, _, hnext⟩ | ⟨rfl, hnext⟩ | ⟨rfl, hnext⟩ |
        ⟨p, rfl, hcomplete⟩
      · -- a `)` closes the list, and the machine does not go on
        cases hnext
      · -- one more marker
        cases hnext
        rw [List.append_assoc, ← List.replicate_succ']
        exact .markers (rank + 1) hopened
      · -- a class name, without characters so far
        cases hnext
        rw [List.append_assoc]
        exact .className rank [] hopened (by simp) (by simp)
      · -- a primitive type completes the argument
        rw [List.append_assoc]
        refine Invariant.complete hopened ?_ hcomplete
        cases p <;> simp [Primitive.tag]
  | @className text types rank body hopened hend hclose =>
      rcases step_className_cases h with ⟨rfl, hcomplete⟩ | ⟨hend_c, hclose_c, hnext⟩
      · -- the `;` completes the argument, and the name has no `)`
        rw [List.append_assoc, List.append_assoc, List.cons_append]
        refine Invariant.complete hopened ?_ hcomplete
        simp [hclose]
      · -- the name has one more character
        cases hnext
        have hkept := Invariant.className rank (body ++ [c]) hopened
          (by simp [hend, hend_c]) (by simp [hclose, hclose_c])
        simpa using hkept

/-- The machine closes the list only between two arguments, and then it has all of them. -/
theorem Invariant.close {text : List Char} {reader : Reader} (hinv : Invariant text reader)
    (h : reader.step desc c = .ok (.close args)) :
    c = ')' ∧ ∃ types, Opened text types ∧ args.toList = numbered types := by
  cases hinv with
  | outside _ _ => rcases step_outside_cases h with ⟨_, hnext⟩ | ⟨_, _, hnext⟩ <;> cases hnext
  | @markers text types rank hopened =>
      rcases step_afterMarkers_cases h with ⟨rfl, rfl, hclosed⟩ | ⟨_, hnext⟩ | ⟨_, hnext⟩ |
        ⟨p, _, hcomplete⟩
      · -- no marker is open, so the text has opened and spelled complete arguments only
        cases hclosed
        exact ⟨rfl, types, by simpa using hopened, rfl⟩
      · cases hnext
      · cases hnext
      · obtain ⟨_, _, _, hnext⟩ := exists_of_complete hcomplete
        cases hnext
  | className _ _ _ _ _ =>
      rcases step_className_cases h with ⟨_, hcomplete⟩ | ⟨_, _, hnext⟩
      · obtain ⟨_, _, _, hnext⟩ := exists_of_complete hcomplete
        cases hnext
      · cases hnext

/-- A run that succeeds finds the `)` of an opened list and, behind it, the spelling of a type. -/
theorem Invariant.run {text rest : List Char} {reader : Reader} {sig : Signature}
    (hinv : Invariant text reader) (h : reader.run desc rest = .ok sig) :
    ∃ opened types returnType, Opened opened types ∧ returnType.Readable ∧
      text ++ rest = opened ++ ')' :: returnType.spell ∧ sig = ofTypes types returnType := by
  -- on the text still to be read; what was read is in the invariant
  induction rest generalizing text reader with
  | nil => simp [Reader.run] at h
  | cons c rest ih =>
      unfold Reader.run at h
      cases hstep : reader.step desc c with
      | error e => simp [hstep] at h
      | ok move =>
          cases move with
          | next next =>
              simp only [hstep] at h
              obtain ⟨opened, types, returnType, hopened, hread, htext, hsig⟩ :=
                ih (hinv.step hstep) h
              rw [List.append_assoc, List.singleton_append] at htext
              exact ⟨opened, types, returnType, hopened, hread, htext, hsig⟩
          | close args =>
              simp only [hstep] at h
              -- the list ends here: what was read spells it, and the rest spells the return type
              obtain ⟨rfl, types, hopened, hargs⟩ := hinv.close hstep
              cases hwhole : Ty.whole rest with
              | error reason => simp [hwhole] at h
              | ok returnType =>
                  simp only [hwhole] at h
                  obtain ⟨hread, rfl⟩ := Ty.whole_eq_ok_iff.mp hwhole
                  cases h
                  refine ⟨text, types, returnType, hopened, hread, rfl, ?_⟩
                  rw [hargs, ofTypes_eq]

end Reader

/-! ## Parts and signatures -/

/-- What is read is what well-formed parts make up. -/
theorem exists_parts_of_parse {desc : String} {sig : Signature} (h : parse desc = .ok sig) :
    ∃ parts : Parts, parts.WellFormed ∧ desc = parts.descriptor ∧ sig = parts.signature := by
  obtain ⟨_, types, returnType, ⟨before, hopen, hclose, hall, rfl⟩, hread, htext, hsig⟩ :=
    Reader.Invariant.start.run h
  refine ⟨⟨String.ofList before, types, returnType⟩, ⟨?_, ?_, hall, hread⟩, ?_, hsig⟩
  · simpa using hopen
  · simpa using hclose
  · rw [← String.toList_inj, Parts.toList_descriptor]
    simpa using htext

/-- A text is a method descriptor when well-formed parts make it up. -/
theorem parse_eq_ok_iff {desc : String} {sig : Signature} :
    parse desc = .ok sig ↔
      ∃ parts : Parts, parts.WellFormed ∧ desc = parts.descriptor ∧ sig = parts.signature := by
  constructor
  · exact exists_parts_of_parse
  · rintro ⟨parts, hparts, rfl, rfl⟩
    exact parse_descriptor hparts

/-- Nothing is lost in a descriptor: well-formed parts that make up the same text are the same. -/
theorem Parts.descriptor_injective {a b : Parts} (ha : a.WellFormed) (hb : b.WellFormed)
    (h : a.descriptor = b.descriptor) : a = b := by
  -- both make up a text that is read once, so types and return types agree; the texts before the
  -- list are left
  have hsig : a.signature = b.signature :=
    Except.ok.inj (by rw [← parse_descriptor ha, h, parse_descriptor hb])
  obtain ⟨htypes, hreturn⟩ := ofTypes_injective hsig
  have hbefore : a.before.toList = b.before.toList := by
    -- neither text has a `(` of its own, so both end at the first one
    have hcut := congrArg (Text.cut? '(' ∘ String.toList) h
    simp only [Function.comp_apply, Parts.cut?_descriptor ha.no_open,
      Parts.cut?_descriptor hb.no_open, Option.some.injEq, Prod.mk.injEq] at hcut
    exact hcut.1
  obtain ⟨before, types, returnType⟩ := a
  obtain ⟨before', types', returnType'⟩ := b
  rw [String.toList_inj] at hbefore
  subst hbefore htypes hreturn
  rfl

/-- **The reader of method descriptors is inverse to writing them.** A text is read as a signature
exactly when it is made up of well-formed parts with that signature, and then it is made up of them
in one way only. -/
theorem parse_inverts_descriptor (desc : String) :
    (∀ sig, parse desc = .ok sig ↔
      ∃ parts : Parts, parts.WellFormed ∧ desc = parts.descriptor ∧ sig = parts.signature) ∧
    ∀ a b : Parts, a.WellFormed → b.WellFormed → desc = a.descriptor → desc = b.descriptor →
      a = b := by
  refine ⟨fun _ => parse_eq_ok_iff, ?_⟩
  intro a b ha hb hdesc_a hdesc_b
  exact Parts.descriptor_injective ha hb (hdesc_a.symm.trans hdesc_b)

/-- Text before the list, markers and parentheses in the class name of an argument, and a `)` in
that of the return type. -/
theorem parse_inverts_descriptor_junk_and_nested_names :
    let parts : Parts :=
      ⟨"x;[", [⟨.primitive .int, 0⟩, ⟨.object "p/(L[", 2⟩], ⟨.object "q)", 1⟩⟩
    parse "x;[(I[[Lp/(L[;)[Lq);" =
        .ok ⟨[⟨⟨.primitive .int, 0⟩, 0⟩, ⟨⟨.object "p/(L[", 2⟩, 1⟩], ⟨.object "q)", 1⟩⟩ ∧
      parts.WellFormed ∧ parts = ⟨"x;[", parts.types, parts.returnType⟩ := by
  intro parts
  have hparts : parts.WellFormed := by decide
  have hdesc : "x;[(I[[Lp/(L[;)[Lq);" = parts.descriptor := rfl
  obtain ⟨hparse, hunique⟩ := parse_inverts_descriptor "x;[(I[[Lp/(L[;)[Lq);"
  exact ⟨(hparse _).mpr ⟨parts, hparts, hdesc, rfl⟩, hparts,
    hunique parts parts hparts hparts hdesc hdesc⟩

end Linkage.Signature
