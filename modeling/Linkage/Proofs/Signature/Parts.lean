import Linkage.Proofs.Ty.Spelling
import Linkage.Signature

/-!
# The parts of a method descriptor

A method descriptor is an argument list in parentheses and a return type, and some text may stand
before it that no reader looks at:

    before ( type* ) type

`Parts` is a descriptor taken apart in this way and `Parts.descriptor` puts it together again.
`parse_descriptor` is one half of the reader's correctness: what well-formed parts spell is read as
their signature. The machine is followed piece by piece, so there is one lemma for the text before
the list, one for an argument, and one for the list of them.
-/

namespace Linkage.Signature

/-! ## Taking a descriptor apart -/

/-- A method descriptor in parts. -/
structure Parts where
  /-- The text before the list. -/
  before : String
  /-- The types in the list. -/
  types : List Ty
  returnType : Ty
  deriving DecidableEq, Repr

namespace Parts

/-- The text that the parts make up. -/
def descriptor (parts : Parts) : String :=
  parts.before ++ "(" ++ String.join (parts.types.map Ty.descriptor) ++ ")"
    ++ parts.returnType.descriptor

/-- The signature in the descriptor. -/
def signature (parts : Parts) : Signature := .ofTypes parts.types parts.returnType

/-- Parts that a reader can tell apart. -/
structure WellFormed (parts : Parts) : Prop where
  no_open : '(' ∉ parts.before.toList
  no_close : ')' ∉ parts.before.toList
  types : ∀ ty ∈ parts.types, ty.FitsArgument
  returnType : parts.returnType.Readable

instance (parts : Parts) : Decidable parts.WellFormed :=
  decidable_of_iff
    (('(' ∉ parts.before.toList ∧ ')' ∉ parts.before.toList) ∧
      (∀ ty ∈ parts.types, ty.FitsArgument) ∧ parts.returnType.Readable)
    ⟨fun h => ⟨h.1.1, h.1.2, h.2.1, h.2.2⟩,
     fun h => ⟨⟨h.no_open, h.no_close⟩, h.types, h.returnType⟩⟩

theorem toList_descriptor (parts : Parts) :
    parts.descriptor.toList =
      parts.before.toList ++
        '(' :: (parts.types.flatMap Ty.spell ++ ')' :: parts.returnType.spell) := by
  simp [descriptor, String.toList_join, List.flatMap_map]

/-- The first `(` of the descriptor is the one of the list. -/
theorem cut?_descriptor {parts : Parts} (hopen : '(' ∉ parts.before.toList) :
    Text.cut? '(' parts.descriptor.toList =
      some (parts.before.toList,
        parts.types.flatMap Ty.spell ++ ')' :: parts.returnType.spell) := by
  rw [toList_descriptor]
  exact Text.cut?_append hopen _

end Parts

/-! ## Numbered types -/

/-- The arguments that have these types, numbered from zero. -/
def numbered (types : List Ty) : List Arg := types.mapIdx fun position type => ⟨type, position⟩

theorem ofTypes_eq (types : List Ty) (returnType : Ty) :
    ofTypes types returnType = ⟨numbered types, returnType⟩ := rfl

@[simp] theorem numbered_append_singleton (types : List Ty) (ty : Ty) :
    numbered (types ++ [ty]) = numbered types ++ [⟨ty, types.length⟩] := by
  simp [numbered, List.mapIdx_append]

@[simp] theorem length_numbered (types : List Ty) : (numbered types).length = types.length := by
  simp [numbered]

@[simp] theorem map_type_numbered (types : List Ty) : (numbered types).map Arg.type = types := by
  rw [numbered, List.mapIdx_eq_zipIdx_map, List.map_map]
  exact List.zipIdx_map_fst 0 types

/-- A signature has its types in one order only. -/
theorem ofTypes_injective {ts us : List Ty} {r s : Ty} (h : ofTypes ts r = ofTypes us s) :
    ts = us ∧ r = s := by
  rw [ofTypes_eq, ofTypes_eq, Signature.mk.injEq] at h
  obtain ⟨hargs, hreturn⟩ := h
  refine ⟨?_, hreturn⟩
  rw [← map_type_numbered ts, hargs, map_type_numbered]

/-! ## The machine on spelled text

Each lemma follows the machine over one piece of a descriptor, with any text after it. -/

/-- The phase after `rank` markers of an argument; none of them leaves the machine between two
arguments. -/
def Phase.afterMarkers : Nat → Phase
  | 0 => .between
  | rank + 1 => .markers (List.replicate (rank + 1) '[')

namespace Reader

variable (desc : String)

/-- One more marker, from wherever the markers so far have led. -/
theorem step_marker (rank : Nat) (args : Array Arg) :
    step desc ⟨.afterMarkers rank, args⟩ '[' = .ok (.next ⟨.afterMarkers (rank + 1), args⟩) := by
  cases rank <;> rfl

theorem step_classStart (rank : Nat) (args : Array Arg) :
    step desc ⟨.afterMarkers rank, args⟩ 'L' =
      .ok (.next ⟨.className ('L' :: List.replicate rank '['), args⟩) := by
  cases rank <;> rfl

/-- A `;` completes the class name that the span ends with. -/
theorem step_classEnd (rank : Nat) (body : List Char) (args : Array Arg) :
    step desc ⟨.className (body.reverse ++ 'L' :: List.replicate rank '['), args⟩ ';' =
      complete ⟨.className (body.reverse ++ 'L' :: List.replicate rank '['), args⟩
        (List.replicate rank '[' ++ 'L' :: (body ++ [';'])) := by
  -- the machine keeps the span reversed
  have hspan : (';' :: (body.reverse ++ 'L' :: List.replicate rank '[')).reverse =
      List.replicate rank '[' ++ 'L' :: (body ++ [';']) := by
    simp
  rw [← hspan]
  rfl

theorem step_primitive (rank : Nat) (args : Array Arg) (p : Primitive) :
    step desc ⟨.afterMarkers rank, args⟩ p.tag =
      complete ⟨.afterMarkers rank, args⟩ (List.replicate rank '[' ++ [p.tag]) := by
  have htag : Tag.ofChar? p.tag = some (.primitive p) := Tag.ofChar?_char (.primitive p)
  cases rank with
  | zero => simp [step, Phase.afterMarkers, htag]
  | succ rank => simp [step, Phase.afterMarkers, htag]

/-- A class name takes every character but the one that ends it and the `)`. -/
theorem step_className {span : List Char} {args : Array Arg} {c : Char} (hend : ';' ≠ c)
    (hclose : ')' ≠ c) :
    step desc ⟨.className span, args⟩ c = .ok (.next ⟨.className (c :: span), args⟩) := by
  unfold step
  split <;> simp_all [Tag.ofChar?_eq_some_iff, Tag.char]

theorem step_outside {args : Array Arg} {c : Char} (hopen : '(' ≠ c) (hclose : ')' ≠ c) :
    step desc ⟨.outside, args⟩ c = .ok (.next ⟨.outside, args⟩) := by
  unfold step
  split <;> simp_all [Tag.ofChar?_eq_some_iff, Tag.char]

/-- A completed span of a type that can be read is that type as the next argument. -/
theorem complete_spell {reader : Reader} {ty : Ty} (h : ty.Readable) :
    reader.complete ty.spell = .ok (.next ⟨.between, reader.args.push ⟨ty, reader.args.size⟩⟩) := by
  simp only [complete, Ty.whole_spell h]

theorem run_cons_next {desc : String} {reader next : Reader} {c : Char}
    (h : reader.step desc c = .ok (.next next)) (rest : List Char) :
    reader.run desc (c :: rest) = next.run desc rest := by
  simp only [run, h]

/-- Before the list, the machine only waits for it. -/
theorem run_before {before : List Char} (hopen : '(' ∉ before) (hclose : ')' ∉ before)
    (args : Array Arg) (rest : List Char) :
    run desc ⟨.outside, args⟩ (before ++ rest) = run desc ⟨.outside, args⟩ rest := by
  induction before with
  | nil => rfl
  | cons c before ih =>
      obtain ⟨hopen_c, hopen_rest⟩ := not_or.mp (mt List.mem_cons.mpr hopen)
      obtain ⟨hclose_c, hclose_rest⟩ := not_or.mp (mt List.mem_cons.mpr hclose)
      rw [List.cons_append, run_cons_next (step_outside desc hopen_c hclose_c)]
      exact ih hopen_rest hclose_rest

theorem run_outside {before : List Char} (hopen : '(' ∉ before) (hclose : ')' ∉ before)
    (args : Array Arg) (rest : List Char) :
    run desc ⟨.outside, args⟩ (before ++ '(' :: rest) = run desc ⟨.between, args⟩ rest := by
  rw [run_before desc hopen hclose]
  rfl

theorem run_markers (n rank : Nat) (args : Array Arg) (rest : List Char) :
    run desc ⟨.afterMarkers rank, args⟩ (List.replicate n '[' ++ rest) =
      run desc ⟨.afterMarkers (rank + n), args⟩ rest := by
  induction n generalizing rank with
  | zero => rfl
  | succ n ih =>
      rw [List.replicate_succ, List.cons_append, run_cons_next (step_marker desc rank args), ih]
      congr 3
      omega

theorem run_className {body : List Char} (hend : ';' ∉ body) (hclose : ')' ∉ body)
    (span : List Char) (args : Array Arg) (rest : List Char) :
    run desc ⟨.className span, args⟩ (body ++ rest) =
      run desc ⟨.className (body.reverse ++ span), args⟩ rest := by
  induction body generalizing span with
  | nil => rfl
  | cons c body ih =>
      obtain ⟨hend_c, hend_rest⟩ := not_or.mp (mt List.mem_cons.mpr hend)
      obtain ⟨hclose_c, hclose_rest⟩ := not_or.mp (mt List.mem_cons.mpr hclose)
      rw [List.cons_append, run_cons_next (step_className desc hend_c hclose_c),
        ih hend_rest hclose_rest]
      simp

/-- The machine takes a spelled argument for that argument. -/
theorem run_spell {ty : Ty} (h : ty.FitsArgument) (args : Array Arg) (rest : List Char) :
    run desc ⟨.between, args⟩ (ty.spell ++ rest) =
      run desc ⟨.between, args.push ⟨ty, args.size⟩⟩ rest := by
  obtain ⟨hread, hclose⟩ := h
  obtain ⟨element, rank⟩ := ty
  have hmarkers := run_markers desc rank 0 args (element.spell ++ rest)
  rw [Nat.zero_add] at hmarkers
  rw [Ty.spell, List.append_assoc]
  -- the markers come first; what the element does depends on them through the span alone
  refine hmarkers.trans ?_
  cases element with
  | primitive p =>
      -- the letter completes the argument at once
      have hstep := step_primitive desc rank args p
      rw [show List.replicate rank '[' ++ [p.tag] = Ty.spell ⟨.primitive p, rank⟩ from rfl,
        complete_spell hread] at hstep
      exact run_cons_next hstep rest
  | object name =>
      -- the `L` opens the name, its characters follow, and the `;` completes the argument
      have hname := run_className desc hread.2 hclose ('L' :: List.replicate rank '[')
        args (';' :: rest)
      have hstep := step_classEnd desc rank name.toList args
      rw [show List.replicate rank '[' ++ 'L' :: (name.toList ++ [';']) =
        Ty.spell ⟨.object name, rank⟩ from rfl, complete_spell hread] at hstep
      simp only [Element.spell, List.cons_append, List.append_assoc, List.nil_append]
      rw [run_cons_next (step_classStart desc rank args), hname, run_cons_next hstep]
  | anyObject => exact hread.elim

/-- The machine takes spelled arguments for those arguments, numbered on from those it has. -/
theorem run_flatMap_spell {types : List Ty} (h : ∀ ty ∈ types, ty.FitsArgument)
    (done : List Ty) (rest : List Char) :
    run desc ⟨.between, (numbered done).toArray⟩ (types.flatMap Ty.spell ++ rest) =
      run desc ⟨.between, (numbered (done ++ types)).toArray⟩ rest := by
  induction types generalizing done with
  | nil => simp
  | cons ty types ih =>
      have hpush : (numbered done).toArray.push ⟨ty, (numbered done).toArray.size⟩ =
          (numbered (done ++ [ty])).toArray := by
        simp
      rw [List.flatMap_cons, List.append_assoc, run_spell desc (h ty (by simp)), hpush,
        ih (fun other hmem => h other (by simp [hmem]))]
      simp

end Reader

/-- What well-formed parts make up is read as their signature. -/
theorem parse_descriptor {parts : Parts} (h : parts.WellFormed) :
    parse parts.descriptor = .ok parts.signature := by
  have hopened := Reader.run_outside parts.descriptor h.no_open h.no_close #[]
    (parts.types.flatMap Ty.spell ++ ')' :: parts.returnType.spell)
  have hlisted := Reader.run_flatMap_spell parts.descriptor h.types []
    (')' :: parts.returnType.spell)
  unfold parse
  rw [parts.toList_descriptor]
  refine (hopened.trans hlisted).trans ?_
  have hclose :
      Reader.step parts.descriptor ⟨.between, (numbered ([] ++ parts.types)).toArray⟩ ')' =
        .ok (.close (numbered ([] ++ parts.types)).toArray) := rfl
  simp only [Reader.run, hclose, Ty.whole_spell h.returnType]
  rfl

end Linkage.Signature
