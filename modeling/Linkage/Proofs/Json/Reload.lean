import Linkage.Json.Members
import Linkage.Proofs.Registry.Roster

/-!
# Storing and loading

What is stored of a value is read back as the value, for every type that has a stored form
(`stored_values_reload`). Nothing is asked of the value except that its numbers are machine words,
since larger ones are refused: a type that no descriptor spells and a signature with positions out
of order come back like any other.

A record is stored with its fields in order, so its reader finds every field at its name
(`Json.read_record`), and each field reloads for itself.
-/

namespace Linkage

/-- What is stored of the value is read as the value. -/
def Reloads {α : Type} [JsonForm α] (a : α) : Prop := decode? (encode a) = some a

/-- Reading goes on with a value that reloads. -/
theorem Reloads.bind {α β : Type} [JsonForm α] {a : α} (h : Reloads a) {f : α → Option β} :
    (decode? (encode a)).bind f = f a := by
  rw [show decode? (encode a) = some a from h, Option.bind_some]

/-! ## Records -/

/-- A list is read when each of its elements is. -/
theorem mapM_eq_some_iff {α β : Type} {f : α → Option β} {xs : List α} {ys : List β} :
    xs.mapM f = some ys ↔ xs.map f = ys.map some := by
  induction xs generalizing ys with
  | nil => cases ys <;> simp
  | cons x xs ih =>
      rw [List.mapM_cons, List.map_cons]
      constructor
      · intro h
        obtain ⟨y, hy, h⟩ := Option.bind_eq_some_iff.mp h
        obtain ⟨zs, hzs, h⟩ := Option.bind_eq_some_iff.mp h
        cases h
        rw [List.map_cons, hy, ih.mp hzs]
      · intro h
        cases ys with
        | nil => cases h
        | cons y ys =>
            rw [List.map_cons, List.cons.injEq] at h
            rw [h.1, ih.mpr h.2]
            rfl

/-- Two lists have the same images when their elements have, place by place. -/
theorem map_eq_map_of_zip {α β γ : Type} {f : α → γ} {g : β → γ} {xs : List α} {ys : List β}
    (hlength : xs.length = ys.length) (h : ∀ p ∈ xs.zip ys, f p.1 = g p.2) :
    xs.map f = ys.map g := by
  calc xs.map f
      = ((xs.zip ys).map Prod.fst).map f := by rw [List.map_fst_zip (Nat.le_of_eq hlength)]
    _ = (xs.zip ys).map (g ∘ Prod.snd) := by
        rw [List.map_map]
        exact List.map_congr_left h
    _ = ys.map g := by rw [← List.map_map, List.map_snd_zip (Nat.le_of_eq hlength.symm)]

/-- The member with a name is found when the names are distinct. -/
theorem lookup_of_mem {name : String} {value : Json} {members : List (String × Json)}
    (hnames : (members.map Prod.fst).Nodup) (h : (name, value) ∈ members) :
    members.lookup name = some value := by
  obtain ⟨before, after, rfl⟩ := List.append_of_mem h
  refine List.lookup_eq_some_iff.mpr ⟨before, after, rfl, ?_⟩
  intro member hmember
  rw [List.map_append, List.nodup_append] at hnames
  -- a member before it with the same name would be found first, but there is none
  have hne : member.1 ≠ name :=
    hnames.2.2 _ (List.mem_map_of_mem hmember) _ (List.mem_cons_self ..)
  exact bne_iff_ne.mpr hne.symm

/-- The name of a field leads to the value that stands with it, wherever that is. -/
theorem map_lookup_of_subset {names : List String} {values : List Json}
    {members : List (String × Json)} (hnames : (members.map Prod.fst).Nodup)
    (hlength : names.length = values.length) (h : names.zip values ⊆ members) :
    names.map (members.lookup ·) = values.map some :=
  map_eq_map_of_zip hlength fun _ hmember => lookup_of_mem hnames (h hmember)

/-- The names and the values of a record, put together in order. -/
theorem map_lookup_zip {names : List String} {values : List Json} (hnames : names.Nodup)
    (hlength : names.length = values.length) :
    names.map ((names.zip values).lookup ·) = values.map some := by
  apply map_lookup_of_subset _ hlength (List.Subset.refl _)
  rw [List.map_fst_zip (Nat.le_of_eq hlength)]
  exact hnames

section Record

variable {α : Type} {a : α} (names : List String) (values : List Json)

/-- A record is read from the values that it was written with. -/
theorem Json.read_record {read : List Json → Option α} (hnames : names.Nodup)
    (hlength : names.length = values.length) (hread : read values = some a) :
    ((object (names.zip values)).fields? names).bind read = some a := by
  have hfields : (object (names.zip values)).fields? names = some values :=
    mapM_eq_some_iff.mpr (map_lookup_zip hnames hlength)
  rw [hfields]
  exact hread

/-- A record with fallbacks has a value for each of its names, so none of them is used. -/
theorem Json.read_optional_record {read : List (Option Json) → Option α} (hnames : names.Nodup)
    (hlength : names.length = values.length) (hread : read (values.map some) = some a) :
    ((object (names.zip values)).optionalFields? names).bind read = some a := by
  have hfields : (object (names.zip values)).optionalFields? names = some (values.map some) :=
    congrArg some (map_lookup_zip hnames hlength)
  rw [hfields]
  exact hread

end Record

/-! ## Texts, numbers and lists -/

theorem reloads_text (s : String) : Reloads s := rfl

/-- A number is stored as it is, and one that is no machine word would be refused. -/
theorem reloads_word {n : Nat} (h : n < Json.wordBound) : Reloads n := if_pos h

theorem reloads_list {α : Type} [JsonForm α] {xs : List α} (h : ∀ x ∈ xs, Reloads x) :
    Reloads xs := by
  show (xs.map encode).mapM decode? = some xs
  rw [mapM_eq_some_iff, List.map_map]
  exact List.map_congr_left h

/-! ## Types and signatures -/

/-- A primitive is stored by name, and no two have the same one. -/
theorem Primitive.reloads (p : Primitive) : Reloads p := by
  cases p <;> rfl

theorem StoreKind.reloads (kind : StoreKind) : Reloads kind := by
  cases kind <;> rfl

/-- The name of a primitive is not that of another element. -/
theorem Element.reloads (element : Element) : Reloads element := by
  cases element with
  | primitive p => cases p <;> rfl
  | object name => rfl
  | anyObject => rfl

/-- The rank is a machine word. -/
def Ty.InWords (ty : Ty) : Prop := ty.rank < Json.wordBound

/-- A type is a record of its element and its rank, and the rank is its only number. -/
theorem Ty.reloads {ty : Ty} (h : ty.InWords) : Reloads ty := by
  apply Json.read_record ["kind", "array_rank"] [encode ty.element, encode ty.rank] (by decide) rfl
  exact (Element.reloads ty.element).bind.trans (reloads_word h).bind

/-- A type of the host reloads without a bound, as it holds no number. The induction is on its
components, one case inside the other. -/
theorem RuntimeType.reloads (ty : RuntimeType) : Reloads ty := by
  induction ty with
  | primitive p => exact congrArg (Option.map primitive) (Primitive.reloads p)
  | named name => rfl
  | array component ih => exact congrArg (Option.map array) ih

/-- The position and the rank of the type are machine words. -/
structure Arg.InWords (arg : Arg) : Prop where
  type : arg.type.InWords
  position : arg.position < Json.wordBound

theorem Arg.reloads {arg : Arg} (h : arg.InWords) : Reloads arg := by
  apply Json.read_record ["ty", "position"] [encode arg.type, encode arg.position] (by decide) rfl
  exact (Ty.reloads h.type).bind.trans (reloads_word h.position).bind

/-- All positions and ranks are machine words. -/
structure Signature.InWords (sig : Signature) : Prop where
  args : ∀ arg ∈ sig.args, arg.InWords
  returnType : sig.returnType.InWords

/-- A signature is a record of its arguments and its return type. The positions are stored like any
other number, so they may be out of order. -/
theorem Signature.reloads {sig : Signature} (h : sig.InWords) : Reloads sig := by
  have hargs : Reloads sig.args := reloads_list fun arg harg => Arg.reloads (h.args arg harg)
  apply Json.read_record ["args", "return_type"] [encode sig.args, encode sig.returnType]
    (by decide) rfl
  exact hargs.bind.trans (Ty.reloads h.returnType).bind

/-- The options are stored with both fields, so reading them needs no fallback. -/
theorem Declaration.Options.reloads (options : Declaration.Options) : Reloads options :=
  Json.read_optional_record ["show_full_class_name", "insert"]
    [encode options.fullNames, encode options.insert] (by decide) rfl rfl

/-! ## Members -/

theorem RuntimeMethod.reloads (m : RuntimeMethod) : Reloads m := by
  have hparameters : Reloads m.parameterTypes := reloads_list fun ty _ => RuntimeType.reloads ty
  apply Json.read_record ["declaring_class", "name", "parameter_types", "return_type"]
    [encode m.declaringClass, encode m.name, encode m.parameterTypes, encode m.returnType]
    (by decide) rfl
  refine (RuntimeType.reloads m.declaringClass).bind.trans ?_
  refine (reloads_text m.name).bind.trans ?_
  exact hparameters.bind.trans (RuntimeType.reloads m.returnType).bind

theorem RuntimeField.reloads (f : RuntimeField) : Reloads f := by
  apply Json.read_record ["declaring_class", "name", "field_type"]
    [encode f.declaringClass, encode f.name, encode f.fieldType] (by decide) rfl
  refine (RuntimeType.reloads f.declaringClass).bind.trans ?_
  exact (reloads_text f.name).bind.trans (RuntimeType.reloads f.fieldType).bind

theorem MethodRef.reloads (ref : MethodRef) : Reloads ref :=
  Json.read_record ["class_name", "name", "descriptor"]
    [encode ref.className, encode ref.name, encode ref.descriptor] (by decide) rfl rfl

theorem FieldRef.reloads (ref : FieldRef) : Reloads ref :=
  Json.read_record ["class_name", "name", "descriptor"]
    [encode ref.className, encode ref.name, encode ref.descriptor] (by decide) rfl rfl

/-- All positions and ranks are machine words. -/
structure Method.InWords (m : Method) : Prop where
  owner : m.owner.InWords
  signature : m.signature.InWords

theorem Method.reloads {m : Method} (h : m.InWords) : Reloads m := by
  apply Json.read_record ["owner", "name", "signature"]
    [encode m.owner, encode m.name, encode m.signature] (by decide) rfl
  -- the owner is read as any other type: reading does not ask whether it can own a method
  refine (Ty.reloads h.owner).bind.trans ?_
  exact (reloads_text m.name).bind.trans (Signature.reloads h.signature).bind

/-- Both ranks are machine words. -/
structure Field.InWords (f : Field) : Prop where
  owner : f.owner.InWords
  type : f.type.InWords

theorem Field.reloads {f : Field} (h : f.InWords) : Reloads f := by
  apply Json.read_record ["owner", "name", "ty"]
    [encode f.owner, encode f.name, encode f.type] (by decide) rfl
  refine (Ty.reloads h.owner).bind.trans ?_
  exact (reloads_text f.name).bind.trans (Ty.reloads h.type).bind

/-- The number is a machine word. -/
def MemberId.InWords (id : MemberId) : Prop := id.index < Json.wordBound

theorem MemberId.reloads {id : MemberId} (h : id.InWords) : Reloads id :=
  congrArg (Option.map MemberId.mk) (reloads_word h)

/-! ## All of them -/

/-- What storing keeps. Every value reloads whose numbers are machine words, and a member that was
stored and loaded is for a registry the member that it was. -/
structure KeepsValues : Prop where
  primitive (p : Primitive) : Reloads p
  element (element : Element) : Reloads element
  storeKind (kind : StoreKind) : Reloads kind
  type (ty : Ty) : ty.InWords → Reloads ty
  arg (arg : Arg) : arg.InWords → Reloads arg
  signature (sig : Signature) : sig.InWords → Reloads sig
  options (options : Declaration.Options) : Reloads options
  runtimeType (ty : RuntimeType) : Reloads ty
  runtimeMethod (m : RuntimeMethod) : Reloads m
  runtimeField (f : RuntimeField) : Reloads f
  methodRef (ref : MethodRef) : Reloads ref
  fieldRef (ref : FieldRef) : Reloads ref
  method (m : Method) : m.InWords → Reloads m
  field (f : Field) : f.InWords → Reloads f
  memberId (id : MemberId) : id.InWords → Reloads id
  /-- A loaded method has the number of the method that was stored. -/
  same_method (m : Method) : m.InWords → ∃ loaded : Method,
    decode? (encode m) = some loaded ∧ loaded = m ∧ ∀ registry : Registry,
      (registry.idOf? (.method loaded)).value = (registry.idOf? (.method m)).value ∧
        registry.Resolves (.method m) (.method loaded)
  /-- A loaded field has the number of the field that was stored. -/
  same_field (f : Field) : f.InWords → ∃ loaded : Field,
    decode? (encode f) = some loaded ∧ loaded = f ∧ ∀ registry : Registry,
      (registry.idOf? (.field loaded)).value = (registry.idOf? (.field f)).value ∧
        registry.Resolves (.field f) (.field loaded)

/-- **Storing loses nothing.** A value of any type with a stored form reloads when its numbers are
machine words. So a member that was stored and loaded is the member that it was, and a registry
has one number for the two. -/
theorem stored_values_reload : KeepsValues where
  primitive := Primitive.reloads
  element := Element.reloads
  storeKind := StoreKind.reloads
  type _ := Ty.reloads
  arg _ := Arg.reloads
  signature _ := Signature.reloads
  options := Declaration.Options.reloads
  runtimeType := RuntimeType.reloads
  runtimeMethod := RuntimeMethod.reloads
  runtimeField := RuntimeField.reloads
  methodRef := MethodRef.reloads
  fieldRef := FieldRef.reloads
  method _ := Method.reloads
  field _ := Field.reloads
  memberId _ := MemberId.reloads
  same_method m h := by
    refine ⟨m, Method.reloads h, rfl, ?_⟩
    intro registry
    exact ⟨rfl, registry.resolves_self _⟩
  same_field f h := by
    refine ⟨f, Field.reloads h, rfl, ?_⟩
    intro registry
    exact ⟨rfl, registry.resolves_self _⟩

/-- The largest word as a rank, an owner and an argument that no descriptor spells, and a position
that is given twice. -/
theorem stored_values_reload_largest_words :
    let ty : Ty := ⟨.anyObject, 18446744073709551615⟩
    let m : Method := ⟨ty, "", ⟨[⟨ty, 7⟩, ⟨⟨.object ";", 0⟩, 7⟩], ⟨.primitive .void, 2⟩⟩⟩
    let nested : RuntimeType := .array (.array (.named "Array"))
    decode? (encode m) = some m ∧ decode? (encode nested) = some nested ∧
      decode? (encode (⟨ty, "f", ty⟩ : Field)) = some (⟨ty, "f", ty⟩ : Field) ∧
      decode? (encode (⟨18446744073709551615⟩ : MemberId)) =
        some (⟨18446744073709551615⟩ : MemberId) := by
  intro ty m nested
  have hword : 18446744073709551615 < Json.wordBound := by decide
  have hsmall : 7 < Json.wordBound := by decide
  have hargs : ∀ arg ∈ m.signature.args, arg.InWords := by
    intro arg harg
    simp only [m, List.mem_cons, List.not_mem_nil, or_false] at harg
    rcases harg with rfl | rfl
    · exact ⟨hword, hsmall⟩
    · exact ⟨show 0 < Json.wordBound by decide, hsmall⟩
  have hm : m.InWords := ⟨hword, hargs, show 2 < Json.wordBound by decide⟩
  have hkept := stored_values_reload
  exact ⟨hkept.method m hm, hkept.runtimeType nested, hkept.field _ ⟨hword, hword⟩,
    hkept.memberId _ hword⟩

end Linkage
