import Linkage.Proofs.Json.Reload

/-!
# Spellings

A stored value can be spelled in more than one way: a record as an object, with its members in any
order and among others, or as an array; a case without payload as its name or as an object. All
spellings are read alike (`Stored.spellings_read_alike`), also when a part of the value is spelled
in one way and the whole in another.

The types with a stored form get codes (`Stored`), so that the parts of a value can be named for all
of them at once. A record is read from the values given to its fields (`Stored.given?`), each by the
reader of its field (`Stored.exists_build`), and this is where the spellings meet.
-/

namespace Linkage

/-- The types that are read from JSON. -/
inductive Stored where
  | flag | word | text
  | primitive | element | storeKind | runtimeType
  | type | arg | signature | options
  | runtimeMethod | runtimeField | methodRef | fieldRef | method | field | memberId
  | list (item : Stored)
  deriving DecidableEq, Repr

namespace Stored

def Value : Stored → Type
  | flag => Bool
  | word => Nat
  | text => String
  | primitive => Primitive
  | element => Element
  | storeKind => StoreKind
  | runtimeType => RuntimeType
  | type => Ty
  | arg => Arg
  | signature => Signature
  | options => Declaration.Options
  | runtimeMethod => RuntimeMethod
  | runtimeField => RuntimeField
  | methodRef => MethodRef
  | fieldRef => FieldRef
  | method => Method
  | field => Field
  | memberId => MemberId
  | list item => List item.Value

instance form : (s : Stored) → JsonForm s.Value
  | flag => inferInstanceAs (JsonForm Bool)
  | word => inferInstanceAs (JsonForm Nat)
  | text => inferInstanceAs (JsonForm String)
  | primitive => inferInstanceAs (JsonForm Primitive)
  | element => inferInstanceAs (JsonForm Element)
  | storeKind => inferInstanceAs (JsonForm StoreKind)
  | runtimeType => inferInstanceAs (JsonForm RuntimeType)
  | type => inferInstanceAs (JsonForm Ty)
  | arg => inferInstanceAs (JsonForm Arg)
  | signature => inferInstanceAs (JsonForm Signature)
  | options => inferInstanceAs (JsonForm Declaration.Options)
  | runtimeMethod => inferInstanceAs (JsonForm RuntimeMethod)
  | runtimeField => inferInstanceAs (JsonForm RuntimeField)
  | methodRef => inferInstanceAs (JsonForm MethodRef)
  | fieldRef => inferInstanceAs (JsonForm FieldRef)
  | method => inferInstanceAs (JsonForm Method)
  | field => inferInstanceAs (JsonForm Field)
  | memberId => inferInstanceAs (JsonForm MemberId)
  | list item =>
    have := form item
    inferInstanceAs (JsonForm (List item.Value))

/-- The reader of the type. -/
def read (s : Stored) (json : Json) : Option s.Value := decode? json

example : method.read = (decode? : Json → Option Method) := rfl

/-! ## Parts -/

/-- The fields of a record in the order of an array, with what each of them stores. -/
def fields : Stored → List (String × Stored)
  | type => [("kind", element), ("array_rank", word)]
  | arg => [("ty", type), ("position", word)]
  | signature => [("args", list arg), ("return_type", type)]
  | options => [("show_full_class_name", flag), ("insert", text)]
  | runtimeMethod =>
    [("declaring_class", runtimeType), ("name", text), ("parameter_types", list runtimeType),
      ("return_type", runtimeType)]
  | runtimeField => [("declaring_class", runtimeType), ("name", text), ("field_type", runtimeType)]
  | methodRef | fieldRef => [("class_name", text), ("name", text), ("descriptor", text)]
  | method => [("owner", type), ("name", text), ("signature", signature)]
  | field => [("owner", type), ("name", text), ("ty", type)]
  | flag | word | text | primitive | element | storeKind | runtimeType | memberId | list _ => []

def names (s : Stored) : List String := s.fields.map Prod.fst

def IsRecord (s : Stored) : Prop := s.fields ≠ []

/-- The options of rendering are the one record with fallbacks for its fields. -/
def fallbacks : List (String × Json) :=
  [("show_full_class_name", .bool false), ("insert", .string "")]

/-- The cases with a payload, with what the payload stores. -/
def payloads : Stored → List (String × Stored)
  | element => [("Object", text)]
  | runtimeType => [("Primitive", primitive), ("Class", text), ("Array", runtimeType)]
  | _ => []

/-- The cases without payload. -/
def bareCases : Stored → List String
  | primitive => Primitive.all.map Primitive.caseName
  | element => Primitive.all.map Primitive.caseName ++ ["AnyObject"]
  | storeKind => StoreKind.all.map StoreKind.name
  | _ => []

/-! ## Two spellings -/

/-- The record is spelled with one value for each of its fields: as an object that has them under
their names, or as the array of them. -/
inductive Spells (s : Stored) (values : List Json) : Json → Prop
  | byName {members : List (String × Json)} : s.names.length = values.length →
      (members.map Prod.fst).Nodup → s.names.zip values ⊆ members →
      Spells s values (.object members)
  | byPosition : s.names.length = values.length → Spells s values (.array values)

theorem Spells.length_eq {s : Stored} {values : List Json} {json : Json}
    (h : s.Spells values json) : s.fields.length = values.length := by
  have hnames : s.names.length = s.fields.length := List.length_map ..
  cases h with
  | byName hlength | byPosition hlength => rw [← hnames, hlength]

/-- Two spellings of one value, or of two that are alike in what is wrong with them. They may differ
at any depth. -/
inductive Alike : Stored → Json → Json → Prop
  | refl (s : Stored) (json : Json) : Alike s json json
  | symm {s : Stored} {a b : Json} : Alike s a b → Alike s b a
  | trans {s : Stored} {a b c : Json} : Alike s a b → Alike s b c → Alike s a c
  | record {s : Stored} {values values' : List Json} {a b : Json} : s.IsRecord →
      s.Spells values a → s.Spells values' b →
      (∀ part ∈ s.fields.zip (values.zip values'), Alike part.1.2 part.2.1 part.2.2) → Alike s a b
  | items {item : Stored} {xs ys : List Json} : xs.length = ys.length →
      (∀ pair ∈ xs.zip ys, Alike item pair.1 pair.2) → Alike (list item) (.array xs) (.array ys)
  | payload {s inner : Stored} {name : String} {a b : Json} : (name, inner) ∈ s.payloads →
      Alike inner a b → Alike s (.object [(name, a)]) (.object [(name, b)])
  | bare {s : Stored} {name : String} : name ∈ s.bareCases →
      Alike s (.string name) (.object [(name, .null)])

/-- The object and the array of the same values. -/
theorem Alike.of_spells {s : Stored} {values : List Json} {a b : Json} (h : s.IsRecord)
    (ha : s.Spells values a) (hb : s.Spells values b) : Alike s a b := by
  refine .record h ha hb ?_
  rintro ⟨⟨name, inner⟩, c, d⟩ hpart
  have hpair : (c, d) ∈ values.zip values := (List.of_mem_zip hpart).2
  rw [List.zip_eq_zipWith, List.zipWith_self, List.mem_map] at hpair
  obtain ⟨value, -, hvalue⟩ := hpair
  cases hvalue
  exact .refl _ _

/-! ## Values given to the fields -/

/-- The values given to the options of rendering, with the fallbacks for the others. -/
def givenOptions? : Json → Option (List Json)
  | .object members =>
    some (fallbacks.map fun fallback => (members.lookup fallback.1).getD fallback.2)
  | .array items =>
    if items.length ≤ fallbacks.length then
      some (items ++ (fallbacks.map Prod.snd).drop items.length)
    else none
  | _ => none

/-- The values given to the fields of a record. -/
def given? (s : Stored) (json : Json) : Option (List Json) :=
  if s = options then givenOptions? json else json.fields? s.names

/-- Every other record is given the values of all of its fields, or none. -/
theorem given?_of_ne {s : Stored} (h : s ≠ options) (json : Json) :
    s.given? json = json.fields? s.names := if_neg h

/-- A spelling with both values leaves nothing to the fallbacks. -/
theorem givenOptions?_eq_of_spells {values : List Json} {json : Json}
    (h : options.Spells values json) : givenOptions? json = some values := by
  cases h with
  | byName hlength hnodup hsubset =>
      obtain ⟨fullNames, insert, rfl⟩ := List.length_eq_two.mp hlength.symm
      have hlookup := map_lookup_of_subset hnodup hlength hsubset
      simp only [names, fields, List.map_cons, List.map_nil, List.cons.injEq, and_true] at hlookup
      simp only [givenOptions?, fallbacks, List.map_cons, List.map_nil, hlookup, Option.getD_some]
  | byPosition hlength =>
      obtain ⟨fullNames, insert, rfl⟩ := List.length_eq_two.mp hlength.symm
      rfl

/-- A record that is spelled with values is given them. -/
theorem given?_eq_of_spells {s : Stored} {values : List Json} {json : Json}
    (h : s.Spells values json) : s.given? json = some values := by
  by_cases hs : s = options
  · subst hs
    exact givenOptions?_eq_of_spells h
  · rw [given?_of_ne hs]
    cases h with
    | byName hlength hnodup hsubset =>
        exact mapM_eq_some_iff.mpr (map_lookup_of_subset hnodup hlength hsubset)
    | byPosition hlength => exact if_pos hlength.symm

theorem lookup_eq_none_iff_not_mem {name : String} {members : List (String × Json)} :
    members.lookup name = none ↔ name ∉ members.map Prod.fst := by
  rw [List.lookup_eq_none_iff, List.mem_map]
  grind

/-- A member that is missing is not made up, except for the options of rendering. -/
theorem given?_eq_none_of_missing {s : Stored} (hs : s ≠ options) {name : String}
    {members : List (String × Json)} (hname : name ∈ s.names)
    (hmissing : name ∉ members.map Prod.fst) : s.given? (.object members) = none := by
  rw [given?_of_ne hs, Option.eq_none_iff_forall_ne_some]
  intro values h
  -- had all values been found, one of them would be that of the missing name
  have hlookup : members.lookup name ∈ values.map some := by
    rw [← mapM_eq_some_iff.mp h]
    exact List.mem_map_of_mem hname
  rw [lookup_eq_none_iff_not_mem.mpr hmissing] at hlookup
  simp at hlookup

theorem given?_eq_none_of_short {s : Stored} (hs : s ≠ options) {items : List Json}
    (h : items.length < s.names.length) : s.given? (.array items) = none := by
  rw [given?_of_ne hs]
  exact if_neg (Nat.ne_of_lt h)

theorem given?_eq_none_of_long {s : Stored} {items : List Json}
    (h : s.names.length < items.length) : s.given? (.array items) = none := by
  by_cases hs : s = options
  · subst hs
    exact if_neg (Nat.not_le_of_gt h)
  · rw [given?_of_ne hs]
    exact if_neg (Nat.ne_of_gt h)

/-! ### Fallbacks -/

/-- The members with the fallbacks for those that are missing. -/
def completed (members : List (String × Json)) : List (String × Json) :=
  members ++ fallbacks.filter fun fallback => fallback.1 ∉ members.map Prod.fst

/-- The fallbacks that are added change nothing about what a field is given. -/
theorem getD_lookup_completed {members : List (String × Json)} {fallback : String × Json}
    (h : fallback ∈ fallbacks) :
    ((completed members).lookup fallback.1).getD fallback.2 =
      (members.lookup fallback.1).getD fallback.2 := by
  rw [completed, List.lookup_append]
  cases hlookup : members.lookup fallback.1 with
  | some value => rfl
  | none =>
      have hnodup : (fallbacks.map Prod.fst).Nodup := by decide
      have hadded : fallback ∈ fallbacks.filter fun fallback =>
          fallback.1 ∉ members.map Prod.fst :=
        List.mem_filter.mpr ⟨h, decide_eq_true (lookup_eq_none_iff_not_mem.mp hlookup)⟩
      rw [Option.none_or,
        lookup_of_mem (hnodup.sublist (List.filter_sublist.map Prod.fst)) hadded]
      rfl

theorem given?_completed (members : List (String × Json)) :
    options.given? (.object (completed members)) = options.given? (.object members) :=
  congrArg some (List.map_congr_left fun _ h => getD_lookup_completed h)

theorem given?_array {items : List Json} (h : items.length ≤ fallbacks.length) :
    options.given? (.array items) = some (items ++ (fallbacks.map Prod.snd).drop items.length) :=
  if_pos h

theorem given?_append_fallbacks (items : List Json) :
    options.given? (.array (items ++ (fallbacks.map Prod.snd).drop items.length)) =
      options.given? (.array items) := by
  by_cases h : items.length ≤ fallbacks.length
  · -- the array that is filled up has no room for more fallbacks
    have hlength : (items ++ (fallbacks.map Prod.snd).drop items.length).length =
        fallbacks.length := by
      rw [List.length_append, List.length_drop, List.length_map]
      omega
    rw [given?_array (Nat.le_of_eq hlength), given?_array h, hlength]
    simp [fallbacks]
  · -- the array is too long, and there are no fallbacks to fill it up with
    have hdrop : (fallbacks.map Prod.snd).drop items.length = [] := by
      rw [List.drop_eq_nil_iff, List.length_map]
      omega
    rw [hdrop, List.append_nil]

/-! ## Reading the parts -/

/-- The same places of a record are read alike. -/
inductive Agree : List (String × Stored) → List Json → List Json → Prop
  | nil : Agree [] [] []
  | cons {name : String} {s : Stored} {fields : List (String × Stored)} {a b : Json}
      {values values' : List Json} : s.read a = s.read b → Agree fields values values' →
      Agree ((name, s) :: fields) (a :: values) (b :: values')

theorem agree_of_zip {fields : List (String × Stored)} {values values' : List Json}
    (hlength : fields.length = values.length) (hlength' : fields.length = values'.length)
    (h : ∀ part ∈ fields.zip (values.zip values'),
      part.1.2.read part.2.1 = part.1.2.read part.2.2) :
    Agree fields values values' := by
  induction fields generalizing values values' with
  | nil =>
      obtain rfl : values = [] := List.length_eq_zero_iff.mp hlength.symm
      obtain rfl : values' = [] := List.length_eq_zero_iff.mp hlength'.symm
      exact .nil
  | cons field fields ih =>
      obtain ⟨a, values, rfl⟩ := List.exists_cons_of_length_eq_add_one hlength.symm
      obtain ⟨b, values', rfl⟩ := List.exists_cons_of_length_eq_add_one hlength'.symm
      obtain ⟨hfirst, hrest⟩ := List.forall_mem_cons.mp h
      exact .cons hfirst (ih (Nat.succ.inj hlength) (Nat.succ.inj hlength') hrest)

theorem bind_read {s : Stored} {a b : Json} {β : Type} {f g : s.Value → Option β}
    (h : s.read a = s.read b) (hfg : ∀ x, f x = g x) : (s.read a).bind f = (s.read b).bind g := by
  rw [h, funext hfg]

/-- A field that is missing is read as its fallback is stored. -/
theorem decodeD?_eq {α : Type} [JsonForm α] {fallback : α} (h : Reloads fallback)
    (json : Option Json) :
    Json.decodeD? fallback json = decode? (json.getD (encode fallback)) := by
  cases json with
  | none => exact h.symm
  | some json => rfl

/-- The options of rendering are read from what is given to them. -/
theorem read_options (json : Json) :
    options.read json = (options.given? json).bind fun
      | [fullNames, insert] => do
        return ⟨← flag.read fullNames, ← text.read insert⟩
      | _ => none := by
  cases json with
  | object members =>
      show (Json.decodeD? false (members.lookup "show_full_class_name")).bind (fun fullNames =>
        (Json.decodeD? "" (members.lookup "insert")).bind fun insert =>
          some (⟨fullNames, insert⟩ : Declaration.Options)) = _
      rw [decodeD?_eq (show Reloads false from rfl), decodeD?_eq (reloads_text "")]
      rfl
  | array items =>
      -- as many cases as there are fields to be filled in, and the array that is too long
      match items with
      | [] | [_] | [_, _] => rfl
      | _ :: _ :: _ :: _ => rfl
  | _ => rfl

/-- A record is put together from the values given to its fields, each of which counts for what it
is read as. -/
theorem exists_build {s : Stored} (h : s.IsRecord) :
    ∃ build : List Json → Option s.Value,
      (∀ json, s.read json = (s.given? json).bind build) ∧
        ∀ {values values'}, Agree s.fields values values' → build values = build values' := by
  cases s with
  | flag | word | text | primitive | element | storeKind | runtimeType | memberId | list _ =>
      exact absurd rfl h
  | type | arg | signature =>
      -- the reader itself says what `build` is
      refine ⟨_, fun _ => rfl, ?_⟩
      rintro _ _ (_ | ⟨hfirst, _ | ⟨hsecond, ⟨⟩⟩⟩)
      exact bind_read hfirst fun _ => bind_read hsecond fun _ => rfl
  | options =>
      -- this reader fills in fallbacks, so it takes a lemma to bring it into the form
      refine ⟨_, read_options, ?_⟩
      rintro _ _ (_ | ⟨hfullNames, _ | ⟨hinsert, ⟨⟩⟩⟩)
      exact bind_read hfullNames fun _ => bind_read hinsert fun _ => rfl
  | runtimeField | methodRef | fieldRef | method | field =>
      refine ⟨_, fun _ => rfl, ?_⟩
      rintro _ _ (_ | ⟨hfirst, _ | ⟨hsecond, _ | ⟨hthird, ⟨⟩⟩⟩⟩)
      exact bind_read hfirst fun _ => bind_read hsecond fun _ => bind_read hthird fun _ => rfl
  | runtimeMethod =>
      refine ⟨_, fun _ => rfl, ?_⟩
      rintro _ _ (_ | ⟨hclass, _ | ⟨hname, _ | ⟨hparameters, _ | ⟨hreturn, ⟨⟩⟩⟩⟩⟩)
      exact bind_read hclass fun _ => bind_read hname fun _ =>
        bind_read hparameters fun _ => bind_read hreturn fun _ => rfl

/-- Two spellings of a record with values that are read alike. -/
theorem read_eq_of_spells {s : Stored} (h : s.IsRecord) {values values' : List Json} {a b : Json}
    (ha : s.Spells values a) (hb : s.Spells values' b)
    (hparts : ∀ part ∈ s.fields.zip (values.zip values'),
      part.1.2.read part.2.1 = part.1.2.read part.2.2) : s.read a = s.read b := by
  obtain ⟨build, hread, hbuild⟩ := exists_build h
  rw [hread, hread, given?_eq_of_spells ha, given?_eq_of_spells hb]
  exact hbuild (agree_of_zip ha.length_eq hb.length_eq hparts)

/-- Nothing is read from a record that is not given its values. -/
theorem read_eq_none {s : Stored} (h : s.IsRecord) {json : Json} (hgiven : s.given? json = none) :
    s.read json = none := by
  obtain ⟨build, hread, -⟩ := exists_build h
  rw [hread, hgiven]
  rfl

/-- What a record is read as depends on what it is given, and on nothing else. -/
theorem read_eq_of_given? {s : Stored} (h : s.IsRecord) {a b : Json}
    (hgiven : s.given? a = s.given? b) : s.read a = s.read b := by
  obtain ⟨build, hread, -⟩ := exists_build h
  rw [hread, hread, hgiven]

theorem read_items {item : Stored} {xs ys : List Json} (hlength : xs.length = ys.length)
    (h : ∀ pair ∈ xs.zip ys, item.read pair.1 = item.read pair.2) :
    (list item).read (.array xs) = (list item).read (.array ys) := by
  have hmap : xs.map item.read = ys.map item.read := map_eq_map_of_zip hlength h
  show xs.mapM item.read = ys.mapM item.read
  apply Option.ext
  intro values
  rw [mapM_eq_some_iff, mapM_eq_some_iff, hmap]

/-! ## Cases -/

theorem read_object (json : Json) :
    element.read (.object [("Object", json)]) = (text.read json).map Element.object := by
  cases json <;> rfl

theorem read_payload {s inner : Stored} {name : String} {a b : Json}
    (hname : (name, inner) ∈ s.payloads) (h : inner.read a = inner.read b) :
    s.read (.object [(name, a)]) = s.read (.object [(name, b)]) := by
  cases s with
  | element =>
      obtain ⟨rfl, rfl⟩ := Prod.mk.inj (List.mem_singleton.mp hname)
      rw [read_object, read_object, h]
  | runtimeType =>
      rcases hname with _ | ⟨_, _ | ⟨_, _ | ⟨_, ⟨⟩⟩⟩⟩
      · exact congrArg (Option.map RuntimeType.primitive) h
      · exact congrArg (Option.map RuntimeType.named) h
      · exact congrArg (Option.map RuntimeType.array) h
  | _ => cases hname

/-- The name of a case stands for the case with the payload `null`. -/
theorem read_bareCase {s : Stored} {name : String} (hname : name ∈ s.bareCases) :
    s.read (.object [(name, .null)]) = s.read (.string name) := by
  cases s with
  | primitive | element | storeKind => rfl
  | _ => cases hname

theorem exists_read_bareCase {s : Stored} {name : String} (hname : name ∈ s.bareCases) :
    ∃ value, s.read (.string name) = some value := by
  cases s with
  | primitive =>
      obtain ⟨p, -, rfl⟩ := List.mem_map.mp hname
      exact ⟨p, Primitive.reloads p⟩
  | element =>
      rcases List.mem_append.mp hname with hname | hname
      · obtain ⟨p, -, rfl⟩ := List.mem_map.mp hname
        exact ⟨.primitive p, Element.reloads (.primitive p)⟩
      · obtain rfl := List.mem_singleton.mp hname
        exact ⟨.anyObject, rfl⟩
  | storeKind =>
      obtain ⟨kind, -, rfl⟩ := List.mem_map.mp hname
      exact ⟨kind, StoreKind.reloads kind⟩
  | _ => cases hname

theorem decodeName?_payload {α : Type} {all : List α} {toName : α → String} {name : String}
    {payload : Json} (h : payload ≠ .null) :
    Json.decodeName? all toName (.object [(name, payload)]) = none := by
  cases payload with
  | null => exact absurd rfl h
  | _ => rfl

theorem read_element_payload {name : String} {payload : Json} (hname : name ≠ "Object")
    (h : payload ≠ .null) : element.read (.object [(name, payload)]) = none := by
  have hprimitive : (decode? (.object [(name, payload)]) : Option Primitive) = none :=
    decodeName?_payload h
  show instJsonFormElement.decode? (.object [(name, payload)]) = none
  unfold instJsonFormElement
  dsimp only
  -- the reader tries the primitives first, which take no payload, and then the two other cases
  rw [hprimitive]
  split
  · next hcase => exact absurd (Prod.mk.inj (Option.some.inj hcase)).1 hname
  · next hcase => exact absurd (Prod.mk.inj (Option.some.inj hcase)).2 h
  · rfl

/-- A case without payload is refused when it comes with one. -/
theorem read_bareCase_payload {s : Stored} {name : String} {payload : Json}
    (hname : name ∈ s.bareCases) (h : payload ≠ .null) :
    s.read (.object [(name, payload)]) = none := by
  cases s with
  | primitive => exact decodeName?_payload h
  | element =>
      refine read_element_payload ?_ h
      rintro rfl
      revert hname
      decide
  | storeKind => exact decodeName?_payload h
  | _ => cases hname

/-! ## All spellings -/

/-- Alike spellings are read alike, at whatever depth they differ. -/
theorem Alike.read_eq {s : Stored} {a b : Json} (h : Alike s a b) : s.read a = s.read b := by
  induction h with
  | refl => rfl
  | symm _ ih => exact ih.symm
  | trans _ _ ih ih' => exact ih.trans ih'
  | record hrecord ha hb _ ih => exact read_eq_of_spells hrecord ha hb ih
  | items hlength _ ih => exact read_items hlength ih
  | payload hname _ ih => exact read_payload hname ih
  | bare hname => exact (read_bareCase hname).symm

/-- **All accepted spellings are read alike.** Two spellings that differ in how records and cases
are spelled, at any depth, are read as the same value or refused together; one of them may be an
object with its members in any order and among others, where the other is the array of the values.
A record with a field that is not given is refused, except for the options of rendering, where the
fallback stands for it, and an array that is too long is always refused. A case without payload has
two spellings and no more. -/
theorem spellings_read_alike :
    (∀ {s : Stored} {a b : Json}, Alike s a b → s.read a = s.read b) ∧
    (∀ {s : Stored} {values : List Json} {members : List (String × Json)}, s.IsRecord →
      s.names.length = values.length → (members.map Prod.fst).Nodup →
      s.names.zip values ⊆ members → s.read (.object members) = s.read (.array values)) ∧
    (∀ {s : Stored}, s.IsRecord → s ≠ options →
      (∀ {name : String} {members : List (String × Json)}, name ∈ s.names →
        name ∉ members.map Prod.fst → s.read (.object members) = none) ∧
      ∀ {items : List Json}, items.length < s.names.length → s.read (.array items) = none) ∧
    (∀ members : List (String × Json),
      options.read (.object members) = options.read (.object (completed members))) ∧
    (∀ items : List Json, options.read (.array items) =
      options.read (.array (items ++ (fallbacks.map Prod.snd).drop items.length))) ∧
    (∀ {s : Stored} {items : List Json}, s.IsRecord → s.names.length < items.length →
      s.read (.array items) = none) ∧
    ∀ {s : Stored} {name : String}, name ∈ s.bareCases →
      (∃ value, s.read (.string name) = some value) ∧
      s.read (.object [(name, .null)]) = s.read (.string name) ∧
      ∀ payload, payload ≠ .null → s.read (.object [(name, payload)]) = none := by
  have hoptions : options.IsRecord := List.cons_ne_nil _ _
  refine ⟨Alike.read_eq, ?_, ?_, ?_, ?_, ?_, ?_⟩
  · intro s values members hrecord hlength hnodup hsubset
    exact (Alike.of_spells hrecord (.byName hlength hnodup hsubset) (.byPosition hlength)).read_eq
  · intro s hrecord hs
    constructor
    · intro name members hname hmissing
      exact read_eq_none hrecord (given?_eq_none_of_missing hs hname hmissing)
    · intro items hshort
      exact read_eq_none hrecord (given?_eq_none_of_short hs hshort)
  · intro members
    exact read_eq_of_given? hoptions (given?_completed members).symm
  · intro items
    exact read_eq_of_given? hoptions (given?_append_fallbacks items).symm
  · intro s items hrecord hlong
    exact read_eq_none hrecord (given?_eq_none_of_long hlong)
  · intro s name hname
    refine ⟨exists_read_bareCase hname, read_bareCase hname, ?_⟩
    intro payload hpayload
    exact read_bareCase_payload hname hpayload

/-- A field whose owner and type are spelled in another way than the field itself, then records with
values that are missing or too many, and the fallbacks of the options. -/
theorem spellings_read_alike_of_shuffled_field :
    let owner : Json :=
      .object [("array_rank", .natural 0), ("", .null), ("kind", .object [("Object", .string "A")])]
    let owner' : Json := .array [.object [("Object", .string "A")], .natural 0]
    let ty : Json := .array [.object [("Int", .null)], .natural 2]
    let ty' : Json := .object [("kind", .string "Int"), ("array_rank", .natural 2)]
    let shuffled : Json :=
      .object [("ty", ty), ("owner", owner), ("extra", .natural 1), ("name", .string "f")]
    field.read shuffled = field.read (.array [owner', .string "f", ty']) ∧
      field.read shuffled = some (⟨⟨.object "A", 0⟩, "f", ⟨.primitive .int, 2⟩⟩ : Field) ∧
      field.read (.object [("ty", ty), ("owner", owner)]) = none ∧
      field.read (.array [owner, .string "f"]) = none ∧
      options.read (.object [("insert", .null)]) =
        options.read (.object [("insert", .null), ("show_full_class_name", .bool false)]) ∧
      options.read (.object []) = some (⟨false, ""⟩ : Declaration.Options) ∧
      options.read (.array [.bool true]) = options.read (.array [.bool true, .string ""]) ∧
      options.read (.array [.bool true]) = some (⟨true, ""⟩ : Declaration.Options) ∧
      options.read (.array [.bool true, .string "", .string ""]) = none ∧
      element.read (.object [("AnyObject", .string "A")]) = none := by
  intro owner owner' ty ty' shuffled
  obtain ⟨halike, -, hlacking, hcompleted, hshort, hlong, hbare⟩ := spellings_read_alike
  have hrecord : field.IsRecord := List.cons_ne_nil _ _
  have htype : type.IsRecord := List.cons_ne_nil _ _
  -- the owner differs in how the record is spelled
  have howner : Alike type owner owner' := by
    have hspells : type.Spells [.object [("Object", .string "A")], .natural 0] owner :=
      .byName rfl (by decide) (by simp [names, fields])
    exact .of_spells htype hspells (.byPosition rfl)
  -- the type differs in that, and in how its element is
  have hty : Alike type ty ty' := by
    have hspells : type.Spells [.string "Int", .natural 2] ty' :=
      .byName rfl (by decide) (List.Subset.refl _)
    apply Alike.record htype (.byPosition rfl) hspells
    rintro _ (_ | ⟨_, _ | ⟨_, ⟨⟩⟩⟩)
    · exact (Alike.bare (by decide)).symm
    · exact .refl _ _
  have hshuffled : Alike field shuffled (.array [owner', .string "f", ty']) := by
    have hspells : field.Spells [owner, .string "f", ty] shuffled :=
      .byName rfl (by decide) (by simp [names, fields])
    apply Alike.record hrecord hspells (.byPosition rfl)
    rintro _ (_ | ⟨_, _ | ⟨_, _ | ⟨_, ⟨⟩⟩⟩⟩)
    · exact howner
    · exact .refl _ _
    · exact hty
  refine ⟨halike hshuffled, (halike hshuffled).trans rfl, ?_, ?_, hcompleted _,
    (hcompleted []).trans rfl, hshort _, (hshort [.bool true]).trans rfl, ?_, ?_⟩
  · exact (hlacking hrecord (by decide)).1 (show "name" ∈ field.names by decide) (by decide)
  · exact (hlacking hrecord (by decide)).2 (by decide)
  · exact hlong (List.cons_ne_nil _ _) (by decide)
  · exact (hbare (show "AnyObject" ∈ element.bareCases by decide)).2.2 _ Json.noConfusion

end Stored
end Linkage
