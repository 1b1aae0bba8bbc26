/-!
# JSON values and stored forms

A JSON value as far as the stored forms of this library look into it. Numbers are split in two: an
integer written with digits alone is a `natural`, and any other number, be it negative or written
with a fraction or an exponent, keeps its spelling, since no stored form has one. Members of an
object are kept in order. A name is expected to occur once.

A type with a `JsonForm` can be written as a JSON value and read back from it. Reading converts
nothing: records and cases without payload have two spellings each, all else has one. Numbers are
natural and below `2 ^ 64`.
-/

namespace Linkage

inductive Json where
  | null
  | bool (b : Bool)
  | natural (n : Nat)
  /-- A number that is not written with digits alone. -/
  | otherNumber (literal : String)
  | string (s : String)
  | array (items : List Json)
  | object (members : List (String × Json))
  deriving Repr, Inhabited

namespace Json

/-! ### Records

A record is an object that has the fields by name, or an array that has them by position. An
object may have more members, an array may not have more items. -/

/-- The values of the named fields, all of which have to be there. -/
def fields? (names : List String) : Json → Option (List Json)
  | object members => names.mapM (members.lookup ·)
  | array items => if items.length = names.length then some items else none
  | _ => none

/-- The values of those of the named fields that are there; an array may end early. -/
def optionalFields? (names : List String) : Json → Option (List (Option Json))
  | object members => some (names.map (members.lookup ·))
  | array items =>
    if items.length ≤ names.length then
      some (items.map some ++ List.replicate (names.length - items.length) none)
    else none
  | _ => none

/-! ### Cases

A case of an enumeration is an object with the name of the case as its only member, which holds the
payload. A name alone stands for the case with the payload `null`. -/

/-- The name and the payload of a case. -/
def case? : Json → Option (String × Json)
  | string name => some (name, null)
  | object [(name, payload)] => some (name, payload)
  | _ => none

end Json

/-! ### Stored forms -/

/-- A type whose values are stored as JSON. -/
class JsonForm (α : Type) where
  encode : α → Json
  decode? : Json → Option α

export JsonForm (encode decode?)

namespace Json

def wordBound : Nat := UInt64.size

def decodeName? {α : Type} (all : List α) (name : α → String) (json : Json) : Option α :=
  match json.case? with
  | some (s, null) => all.find? (name · = s)
  | _ => none

def decodeD? {α : Type} [JsonForm α] (fallback : α) : Option Json → Option α
  | none => some fallback
  | some json => decode? json

end Json

instance : JsonForm Bool where
  encode := .bool
  decode?
    | .bool b => some b
    | _ => none

instance : JsonForm String where
  encode := .string
  decode?
    | .string s => some s
    | _ => none

instance : JsonForm Nat where
  encode := .natural
  decode?
    | .natural n => if n < Json.wordBound then some n else none
    | _ => none

example : (decode? (.natural 18446744073709551615) : Option Nat) = some 18446744073709551615 := by
  decide
example : (decode? (.natural 18446744073709551616) : Option Nat) = none := by decide

instance {α : Type} [JsonForm α] : JsonForm (List α) where
  encode xs := .array (xs.map encode)
  decode?
    | .array items => items.mapM decode?
    | _ => none

end Linkage
