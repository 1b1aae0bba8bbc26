import Std.Data.HashMap
import Linkage.Log
import Linkage.Member.Basic

/-!
# The registry of members and sessions with it

A registry numbers members in the order in which they are first registered. It is an array of
members with an index from members to their numbers, one map for methods and one for fields. Array
and index are inverse to each other (`find?_iff`), so no number is given twice, and no member has
two.

`register` gives a member its number and logs it when the number is new. `idOf?` looks a number
up and logs a miss. `method?` and `field?` go from a number to its member and log nothing.

A session is a run of such calls on one registry, each answered in turn. `perform` answers a single
call, `run` a list of them; the events of the calls follow each other in the log.
-/

namespace Linkage

/-- The number of a registered member. -/
structure MemberId where
  index : Nat
  deriving DecidableEq, Repr

def MemberId.label (id : MemberId) : String := "#" ++ toString id.index

/-! ### The index -/

structure Index where
  methods : Std.HashMap Method MemberId
  fields : Std.HashMap Field MemberId

namespace Index

def empty : Index := ⟨∅, ∅⟩

def find? (index : Index) : Member → Option MemberId
  | .method m => index.methods[m]?
  | .field f => index.fields[f]?

def insert (index : Index) (member : Member) (id : MemberId) : Index :=
  match member with
  | .method m => { index with methods := index.methods.insert m id }
  | .field f => { index with fields := index.fields.insert f id }

@[simp] theorem find?_empty (member : Member) : empty.find? member = none := by
  cases member <;> simp [find?, empty]

/-- A method and a field never stand in each other's way. -/
theorem find?_insert (index : Index) (member other : Member) (id : MemberId) :
    (index.insert member id).find? other =
      if member = other then some id else index.find? other := by
  cases member with
  | method m =>
      cases other with
      | method m' => simp [insert, find?, Std.HashMap.getElem?_insert]
      | field f => simp [insert, find?]
  | field f =>
      cases other with
      | method m => simp [insert, find?]
      | field f' => simp [insert, find?, Std.HashMap.getElem?_insert]

end Index

/-- Members, numbered by their place. -/
structure Registry where
  members : Array Member
  index : Index
  /-- The index finds exactly the places of the members. -/
  find?_iff (member : Member) (id : MemberId) :
    index.find? member = some id ↔ members[id.index]? = some member

namespace Registry

/-! ### Events -/

inductive Event where
  | registered (id : MemberId) (member : Member)
  | missed (member : Member)
  deriving DecidableEq, Repr

def Event.record : Event → LogRecord
  | registered id (.method m) =>
    ⟨.trace, "ember.members", "registered method",
      [("id", .number id.index), ("method", .text m.declaration)]⟩
  | registered id (.field f) =>
    ⟨.trace, "ember.members", "registered field",
      [("id", .number id.index), ("field", .text f.declaration)]⟩
  | missed (.method m) =>
    ⟨.debug, "ember.members", "method not registered", [("method", .text m.declaration)]⟩
  | missed (.field f) =>
    ⟨.debug, "ember.members", "field not registered", [("field", .text f.declaration)]⟩

/-! ### Operations -/

def empty : Registry where
  members := #[]
  index := .empty
  find?_iff := by simp

def size (registry : Registry) : Nat := registry.members.size

def isEmpty (registry : Registry) : Bool := registry.members.isEmpty

/-- Give the next number to a member that has none. -/
def push (registry : Registry) (member : Member) (fresh : registry.index.find? member = none) :
    Registry where
  members := registry.members.push member
  index := registry.index.insert member ⟨registry.size⟩
  find?_iff other id := by
    obtain ⟨place⟩ := id
    have hold := registry.find?_iff other ⟨place⟩
    rw [Index.find?_insert, Array.getElem?_push]
    by_cases heq : member = other <;> by_cases hplace : place = registry.members.size
    · simp [heq, hplace, size]
    · -- a member without a number stands at no old place
      subst heq
      rw [fresh] at hold
      have habsent : registry.members[place]? ≠ some member := fun h => nomatch hold.mpr h
      simp [hplace, habsent, size, Ne.symm hplace]
    · -- and no other member gets the new place
      have hunused : registry.index.find? other ≠ some ⟨place⟩ := fun h => by
        simpa [hplace] using hold.mp h
      simpa [heq, hplace] using hunused
    · simp [heq, hplace, hold]

/-- The number of a member, which is a new one if it had none. -/
def register (registry : Registry) (member : Member) : Logged Event (MemberId × Registry) :=
  match fresh : registry.index.find? member with
  | some id => .quiet (id, registry)
  | none =>
    let id : MemberId := ⟨registry.size⟩
    .noting (id, registry.push member fresh) (.registered id member)

def idOf? (registry : Registry) (member : Member) : Logged Event (Option MemberId) :=
  match registry.index.find? member with
  | some id => .quiet (some id)
  | none => .noting none (.missed member)

def get? (registry : Registry) (id : MemberId) : Option Member := registry.members[id.index]?

/-- The method with this number, if the number is that of a method. -/
def method? (registry : Registry) (id : MemberId) : Option Method :=
  (registry.get? id).bind Member.method?

/-- The field with this number, if the number is that of a field. -/
def field? (registry : Registry) (id : MemberId) : Option Field :=
  (registry.get? id).bind Member.field?

/-! ### Sessions -/

/-- What can be asked of a registry. -/
inductive Call where
  | register (member : Member)
  | idOf (member : Member)
  | method (id : MemberId)
  | field (id : MemberId)
  deriving DecidableEq, Repr

/-- What a registry answers. -/
inductive Answer where
  | registered (id : MemberId)
  | id (id? : Option MemberId)
  | method (method? : Option Method)
  | field (field? : Option Field)
  deriving DecidableEq, Repr

def perform (registry : Registry) : Call → Logged Event (Answer × Registry)
  | .register member =>
    (registry.register member).map fun (id, registry) => (.registered id, registry)
  | .idOf member => (registry.idOf? member).map fun id? => (.id id?, registry)
  | .method id => .quiet (.method (registry.method? id), registry)
  | .field id => .quiet (.field (registry.field? id), registry)

def run (registry : Registry) : List Call → Logged Event (List Answer × Registry)
  | [] => .quiet ([], registry)
  | call :: calls => do
    let (answer, registry) ← registry.perform call
    let (answers, registry) ← registry.run calls
    return (answer :: answers, registry)

end Registry
end Linkage
