import Linkage.Proofs.Registry.Roster

/-!
# The log of a registry is a journal

The log of a session tells what happened to the registry and nothing else. The registrations in it
bear the numbers `0`, `1`, … up to the size of the registry, each once and in order, and show the
member that has the number. Besides, a look-up is in the log when it was answered with no number,
and it shows the member that was looked for (`run_keeps_journal`).

As in `Linkage.Proofs.Registry.Roster`, one call is followed first: `Call.notes` is what it adds to
the log when a registry holds a roster. The whole journal then grows from the back.
-/

namespace Linkage.Registry

/-! ## One call -/

/-- The events of a call to a registry that holds the roster. -/
def Call.notes (roster : List Member) : Call → List Event
  | .register member =>
    if member ∈ roster then [] else [.registered ⟨roster.length⟩ member]
  | .idOf member => if member ∈ roster then [] else [.missed member]
  | .method _ | .field _ => []

/-- A call leaves in the log what the roster of the registry says. -/
theorem log_perform (registry : Registry) (call : Call) :
    (registry.perform call).log = call.notes registry.members.toList := by
  cases call with
  | register member =>
      show (registry.register member).log = _
      by_cases hmem : member ∈ registry.members.toList
      · simp [register_of_mem hmem, Call.notes, hmem]
      · simp [register_of_not_mem hmem, Call.notes, hmem, size]
  | idOf member =>
      show (registry.idOf? member).log = _
      by_cases hmem : member ∈ registry.members.toList
      · simp [idOf?_of_mem hmem, Call.notes, hmem]
      · simp [idOf?_of_not_mem hmem, Call.notes, hmem]
  | method _ | field _ => rfl

@[simp] theorem level_record_registered (id : MemberId) (member : Member) :
    (Event.record (.registered id member)).level = .trace := by
  cases member <;> rfl

@[simp] theorem level_record_missed (member : Member) :
    (Event.record (.missed member)).level = .debug := by
  cases member <;> rfl

@[simp] theorem id_record_registered (id : MemberId) (member : Member) :
    (Event.record (.registered id member)).fields.lookup "id" = some (.number id.index) := by
  cases member <;> rfl

/-! ## The journal of a session -/

/-- The records that a session on an empty registry leaves in the log. -/
def journal (calls : List Call) : List LogRecord := (empty.run calls).log.map Event.record

/-- The records of the journal at the level of registrations. -/
def traces (calls : List Call) : List LogRecord := (journal calls).filter (·.level = .trace)

/-- The journal grows by the events of the last call. -/
theorem journal_append_singleton (calls : List Call) (call : Call) :
    journal (calls ++ [call]) =
      journal calls ++ (call.notes (roster calls)).map Event.record := by
  have hlast : ((empty.run calls).value.2.run [call]).log = call.notes (roster calls) := by
    rw [← members_run, ← log_perform]
    simp [run]
  rw [journal, journal, run_append, hlast, List.map_append]

/-- The registrations in the journal show the roster in its order. -/
theorem traces_eq (calls : List Call) :
    traces calls =
      (roster calls).mapIdx fun place member => Event.record (.registered ⟨place⟩ member) := by
  induction calls using List.reverseRecOn with
  | nil => rfl
  | append_singleton calls call ih =>
      rw [traces] at ih
      rw [traces, journal_append_singleton, List.filter_append, ih, roster_append_singleton]
      cases call with
      | register member =>
          by_cases hmem : member ∈ roster calls
          · simp [Call.notes, hmem]
          · simp [Call.notes, hmem, List.mapIdx_append]
      | idOf member =>
          -- a miss is in the journal, but it is no registration
          by_cases hmem : member ∈ roster calls
          · simp [Call.notes, hmem]
          · simp [Call.notes, hmem]
      | method _ | field _ => simp [Call.notes]

theorem getElem?_traces (calls : List Call) (place : Nat) :
    (traces calls)[place]? =
      (roster calls)[place]?.map fun member => Event.record (.registered ⟨place⟩ member) := by
  rw [traces_eq, List.getElem?_mapIdx]

theorem ids_traces (calls : List Call) :
    (traces calls).map (·.fields.lookup "id") =
      (List.range (roster calls).length).map fun place => some (.number place) := by
  apply List.ext_getElem?
  intro place
  rw [List.getElem?_map, List.getElem?_map, getElem?_traces]
  by_cases hplace : place < (roster calls).length
  · simp [hplace]
  · simp [hplace]

/-! ## What each call adds -/

/-- The `i`-th of the calls adds the records to the journal. -/
def Adds (calls : List Call) (i : Nat) (records : List LogRecord) : Prop :=
  journal (calls.take (i + 1)) = journal (calls.take i) ++ records

theorem adds_notes {calls : List Call} {i : Nat} {call : Call} (h : calls[i]? = some call) :
    Adds calls i ((call.notes (roster (calls.take i))).map Event.record) := by
  rw [Adds, List.take_add_one, h]
  exact journal_append_singleton _ call

/-- A registration adds a record exactly when it is the first one of its member. -/
theorem adds_of_register {calls : List Call} {i : Nat} {member : Member}
    (h : calls[i]? = some (.register member)) :
    ∃ id, (empty.run calls).value.1[i]? = some (.registered id) ∧
      Adds calls i (if .register member ∈ calls.take i then []
        else [Event.record (.registered id member)]) := by
  refine ⟨_, answers_run h, ?_⟩
  have hadds := adds_notes h
  rw [roster_take_add_one h]
  by_cases hmem : member ∈ roster (calls.take i)
  · simpa [Call.notes, hmem, mem_roster.mp hmem] using hadds
  · -- no call before registers the member, so the answer is the next number
    have hfirst : .register member ∉ calls.take i := fun hcall => hmem (mem_roster.mpr hcall)
    simpa [Call.notes, hmem, hfirst, idxOf_append_singleton hmem] using hadds

/-- A look-up adds a record exactly when it is answered with no number. -/
theorem adds_of_idOf {calls : List Call} {i : Nat} {member : Member}
    (h : calls[i]? = some (.idOf member)) :
    ∃ id?, (empty.run calls).value.1[i]? = some (.id id?) ∧
      Adds calls i (if id? = none then [Event.record (.missed member)] else []) := by
  refine ⟨_, answers_run h, ?_⟩
  have hadds := adds_notes h
  have hroster : roster (calls.take (i + 1)) = roster (calls.take i) := roster_take_add_one h
  rw [hroster]
  by_cases hmem : member ∈ roster (calls.take i)
  · simpa [Call.notes, hmem] using hadds
  · simpa [Call.notes, hmem] using hadds

/-! ## Faithfulness -/

/-- What the journal of a session on an empty registry tells of it. -/
structure KeepsJournal (calls : List Call) (answers : List Answer) (registry : Registry) :
    Prop where
  /-- The registrations bear the numbers below the size, each once and in order. -/
  ids : (traces calls).map (·.fields.lookup "id") =
    (List.range registry.size).map fun place => some (.number place)
  /-- The one with the number of a method shows that method. -/
  method_registered (id : MemberId) (m : Method) : registry.method? id = some m →
    (traces calls)[id.index]? = some ⟨.trace, "ember.members", "registered method",
      [("id", .number id.index), ("method", .text m.declaration)]⟩
  /-- The one with the number of a field shows that field. -/
  field_registered (id : MemberId) (f : Field) : registry.field? id = some f →
    (traces calls)[id.index]? = some ⟨.trace, "ember.members", "registered field",
      [("id", .number id.index), ("field", .text f.declaration)]⟩
  /-- There is a method or a field to every number below the size. -/
  held (id : MemberId) : id.index < registry.size →
    (∃ m, registry.method? id = some m) ∨ ∃ f, registry.field? id = some f
  /-- A registration is noted, with its answer, when it is the first one of its member. -/
  registered (i : Nat) (member : Member) : calls[i]? = some (.register member) →
    ∃ id, answers[i]? = some (.registered id) ∧
      Adds calls i (if .register member ∈ calls.take i then []
        else [Event.record (.registered id member)])
  /-- Looking for a method is noted when there is no answer. -/
  method_sought (i : Nat) (m : Method) : calls[i]? = some (.idOf (.method m)) →
    ∃ id?, answers[i]? = some (.id id?) ∧
      Adds calls i (if id? = none then [⟨.debug, "ember.members", "method not registered",
        [("method", .text m.declaration)]⟩] else [])
  /-- Looking for a field is noted when there is no answer. -/
  field_sought (i : Nat) (f : Field) : calls[i]? = some (.idOf (.field f)) →
    ∃ id?, answers[i]? = some (.id id?) ∧
      Adds calls i (if id? = none then [⟨.debug, "ember.members", "field not registered",
        [("field", .text f.declaration)]⟩] else [])
  /-- Asking what has a number is never noted. -/
  shown (i : Nat) (id : MemberId) :
    calls[i]? = some (.method id) ∨ calls[i]? = some (.field id) → Adds calls i []

/-- **The log is a faithful journal**, through every session. -/
theorem run_keeps_journal (calls : List Call) :
    KeepsJournal calls (empty.run calls).value.1 (empty.run calls).value.2 where
  ids := by rw [ids_traces, size_run]
  method_registered id m h := by
    rw [method?_run_eq_some_iff] at h
    rw [getElem?_traces, h]
    rfl
  field_registered id f h := by
    rw [field?_run_eq_some_iff] at h
    rw [getElem?_traces, h]
    rfl
  held id h := by
    rw [size_run] at h
    simp only [method?_run_eq_some_iff, field?_run_eq_some_iff]
    cases hmember : (roster calls)[id.index] with
    | method m => exact .inl ⟨m, List.getElem?_eq_some_iff.mpr ⟨h, hmember⟩⟩
    | field f => exact .inr ⟨f, List.getElem?_eq_some_iff.mpr ⟨h, hmember⟩⟩
  registered _ _ := adds_of_register
  method_sought _ _ := adds_of_idOf
  field_sought _ _ := adds_of_idOf
  shown i id h := by
    rcases h with h | h
    · exact adds_notes h
    · exact adds_notes h

end Linkage.Registry
