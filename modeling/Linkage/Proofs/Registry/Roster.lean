import Linkage.Registry.Session
import Mathlib.Data.List.Basic
import Mathlib.Data.List.Induction
import Mathlib.Data.List.Nodup

/-!
# A registry is a list without repetitions

The *roster* of a list of calls is read off the calls alone: the members that they register, each
once, in the order of their first registrations. After the calls a registry holds its roster, and
every answer is the one that the roster gives (`run_shows_roster`).

The proof goes call by call. `enrol` is what one call does to a roster, and `members_perform` and
`answer_perform` say that a registry keeps in step with it. The rest follows by induction from the
back of the list of calls, for which `run_append` takes a session apart.
-/

namespace Linkage.Registry

/-! ## The roster -/

/-- The member that a call registers. -/
def Call.registered? : Call → Option Member
  | .register member => some member
  | .idOf _ | .method _ | .field _ => none

/-- The members that the calls register, each once, in the order of their first registrations. -/
def roster (calls : List Call) : List Member := (calls.filterMap Call.registered?).eraseDups

/-- The roster with the member of the call, if the call registers a new one. -/
def Call.enrol (call : Call) (roster : List Member) : List Member :=
  match call.registered? with
  | some member => if member ∈ roster then roster else roster ++ [member]
  | none => roster

@[simp] theorem Call.enrol_register (roster : List Member) (member : Member) :
    (Call.register member).enrol roster =
      if member ∈ roster then roster else roster ++ [member] := rfl

@[simp] theorem Call.enrol_idOf (roster : List Member) (member : Member) :
    (Call.idOf member).enrol roster = roster := rfl

@[simp] theorem Call.enrol_method (roster : List Member) (id : MemberId) :
    (Call.method id).enrol roster = roster := rfl

@[simp] theorem Call.enrol_field (roster : List Member) (id : MemberId) :
    (Call.field id).enrol roster = roster := rfl

/-- What a roster says to a call. -/
def Call.answer (roster : List Member) : Call → Answer
  | .register member => .registered ⟨roster.idxOf member⟩
  | .idOf member => .id (if member ∈ roster then some ⟨roster.idxOf member⟩ else none)
  | .method id => .method (roster[id.index]?.bind Member.method?)
  | .field id => .field (roster[id.index]?.bind Member.field?)

theorem mem_roster {calls : List Call} {member : Member} :
    member ∈ roster calls ↔ .register member ∈ calls := by
  rw [roster, List.mem_eraseDups, List.mem_filterMap]
  constructor
  · rintro ⟨call, hmem, hcall⟩
    cases call with
    | register other =>
        obtain rfl : other = member := Option.some.inj hcall
        exact hmem
    | idOf _ | method _ | field _ => cases hcall
  · intro hmem
    exact ⟨.register member, hmem, rfl⟩

theorem eraseDups_append_singleton (members : List Member) (member : Member) :
    (members ++ [member]).eraseDups =
      if member ∈ members then members.eraseDups else members.eraseDups ++ [member] := by
  rw [List.eraseDups_append]
  by_cases hmem : member ∈ members
  · have hgone : [member].removeAll members = [] := by simp [List.removeAll, hmem]
    rw [hgone, if_pos hmem, List.eraseDups_nil, List.append_nil]
  · have hkept : [member].removeAll members = [member] := by simp [List.removeAll, hmem]
    rw [hkept, if_neg hmem, List.eraseDups_cons]
    simp

/-- The roster of one more call is what that call makes of the roster. -/
theorem roster_append_singleton (calls : List Call) (call : Call) :
    roster (calls ++ [call]) = call.enrol (roster calls) := by
  unfold Call.enrol roster
  rw [List.filterMap_append]
  cases hcall : call.registered? with
  | none => simp [hcall]
  | some member =>
      rw [List.filterMap_cons_some hcall, List.filterMap_nil, eraseDups_append_singleton]
      simp only [List.mem_eraseDups]

/-- The roster up to a call is what the call makes of the one before it. -/
theorem roster_take_add_one {calls : List Call} {i : Nat} {call : Call}
    (h : calls[i]? = some call) :
    roster (calls.take (i + 1)) = call.enrol (roster (calls.take i)) := by
  rw [List.take_add_one, h]
  exact roster_append_singleton _ call

/-- Later calls only add to a roster, behind what it has. -/
theorem roster_prefix_append (calls more : List Call) :
    roster calls <+: roster (calls ++ more) := by
  rw [roster, roster, List.filterMap_append, List.eraseDups_append]
  exact List.prefix_append _ _

/-! ## One call -/

/-- A new member stands behind all others. -/
theorem idxOf_append_singleton {members : List Member} {member : Member} (h : member ∉ members) :
    (members ++ [member]).idxOf member = members.length := by
  rw [List.idxOf_append_of_notMem h]
  simp

theorem find?_eq_none_iff (registry : Registry) (member : Member) :
    registry.index.find? member = none ↔ member ∉ registry.members.toList := by
  rw [Option.eq_none_iff_forall_ne_some, List.mem_iff_getElem?]
  constructor
  · rintro hnone ⟨place, hplace⟩
    apply hnone ⟨place⟩
    rw [registry.find?_iff, ← Array.getElem?_toList]
    exact hplace
  · intro habsent id hfind
    apply habsent
    rw [registry.find?_iff, ← Array.getElem?_toList] at hfind
    exact ⟨id.index, hfind⟩

/-- A registered member has the number of its place. -/
theorem find?_eq_idxOf {registry : Registry} {member : Member}
    (h : member ∈ registry.members.toList) :
    registry.index.find? member = some ⟨registry.members.toList.idxOf member⟩ := by
  rw [registry.find?_iff, ← Array.getElem?_toList]
  exact List.getElem?_idxOf h

/-- No member is held twice. -/
theorem nodup_members (registry : Registry) : registry.members.toList.Nodup := by
  rw [List.nodup_iff_getElem?_ne_getElem?]
  intro i j hlt hj heq
  -- both places hold one member, and the index has one number for it
  have hmember : registry.members.toList[j]? = some registry.members.toList[j] :=
    List.getElem?_eq_getElem hj
  have hi := (registry.find?_iff registry.members.toList[j] ⟨i⟩).mpr
    (by rw [← Array.getElem?_toList, heq, hmember])
  have hj := (registry.find?_iff registry.members.toList[j] ⟨j⟩).mpr
    (by rw [← Array.getElem?_toList, hmember])
  rw [hi] at hj
  cases hj
  exact absurd hlt (Nat.lt_irrefl i)

/-- A member that has a number keeps it, and nothing is logged. -/
theorem register_of_mem {registry : Registry} {member : Member}
    (h : member ∈ registry.members.toList) :
    registry.register member = .quiet (⟨registry.members.toList.idxOf member⟩, registry) := by
  have hfind := find?_eq_idxOf h
  unfold register
  split
  · next id hid =>
      obtain rfl : id = _ := Option.some.inj (hid.symm.trans hfind)
      rfl
  · next hnone => cases hnone.symm.trans hfind

/-- A new member gets the next number, which is logged. -/
theorem register_of_not_mem {registry : Registry} {member : Member}
    (h : member ∉ registry.members.toList) :
    registry.register member =
      .noting (⟨registry.size⟩, registry.push member ((registry.find?_eq_none_iff member).mpr h))
        (.registered ⟨registry.size⟩ member) := by
  have hfind := (registry.find?_eq_none_iff member).mpr h
  unfold register
  split
  · next id hid => cases hid.symm.trans hfind
  · rfl

theorem idOf?_of_mem {registry : Registry} {member : Member}
    (h : member ∈ registry.members.toList) :
    registry.idOf? member = .quiet (some ⟨registry.members.toList.idxOf member⟩) := by
  simp only [idOf?, find?_eq_idxOf h]

theorem idOf?_of_not_mem {registry : Registry} {member : Member}
    (h : member ∉ registry.members.toList) :
    registry.idOf? member = .noting none (.missed member) := by
  simp only [idOf?, (registry.find?_eq_none_iff member).mpr h]

/-- A call does to the members of a registry what it does to the roster. -/
theorem members_perform (registry : Registry) (call : Call) :
    (registry.perform call).value.2.members.toList = call.enrol registry.members.toList := by
  cases call with
  | register member =>
      show (registry.register member).value.2.members.toList = _
      by_cases hmem : member ∈ registry.members.toList
      · rw [register_of_mem hmem]
        simp [hmem]
      · rw [register_of_not_mem hmem]
        simp [hmem, push]
  | idOf _ | method _ | field _ => rfl

/-- A call is answered from the roster that it leaves behind. -/
theorem answer_perform (registry : Registry) (call : Call) :
    (registry.perform call).value.1 = call.answer (call.enrol registry.members.toList) := by
  cases call with
  | register member =>
      show Answer.registered (registry.register member).value.1 = _
      by_cases hmem : member ∈ registry.members.toList
      · rw [register_of_mem hmem]
        simp [Call.answer, hmem]
      · -- the place of a new member is behind all others, and that is the size of the registry
        have hplace : (registry.members.toList ++ [member]).idxOf member = registry.size :=
          idxOf_append_singleton hmem
        rw [register_of_not_mem hmem]
        simp [Call.answer, hmem, hplace]
  | idOf member =>
      show Answer.id (registry.idOf? member).value = _
      by_cases hmem : member ∈ registry.members.toList
      · rw [idOf?_of_mem hmem]
        simp [Call.answer, hmem]
      · rw [idOf?_of_not_mem hmem]
        simp [Call.answer, hmem]
  | method id =>
      show Answer.method (registry.method? id) = _
      simp [Call.answer, method?, get?]
  | field id =>
      show Answer.field (registry.field? id) = _
      simp [Call.answer, field?, get?]

/-! ## Sessions -/

/-- A session is one session after another, wherever it is cut. -/
theorem run_append (registry : Registry) (calls more : List Call) :
    registry.run (calls ++ more) =
      ⟨((registry.run calls).value.1 ++ ((registry.run calls).value.2.run more).value.1,
          ((registry.run calls).value.2.run more).value.2),
        (registry.run calls).log ++ ((registry.run calls).value.2.run more).log⟩ := by
  induction calls generalizing registry with
  | nil => rfl
  | cons call calls ih =>
      simp only [List.cons_append, run, ih]
      show Logged.mk _ _ = Logged.mk _ _
      simp

theorem length_answers (registry : Registry) (calls : List Call) :
    (registry.run calls).value.1.length = calls.length := by
  induction calls generalizing registry with
  | nil => rfl
  | cons call calls ih => simp [run, ih]

/-- After a session a registry holds the roster of its calls. -/
theorem members_run (calls : List Call) :
    (empty.run calls).value.2.members.toList = roster calls := by
  -- from the back, since the roster of a session grows with its last call
  induction calls using List.reverseRecOn with
  | nil => rfl
  | append_singleton calls call ih =>
      rw [run_append, roster_append_singleton, ← ih]
      exact members_perform _ call

/-- Every call is answered as the roster of the calls up to it says. -/
theorem answers_run {calls : List Call} {i : Nat} {call : Call} (h : calls[i]? = some call) :
    (empty.run calls).value.1[i]? = some (call.answer (roster (calls.take (i + 1)))) := by
  have hlt : i < calls.length := (List.getElem?_eq_some_iff.mp h).1
  -- cut the session before the call: the call is the first one of the second session
  have hcalls : calls = calls.take i ++ call :: calls.drop (i + 1) := by
    rw [← (List.getElem?_eq_some_iff.mp h).2, List.getElem_cons_drop, List.take_append_drop]
  have hlen : (empty.run (calls.take i)).value.1.length = i := by
    rw [length_answers, List.length_take, Nat.min_eq_left (Nat.le_of_lt hlt)]
  have hanswer := answer_perform (empty.run (calls.take i)).value.2 call
  rw [members_run, ← roster_take_add_one h] at hanswer
  conv => lhs; rw [hcalls, run_append]
  rw [List.getElem?_append_right (Nat.le_of_eq hlen), hlen, Nat.sub_self]
  exact congrArg some hanswer

/-! ## Numbers stay -/

/-- Members are never moved: a session only adds some behind those that are there. -/
theorem members_prefix_run (registry : Registry) (calls : List Call) :
    registry.members.toList <+: (registry.run calls).value.2.members.toList := by
  induction calls generalizing registry with
  | nil => exact List.prefix_refl _
  | cons call calls ih =>
      have hstep : registry.members.toList <+: (registry.perform call).value.2.members.toList := by
        rw [members_perform, Call.enrol]
        split
        · split
          · exact List.prefix_refl _
          · exact List.prefix_append _ _
        · exact List.prefix_refl _
      exact hstep.trans (ih _)

/-- Once `first` is registered, and whatever is called then, `second` has its number already. -/
def Resolves (registry : Registry) (first second : Member) : Prop :=
  ∀ calls : List Call,
    let id := (registry.register first).value.1
    let later := ((registry.register first).value.2.run calls).value.2
    later.register second = .quiet (id, later) ∧ later.idOf? second = .quiet (some id)

/-- A registered member is not registered again, whatever is called in between. -/
theorem resolves_self (registry : Registry) (member : Member) :
    registry.Resolves member member := by
  intro calls id later
  have hmembers : (registry.register member).value.2.members.toList =
      (Call.register member).enrol registry.members.toList :=
    members_perform registry (.register member)
  have hid : id = ⟨(registry.register member).value.2.members.toList.idxOf member⟩ := by
    rw [hmembers]
    exact Answer.registered.inj (answer_perform registry (.register member))
  -- the first registration puts the member on the list, if it was not there
  have hmem : member ∈ (registry.register member).value.2.members.toList := by
    rw [hmembers]
    rw [Call.enrol_register]
    split
    · assumption
    · simp
  -- the calls only add members behind it, so its place stays
  obtain ⟨more, hlater⟩ := members_prefix_run (registry.register member).value.2 calls
  have hmem_later : member ∈ later.members.toList := by
    rw [← hlater]
    exact List.mem_append_left more hmem
  have hid_later : id = ⟨later.members.toList.idxOf member⟩ := by
    rw [hid, ← hlater, List.idxOf_append_of_mem hmem]
  rw [hid_later]
  exact ⟨register_of_mem hmem_later, idOf?_of_mem hmem_later⟩

/-! ## Refinement -/

/-- What a session on an empty registry shows of the roster of its calls. -/
structure ShowsRoster (calls : List Call) (answers : List Answer) (registry : Registry) : Prop where
  nodup : (roster calls).Nodup
  mem_iff (member : Member) : member ∈ roster calls ↔ .register member ∈ calls
  /-- Each call was answered from the roster at that time. -/
  answered (i : Nat) (call : Call) : calls[i]? = some call →
    answers[i]? = some (call.answer (roster (calls.take (i + 1))))
  /-- A registration, the first or a later one, was answered with the place in the final roster. -/
  registered (i : Nat) (member : Member) : calls[i]? = some (.register member) →
    ∃ place, answers[i]? = some (.registered ⟨place⟩) ∧ (roster calls)[place]? = some member
  size_eq : registry.size = (roster calls).length
  isEmpty_iff : registry.isEmpty = true ↔ roster calls = []
  found_iff (member : Member) (id : MemberId) :
    (registry.idOf? member).value = some id ↔ (roster calls)[id.index]? = some member
  missed_iff (member : Member) :
    (registry.idOf? member).value = none ↔ .register member ∉ calls
  method_iff (id : MemberId) (m : Method) :
    registry.method? id = some m ↔ (roster calls)[id.index]? = some (.method m)
  field_iff (id : MemberId) (f : Field) :
    registry.field? id = some f ↔ (roster calls)[id.index]? = some (.field f)

theorem value_idOf? (registry : Registry) (member : Member) :
    (registry.idOf? member).value = registry.index.find? member := by
  unfold idOf?
  split
  · next id hid => rw [hid, Logged.quiet_value]
  · next hnone => rw [hnone, Logged.noting_value]

theorem get?_run (calls : List Call) (id : MemberId) :
    (empty.run calls).value.2.get? id = (roster calls)[id.index]? := by
  rw [get?, ← Array.getElem?_toList, members_run]

theorem method?_eq_some_iff {member : Member} {m : Method} :
    member.method? = some m ↔ member = .method m := by
  cases member <;> simp [Member.method?]

theorem field?_eq_some_iff {member : Member} {f : Field} :
    member.field? = some f ↔ member = .field f := by
  cases member <;> simp [Member.field?]

theorem method?_run_eq_some_iff {calls : List Call} {id : MemberId} {m : Method} :
    (empty.run calls).value.2.method? id = some m ↔
      (roster calls)[id.index]? = some (.method m) := by
  rw [Registry.method?, get?_run, Option.bind_eq_some_iff]
  simp only [method?_eq_some_iff, exists_eq_right]

theorem field?_run_eq_some_iff {calls : List Call} {id : MemberId} {f : Field} :
    (empty.run calls).value.2.field? id = some f ↔
      (roster calls)[id.index]? = some (.field f) := by
  rw [Registry.field?, get?_run, Option.bind_eq_some_iff]
  simp only [field?_eq_some_iff, exists_eq_right]

theorem size_run (calls : List Call) : (empty.run calls).value.2.size = (roster calls).length := by
  rw [← members_run, Array.length_toList]
  rfl

/-- The place that a registration is answered with stays the member's place. -/
theorem registered_run {calls : List Call} {i : Nat} {member : Member}
    (h : calls[i]? = some (.register member)) :
    ∃ place, (empty.run calls).value.1[i]? = some (.registered ⟨place⟩) ∧
      (roster calls)[place]? = some member := by
  refine ⟨(roster (calls.take (i + 1))).idxOf member, answers_run h, ?_⟩
  have hcall : Call.register member ∈ calls.take (i + 1) := by
    rw [List.take_add_one, h]
    simp
  have hplace : (roster (calls.take (i + 1)))[(roster (calls.take (i + 1))).idxOf member]? =
      some member := List.getElem?_idxOf (mem_roster.mpr hcall)
  -- the final roster starts with that one, so the place stays
  have hprefix : roster (calls.take (i + 1)) <+: roster calls := by
    have happend := roster_prefix_append (calls.take (i + 1)) (calls.drop (i + 1))
    rwa [List.take_append_drop] at happend
  obtain ⟨later, hlater⟩ := hprefix
  rw [← hlater, List.getElem?_append_left (List.getElem?_eq_some_iff.mp hplace).1]
  exact hplace

/-- **A registry refines a list without repetitions**, through every session. -/
theorem run_shows_roster (calls : List Call) :
    ShowsRoster calls (empty.run calls).value.1 (empty.run calls).value.2 where
  nodup := members_run calls ▸ nodup_members _
  mem_iff _ := mem_roster
  answered _ _ := answers_run
  registered _ _ := registered_run
  size_eq := size_run calls
  isEmpty_iff := by rw [← members_run, Array.toList_eq_nil_iff]; exact Array.isEmpty_iff
  found_iff member id := by
    rw [value_idOf?, find?_iff, ← Array.getElem?_toList, members_run]
  missed_iff member := by
    rw [value_idOf?, find?_eq_none_iff, members_run, mem_roster]
  method_iff _ _ := method?_run_eq_some_iff
  field_iff _ _ := field?_run_eq_some_iff

end Linkage.Registry
