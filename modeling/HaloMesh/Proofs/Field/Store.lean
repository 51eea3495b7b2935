-- SUMMARY: A store of fields is an append-only map, whatever calls it is given and however many of them fail.
import Mathlib.Data.List.Nodup
import HaloMesh.Logged
import HaloMesh.Proofs.Comm.Attempts

/-!
# Stores of fields

A store is filled by calls that add a descriptor or define a field. A call fails if its key is taken, and
then it leaves no trace. So the calls that have succeeded say all that there is in a store: the `i`-th of
them put in the `i`-th descriptor, and `Records` relates the two tables of the store to them. This does
not depend on the hash: any function of the names may give the keys, with collisions or without.
-/

namespace HaloMesh

namespace FieldStore

/-! ## Lookup -/

section
variable (store : FieldStore) (key : FieldKey)

theorem place?_eq_none_iff : store.place? key = none ↔ store.places.find? (·.1 == key) = none := by
  unfold place?
  split
  case h_1 entry hfind => simp [hfind]
  case h_2 hfind => simp [hfind]

theorem get?_eq : store.get? key =
    (store.places.find? (·.1 == key)).bind fun entry => store.descriptors[entry.2]? := by
  unfold get? place?
  split
  case h_1 entry hfind =>
    have hplace := store.places_lt entry (List.mem_of_find?_eq_some hfind)
    simp [hfind, List.getElem?_eq_getElem hplace]
  case h_2 hfind =>
    rw [hfind]
    rfl

end

/-! ## Calls -/

/-- A call that puts a descriptor into a store if its key is free. -/
inductive Call where
  | add (info : FieldInfo) (key : FieldKey)
  | define (name : FieldName) (typeSize indexSpace : Nat)
  deriving DecidableEq, Repr

namespace Call

/-- The key that the call asks for. -/
def key (keyOf : FieldName → FieldKey) : Call → FieldKey
  | add _ key => key
  | define name _ _ => keyOf name

/-- The descriptor that the call puts after `size` others. Only a definition hands out an id of its own. -/
def descriptor (size : Nat) : Call → FieldInfo
  | add info _ => info
  | define _ typeSize indexSpace => ⟨size, indexSpace, typeSize⟩

/-- What the call returns if its key is free. -/
def answer (keyOf : FieldName → FieldKey) : Call → Option FieldKey
  | add _ _ => none
  | define name _ _ => some (keyOf name)

/-- Whether the call is a definition. -/
def IsDefinition (call : Call) : Prop :=
  ∃ name typeSize indexSpace, call = .define name typeSize indexSpace

/-- Perform the call. -/
def perform (keyOf : FieldName → FieldKey) : Call → CommState FieldStore (Option FieldKey)
  | add info key => do
    register info key
    return none
  | define name typeSize indexSpace => return some (← registerNext name typeSize indexSpace keyOf)

/-- What the call comes to, and the store that it leaves. -/
def ending (keyOf : FieldName → FieldKey) (call : Call) (store : FieldStore) :
    Except Failure (Option FieldKey) × FieldStore :=
  match store.place? (call.key keyOf) with
  | some _ => (.error (.reported (.duplicateFieldKey (call.key keyOf))), store)
  | none => (.ok (call.answer keyOf), store.append (call.descriptor store.size) (call.key keyOf))

end Call

section
variable {transport : Transport} {h : History} {store : FieldStore} {info : FieldInfo} {key : FieldKey}
  {name : FieldName} {typeSize indexSpace : Nat}

theorem register_of_free (hfree : store.place? key = none) :
    (register info key).Ends transport h store [.logged ⟨.debug, registrationText info key⟩] (.ok ())
      (store.append info key) := by
  have hadd : store.add info key = .ok (store.append info key) := by rw [add, hfree]
  exact CommState.Ends.bind_silent .get (.bind_silent (.of_error hadd)
    ((CommState.Ends.record _ _).then_silent (.set _)))

theorem register_of_taken {place : Fin store.descriptors.length} (htaken : store.place? key = some place) :
    (register info key).Ends transport h store [] (.error (.reported (.duplicateFieldKey key))) store := by
  have hadd : store.add info key = .error (.duplicateFieldKey key) := by rw [add, htaken]
  exact CommState.Ends.bind_silent .get (CommState.Ends.fail (.of_reported hadd) _)

variable {keyOf : FieldName → FieldKey}

/-- A definition is the registration of the next descriptor. -/
theorem registerNext_of_free (hfree : store.place? (keyOf name) = none) :
    (registerNext name typeSize indexSpace keyOf).Ends transport h store
      [.logged ⟨.debug, registrationText (store.next typeSize indexSpace) (keyOf name)⟩] (.ok (keyOf name))
      (store.append (store.next typeSize indexSpace) (keyOf name)) :=
  CommState.Ends.bind_silent .get ((register_of_free hfree).then_silent (.pure (keyOf name)))

theorem registerNext_of_taken {place : Fin store.descriptors.length}
    (htaken : store.place? (keyOf name) = some place) :
    (registerNext name typeSize indexSpace keyOf).Ends transport h store []
      (.error (.reported (.duplicateFieldKey (keyOf name)))) store :=
  CommState.Ends.bind_silent .get ((register_of_taken htaken).fail _)

end

/-- A call comes to the same over every transport. -/
theorem Call.runOver_perform (keyOf : FieldName → FieldKey) (call : Call) (store : FieldStore)
    (transport : Transport) (h : History) :
    (((call.perform keyOf).run.run store).runOver transport h).1 = call.ending keyOf store := by
  unfold ending
  cases hplace : store.place? (call.key keyOf) with
  | some place =>
    have hfails : (call.perform keyOf).Ends transport h store []
        (.error (.reported (.duplicateFieldKey (call.key keyOf)))) store := by
      cases call with
      | add info key => exact (register_of_taken hplace).fail _
      | define name typeSize indexSpace =>
        exact (registerNext_of_taken hplace).fail _
    rw [hfails]
  | none =>
    have hreturns : ∃ es, (call.perform keyOf).Ends transport h store es (.ok (call.answer keyOf))
        (store.append (call.descriptor store.size) (call.key keyOf)) := by
      cases call with
      | add info key => exact ⟨_, (register_of_free hplace).then_silent (.pure _)⟩
      | define name typeSize indexSpace =>
        exact ⟨_, (registerNext_of_free hplace).then_silent (.pure _)⟩
    obtain ⟨es, hreturns⟩ := hreturns
    rw [hreturns]

/-! ## What a store records -/

variable (keyOf : FieldName → FieldKey)

/-- What the store holds once these calls have succeeded. -/
structure Records (calls : List Call) (store : FieldStore) : Prop where
  keys_nodup : (calls.map (Call.key keyOf)).Nodup
  descriptors_eq : store.descriptors = calls.mapIdx fun i call => call.descriptor i
  places_eq : store.places = calls.mapIdx fun i call => (call.key keyOf, i)

namespace Records

variable {keyOf} {calls : List Call} {call : Call} {store : FieldStore} {key : FieldKey} {i : Nat}

theorem empty : Records keyOf [] FieldStore.empty := ⟨List.nodup_nil, rfl, rfl⟩

theorem size_eq (h : Records keyOf calls store) : store.size = calls.length := by
  rw [size, h.descriptors_eq, List.length_mapIdx]

theorem find?_eq_none_iff (h : Records keyOf calls store) :
    store.places.find? (·.1 == key) = none ↔ key ∉ calls.map (Call.key keyOf) := by
  rw [h.places_eq, List.find?_eq_none, List.mem_map]
  constructor
  · rintro hnone ⟨call, hcall, rfl⟩
    obtain ⟨i, hi, rfl⟩ := List.mem_iff_getElem.mp hcall
    exact hnone (calls[i].key keyOf, i) (List.mem_mapIdx.mpr ⟨i, hi, rfl⟩) (beq_self_eq_true _)
  · rintro hnone entry hentry hkey
    obtain ⟨i, hi, rfl⟩ := List.mem_mapIdx.mp hentry
    exact hnone ⟨calls[i], List.getElem_mem hi, beq_iff_eq.mp hkey⟩

theorem place?_eq_none_iff (h : Records keyOf calls store) :
    store.place? key = none ↔ key ∉ calls.map (Call.key keyOf) :=
  (FieldStore.place?_eq_none_iff store key).trans h.find?_eq_none_iff

/-- The place that is noted for the key of a call is that of its own descriptor. -/
theorem find?_eq_some (h : Records keyOf calls store) (hcall : calls[i]? = some call) :
    store.places.find? (·.1 == call.key keyOf) = some (call.key keyOf, i) := by
  obtain ⟨hi, rfl⟩ := List.getElem?_eq_some_iff.mp hcall
  rw [h.places_eq, List.find?_eq_some_iff_getElem]
  refine ⟨beq_self_eq_true _, i, by simpa using hi, by simp, fun j hj => ?_⟩
  have hne : calls[j].key keyOf ≠ calls[i].key keyOf :=
    List.pairwise_iff_getElem.mp (List.pairwise_map.mp h.keys_nodup) j i (Nat.lt_trans hj hi) hi hj
  simpa using hne

/-- A key finds the descriptor of the call that has registered it. -/
theorem get_of_success (h : Records keyOf calls store) (hcall : calls[i]? = some call) :
    store.get (call.key keyOf) = .ok (call.descriptor i) := by
  have hget : store.get? (call.key keyOf) = some (call.descriptor i) := by
    rw [get?_eq, h.find?_eq_some hcall, Option.bind_some, h.descriptors_eq, List.getElem?_mapIdx, hcall]
    rfl
  rw [get, hget]

theorem get_of_not_mem (h : Records keyOf calls store) (hkey : key ∉ calls.map (Call.key keyOf)) :
    store.get key = .error (.fieldNotFound key) := by
  rw [get, get?_eq, h.find?_eq_none_iff.mpr hkey]
  rfl

/-- One more call that succeeds. -/
theorem append (h : Records keyOf calls store) (hkey : call.key keyOf ∉ calls.map (Call.key keyOf)) :
    Records keyOf (calls ++ [call]) (store.append (call.descriptor store.size) (call.key keyOf)) where
  keys_nodup := by
    rw [List.map_append, List.map_singleton, ← List.concat_eq_append]
    exact h.keys_nodup.concat hkey
  descriptors_eq := by
    rw [List.mapIdx_concat, ← h.descriptors_eq, ← h.size_eq]
    rfl
  places_eq := by
    rw [List.mapIdx_concat, ← h.places_eq, ← h.size_eq]
    rfl

/-- The next call fails exactly if one that has succeeded has its key. -/
theorem ending_eq (h : Records keyOf calls store) (call : Call) : call.ending keyOf store =
    if call.key keyOf ∈ calls.map (Call.key keyOf) then
      (.error (.reported (.duplicateFieldKey (call.key keyOf))), store)
    else (.ok (call.answer keyOf), store.append (call.descriptor calls.length) (call.key keyOf)) := by
  unfold Call.ending
  cases hplace : store.place? (call.key keyOf) with
  | none => rw [if_neg (h.place?_eq_none_iff.mp hplace), h.size_eq]
  | some place =>
    have hkey : call.key keyOf ∈ calls.map (Call.key keyOf) := by
      by_contra hkey
      rw [h.place?_eq_none_iff.mpr hkey] at hplace
      cases hplace
    rw [if_pos hkey]

/-- Definitions alone number their fields in order. -/
theorem field_eq (h : Records keyOf calls store) (hdefine : ∀ call ∈ calls, call.IsDefinition) :
    store.all.map (·.field) = List.range store.size := by
  have hfield : ∀ i (hi : i < calls.length), (calls[i].descriptor i).field = i := by
    intro i hi
    obtain ⟨name, typeSize, indexSpace, heq⟩ := hdefine calls[i] (List.getElem_mem hi)
    rw [heq]
    rfl
  rw [all, h.size_eq, h.descriptors_eq]
  refine List.ext_getElem (by simp) fun i hi _ => ?_
  rw [List.getElem_map, List.getElem_mapIdx, List.getElem_range]
  exact hfield i (by simpa using hi)

end Records

/-! ## Any calls -/

variable {attempts : List (Attempt Call (Option FieldKey))} {store : FieldStore}

/-- The calls that have succeeded, in order. -/
def successes (attempts : List (Attempt Call (Option FieldKey))) : List Call :=
  (attempts.filter (·.outcome.isOk)).map (·.operation)

/-- The keys that the calls so far have taken. -/
abbrev taken (attempts : List (Attempt Call (Option FieldKey))) : List FieldKey :=
  (successes attempts).map (Call.key keyOf)

/-- What a call comes to if these were made before it: it fails exactly if one of them has taken its key. -/
def Told (past : List (Attempt Call (Option FieldKey))) (attempt : Attempt Call (Option FieldKey)) : Prop :=
  attempt.outcome =
    if attempt.operation.key keyOf ∈ taken keyOf past then
      .error (.reported (.duplicateFieldKey (attempt.operation.key keyOf)))
    else .ok (attempt.operation.answer keyOf)

theorem successes_concat (attempts : List (Attempt Call (Option FieldKey)))
    (attempt : Attempt Call (Option FieldKey)) : successes (attempts ++ [attempt]) =
      if attempt.outcome.isOk then successes attempts ++ [attempt.operation] else successes attempts := by
  rw [successes, successes, List.filter_append, List.map_append]
  cases hok : attempt.outcome.isOk with
  | true => simp [hok]
  | false => simp [hok]

/-- The calls that have succeeded are in the store, and all outcomes so far are as they should be. -/
structure Kept (attempts : List (Attempt Call (Option FieldKey))) (store : FieldStore) : Prop where
  records : Records keyOf (successes attempts) store
  told : Attempt.Each (Told keyOf) attempts

/-- One more call, which adds to the store exactly if its key is free. -/
theorem Kept.step (h : Kept keyOf attempts store) (call : Call) :
    CommState.Always (· = store) (call.perform keyOf) fun outcome store' =>
      Kept keyOf (attempts ++ [⟨call, outcome⟩]) store' := by
  rintro transport history _ rfl
  have hending := h.records.ending_eq call
  rw [call.runOver_perform, hending]
  by_cases hkey : call.key keyOf ∈ taken keyOf attempts
  · rw [if_pos hkey]
    refine ⟨?_, h.told.concat (if_pos hkey).symm⟩
    rw [successes_concat]
    exact h.records
  · rw [if_neg hkey]
    refine ⟨?_, h.told.concat (if_neg hkey).symm⟩
    rw [successes_concat, ← h.records.size_eq]
    exact h.records.append hkey

/-- What calls on an empty store come to, and the store that they leave. -/
def filled (calls : List Call) (transport : Transport) (h : History) :
    List (Attempt Call (Option FieldKey)) × FieldStore :=
  ((CommState.attemptAll (Call.perform keyOf) calls .empty).runOver transport h).1

theorem kept_filled (calls : List Call) (transport : Transport) (h : History) :
    (filled keyOf calls transport h).1.map (·.operation) = calls ∧
      Kept keyOf (filled keyOf calls transport h).1 (filled keyOf calls transport h).2 := by
  have hstart : Kept keyOf [] FieldStore.empty := ⟨.empty, .nil⟩
  have hstep : ∀ attempts store (call : Call), True → Kept keyOf attempts store →
      CommState.Always (· = store) (call.perform keyOf) fun outcome store' =>
        Kept keyOf (attempts ++ [⟨call, outcome⟩]) store' := fun _ _ call _ hkept => hkept.step keyOf call
  exact CommState.attemptAll_keeps hstep calls (fun _ _ => trivial) hstart transport h

/-- No transport has a part in filling a store. -/
theorem filled_congr (calls : List Call) (transport transport' : Transport) (h h' : History) :
    filled keyOf calls transport h = filled keyOf calls transport' h' := by
  refine CommState.attemptAll_congr ?_ calls FieldStore.empty transport transport' h h'
  intro call store transport h transport' h'
  rw [call.runOver_perform, call.runOver_perform]

/-- What a store is after calls on an empty one. -/
structure AppendOnly (calls : List Call) (attempts : List (Attempt Call (Option FieldKey)))
    (store : FieldStore) : Prop where
  /-- All calls are made, whichever of them fail. -/
  operations_eq : attempts.map (·.operation) = calls
  /-- A call fails exactly if one before it has succeeded with the same key. -/
  told : Attempt.Each (Told keyOf) attempts
  /-- No two calls succeed with the same key. -/
  taken_nodup : (taken keyOf attempts).Nodup
  /-- The descriptors are those of the calls that have succeeded, in order. -/
  all_eq : store.all = (successes attempts).mapIdx fun i call => call.descriptor i
  /-- A key finds the descriptor of the call that has taken it. -/
  get_of_taken : ∀ (i : Nat) (call : Call), (successes attempts)[i]? = some call →
    store.get (call.key keyOf) = .ok (call.descriptor i)
  get_of_free : ∀ key, key ∉ taken keyOf attempts → store.get key = .error (.fieldNotFound key)
  onSpace_eq : ∀ space, store.onSpace space =
    ((successes attempts).mapIdx fun i call => call.descriptor i).filter (·.indexSpace == space)
  /-- The next call fails exactly if its key is taken, and then leaves the store as it is. Otherwise it
  puts one descriptor behind all others. -/
  next_eq : ∀ (call : Call) transport h, (((call.perform keyOf).run.run store).runOver transport h).1 =
    if call.key keyOf ∈ taken keyOf attempts then
      (.error (.reported (.duplicateFieldKey (call.key keyOf))), store)
    else (.ok (call.answer keyOf), store.append (call.descriptor (successes attempts).length) (call.key keyOf))
  /-- Definitions alone number their fields from zero on, without gaps. -/
  field_eq : (∀ call ∈ calls, call.IsDefinition) → store.all.map (·.field) = List.range store.size
  /-- The same calls come to the same wherever they are made. -/
  same : ∀ transport h, filled keyOf calls transport h = (attempts, store)

/-- A store is an append-only map. Whatever calls are made on an empty store, exactly those fail whose
key an earlier one has taken, and they leave no trace. The others put their descriptors one behind the
other, where their keys find them. -/
theorem appendOnly_filled (calls : List Call) (transport : Transport) (h : History) :
    AppendOnly keyOf calls (filled keyOf calls transport h).1 (filled keyOf calls transport h).2 := by
  obtain ⟨hoperations, hrecords, htold⟩ := kept_filled keyOf calls transport h
  exact {
    operations_eq := hoperations
    told := htold
    taken_nodup := hrecords.keys_nodup
    all_eq := hrecords.descriptors_eq
    get_of_taken := fun i call => hrecords.get_of_success
    get_of_free := fun key => hrecords.get_of_not_mem
    onSpace_eq := fun space => by
      rw [onSpace, all, hrecords.descriptors_eq]
    next_eq := fun call transport' h' =>
      (call.runOver_perform keyOf _ transport' h').trans (hrecords.ending_eq call)
    field_eq := fun hdefine => hrecords.field_eq fun call hcall => hdefine call (by
      obtain ⟨attempt, hattempt, rfl⟩ := List.mem_map.mp hcall
      rw [← hoperations]
      exact List.mem_map_of_mem (List.mem_filter.mp hattempt).1)
    same := fun transport' h' => filled_congr keyOf calls transport' transport h' h }

end FieldStore

end HaloMesh
