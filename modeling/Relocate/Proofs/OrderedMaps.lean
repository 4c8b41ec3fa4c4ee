import Relocate.ModuleGraph
import Relocate.Proofs.Text.Sets

/-!
# Entries of maps, and sets under keys

What a map that is built by insertion holds, entry by entry and key by key. A map whose values are
sets of texts is a relation; its converse relates the same texts the other way round.
-/
namespace Relocate.OrderedMap

section Entries

variable {β : Type}

/-- An entry that is there after an insertion is the new one or was there before. By induction on
the entries. -/
theorem mem_insertEntry {key : Text} {value : β} {entries : List (Text × β)} {entry : Text × β}
    (member : entry ∈ insertEntry key value entries) : entry = (key, value) ∨ entry ∈ entries := by
  induction entries with
  | nil => exact .inl (by simpa [insertEntry] using member)
  | cons first entries inductionHypothesis =>
    rw [insertEntry] at member
    split at member
    · obtain inserted | later := List.mem_cons.mp member
      · exact .inl inserted
      · exact .inr (List.mem_cons_of_mem _ later)
    · obtain here | later := List.mem_cons.mp member
      · exact .inr (by simp [here])
      · obtain inserted | later := inductionHypothesis later
        · exact .inl inserted
        · exact .inr (List.mem_cons_of_mem _ later)

/-- What is put into a map entry by entry, entries and keys. By induction on the entries that are
put in. -/
theorem foldl_insert (map : OrderedMap β) (entries : List (Text × β)) :
    let result := entries.foldl (fun map entry => map.insert entry.1 entry.2) map
    (∀ entry ∈ result.entries, entry ∈ map.entries ∨ entry ∈ entries) ∧
      ∀ key, key ∈ result.keys ↔ key ∈ map.keys ∨ key ∈ entries.map Prod.fst := by
  induction entries generalizing map with
  | nil => exact ⟨fun _ => .inl, fun _ => by simp⟩
  | cons entry entries inductionHypothesis =>
    obtain ⟨members, keys⟩ := inductionHypothesis (map.insert entry.1 entry.2)
    refine ⟨fun other member => ?_, fun key => ?_⟩
    · obtain inside | later := members other member
      · obtain same | inside := mem_insertEntry inside
        · exact .inr (by simp [same])
        · exact .inl inside
      · exact .inr (List.mem_cons_of_mem _ later)
    · rw [List.foldl_cons, keys, OrderedMap.keys, insert, mem_keys_insertEntry, List.map_cons,
        List.mem_cons, OrderedMap.keys]
      constructor
      · rintro ((first | inside) | later)
        · exact .inr (.inl first)
        · exact .inl inside
        · exact .inr (.inr later)
      · rintro (inside | first | later)
        · exact .inl (.inr inside)
        · exact .inl (.inl first)
        · exact .inr later

/-- Every entry of a map that is made of a list is in the list. -/
theorem mem_of_mem_ofList {entries : List (Text × β)} {entry : Text × β}
    (member : entry ∈ (ofList entries).entries) : entry ∈ entries := by
  obtain inside | listed := (foldl_insert .empty entries).1 entry member
  · simp [empty] at inside
  · exact listed

/-- A map that is made of a list has its keys. -/
@[simp] theorem mem_keys_ofList {entries : List (Text × β)} {key : Text} :
    key ∈ (ofList entries).keys ↔ key ∈ entries.map Prod.fst := by
  have keys := (foldl_insert .empty entries).2 key
  rw [ofList, keys]
  simp [empty, OrderedMap.keys]

/-- What a map that is made of a list gives is in the list. -/
theorem mem_of_get?_ofList {entries : List (Text × β)} {key : Text} {value : β}
    (given : (ofList entries).get? key = some value) : (key, value) ∈ entries :=
  mem_of_mem_ofList (mem_entries_iff.mpr given)

/-- A map that is made of a list without repeated keys gives what the list holds. -/
theorem get?_ofList_iff {entries : List (Text × β)} (distinct : (entries.map Prod.fst).Nodup)
    {key : Text} {value : β} : (ofList entries).get? key = some value ↔ (key, value) ∈ entries := by
  constructor
  · exact mem_of_get?_ofList
  · intro listed
    have inside : key ∈ (ofList entries).keys :=
      mem_keys_ofList.mpr (List.mem_map.mpr ⟨_, listed, rfl⟩)
    obtain ⟨⟨_, other⟩, member, rfl⟩ := List.mem_map.mp inside
    have first := (mem_iff_find? distinct).mp (mem_of_mem_ofList member)
    obtain rfl := Option.some.inj (first.symm.trans ((mem_iff_find? distinct).mp listed))
    exact mem_entries_iff.mp member

end Entries

section Members

variable {map : OrderedMap (List Text)}

/-- What is under a key after an insertion: the inserted members under their own key, and what was
there under every other one. -/
@[simp, grind =] theorem members_insert (key other : Text) (members : List Text) :
    (map.insert key members).members other =
      if other = key then members else map.members other := by
  grind [OrderedMap.members]

/-- What is under a key after members have been added under one. -/
@[simp] theorem mem_addMembers {key other member : Text} {members : List Text} :
    member ∈ (map.addMembers key members).members other ↔
      member ∈ map.members other ∨ (other = key ∧ member ∈ members) := by
  by_cases same : other = key <;> simp [addMembers, same]

/-- A member stands under a key of the map. -/
theorem mem_members_iff {key member : Text} :
    member ∈ map.members key ↔ ∃ members, (key, members) ∈ map.entries ∧ member ∈ members := by
  rw [OrderedMap.members]
  constructor
  · intro inside
    cases found : map.get? key with
    | none => simp [found] at inside
    | some members =>
      rw [found] at inside
      exact ⟨members, mem_entries_iff.mpr found, inside⟩
  · rintro ⟨members, entry, inside⟩
    rw [mem_entries_iff.mp entry]
    exact inside

/-- Pairs that are added one by one. -/
theorem mem_foldl_addMembers (pairs : List (Text × Text)) {source target : Text} :
    source ∈ (pairs.foldl (fun map pair => map.addMembers pair.1 [pair.2]) map).members target ↔
      source ∈ map.members target ∨ (target, source) ∈ pairs := by
  induction pairs generalizing map with
  | nil => simp
  | cons pair pairs inductionHypothesis =>
    rw [List.foldl_cons, inductionHypothesis, mem_addMembers, List.mem_singleton, List.mem_cons]
    constructor
    · rintro ((inside | ⟨key, member⟩) | later)
      · exact .inl inside
      · exact .inr (.inl (by rw [key, member]))
      · exact .inr (.inr later)
    · rintro (inside | same | later)
      · exact .inl (.inl inside)
      · exact .inl (.inr ⟨congrArg Prod.fst same, congrArg Prod.snd same⟩)
      · exact .inr later

/-- The converse relates the same texts the other way round. -/
@[simp] theorem mem_converse {source target : Text} :
    source ∈ (converse map).members target ↔ target ∈ map.members source := by
  rw [converse, mem_foldl_addMembers, (mem_members_iff : target ∈ map.members source ↔ _)]
  constructor
  · rintro (nothing | pair)
    · simp [OrderedMap.members, empty, get?] at nothing
    · obtain ⟨entry, listed, member⟩ := List.mem_flatMap.mp pair
      obtain ⟨other, inside, same⟩ := List.mem_map.mp member
      obtain ⟨rfl, rfl⟩ := Prod.mk.inj same
      exact ⟨entry.2, listed, inside⟩
  · rintro ⟨members, entry, inside⟩
    exact .inr (List.mem_flatMap.mpr ⟨_, entry, List.mem_map.mpr ⟨target, inside, rfl⟩⟩)

end Members

end Relocate.OrderedMap
