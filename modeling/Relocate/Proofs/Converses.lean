import Relocate.Proofs.OrderedMaps

/-!
# Turning a relation round

A map is a relation if what is under each key is a set. Its converse is made
by adding one pair after the other. Each addition leaves a relation that has something under every
key, so the converse is one, and such relations are determined up to the order of their keys by
what they relate. Turned round twice, a relation is therefore itself, less the keys that have
nothing under them.
-/
namespace Relocate.OrderedMap

/-- What is under each key is a set. -/
structure IsRelation (map : OrderedMap (List Text)) : Prop where
  sets : ∀ entry ∈ map.entries, Text.sortedSet entry.2 = entry.2

/-- A relation with something under every key. -/
structure IsFull (map : OrderedMap (List Text)) : Prop extends IsRelation map where
  nonempty : ∀ entry ∈ map.entries, entry.2 ≠ []

/-- The map without the keys that have nothing under them. -/
def dropEmpty (map : OrderedMap (List Text)) : OrderedMap (List Text) where
  entries := map.entries.filter fun entry => entry.2 ≠ []
  distinct := map.distinct.sublist (List.filter_sublist.map Prod.fst)

section Relations

variable {map other : OrderedMap (List Text)}

/-- The empty map has no entry that could be empty or hold a member twice. -/
@[simp] theorem isFull_empty : (empty : OrderedMap (List Text)).IsFull where
  sets := by simp [empty]
  nonempty := by simp [empty]

/-- One more pair leaves something under every key. -/
theorem IsFull.addMember (full : map.IsFull) (key member : Text) :
    (map.addMembers key [member]).IsFull := by
  refine ⟨⟨fun entry inside => ?_⟩, fun entry inside => ?_⟩
  · obtain rfl | earlier := mem_insertEntry inside
    · exact Text.sortedSet_sortedSet _
    · exact full.sets entry earlier
  · obtain rfl | earlier := mem_insertEntry inside
    · have held : member ∈ Text.sortedSet (map.members key ++ [member]) :=
        Text.mem_sortedSet.mpr (by simp)
      exact List.ne_nil_of_mem held
    · exact full.nonempty entry earlier

/-- Pairs that are added one by one leave something under every key. -/
theorem IsFull.addPairs (full : map.IsFull) (pairs : List (Text × Text)) :
    (pairs.foldl (fun map pair => map.addMembers pair.1 [pair.2]) map).IsFull := by
  induction pairs generalizing map with
  | nil => exact full
  | cons pair pairs inductionHypothesis => exact inductionHypothesis (full.addMember pair.1 pair.2)

/-- A converse has something under every key. -/
@[simp] theorem isFull_converse (relation : OrderedMap (List Text)) : (converse relation).IsFull :=
  isFull_empty.addPairs _

/-- Without its empty entries a relation is full. -/
theorem IsRelation.dropEmpty (relation : map.IsRelation) : map.dropEmpty.IsFull where
  sets := fun entry inside => relation.sets entry (List.mem_filter.mp inside).1
  nonempty := fun entry inside => by simpa using (List.mem_filter.mp inside).2

/-- Only keys without members are dropped. -/
@[simp] theorem mem_members_dropEmpty {key member : Text} :
    member ∈ map.dropEmpty.members key ↔ member ∈ map.members key := by
  rw [mem_members_iff, mem_members_iff]
  constructor
  · rintro ⟨members, inside, held⟩
    exact ⟨members, (List.mem_filter.mp inside).1, held⟩
  · rintro ⟨members, inside, held⟩
    have nonempty : members ≠ [] := List.ne_nil_of_mem held
    exact ⟨members, List.mem_filter.mpr ⟨inside, by simpa using nonempty⟩, held⟩

/-- An entry of a full relation is one of any other that relates the same. The key has a member, so
that the other relation has an entry for it; both member lists are sorted sets of the same texts. -/
theorem IsFull.mem_entries (full : map.IsFull) (relation : other.IsRelation)
    (agree : ∀ key member, member ∈ map.members key ↔ member ∈ other.members key)
    {entry : Text × List Text} (inside : entry ∈ map.entries) : entry ∈ other.entries := by
  obtain ⟨key, members⟩ := entry
  obtain ⟨member, held⟩ := List.exists_mem_of_ne_nil members (full.nonempty _ inside)
  have related : member ∈ map.members key :=
    mem_members_iff.mpr ⟨members, inside, held⟩
  obtain ⟨others, listed, -⟩ := mem_members_iff.mp ((agree key member).mp related)
  have here : map.members key = members := by
    rw [OrderedMap.members, mem_entries_iff.mp inside]
    rfl
  have there : other.members key = others := by
    rw [OrderedMap.members, mem_entries_iff.mp listed]
    rfl
  have same : Text.sortedSet members = Text.sortedSet others := by
    rw [Text.sortedSet_eq_iff, ← here, ← there]
    exact agree key
  obtain rfl : members = others :=
    (full.sets _ inside).symm.trans (same.trans (relation.sets _ listed))
  exact listed

/-- Full relations that relate the same differ in the order of their keys only. -/
theorem IsFull.perm_entries (full : map.IsFull) (fullOther : other.IsFull)
    (agree : ∀ key member, member ∈ map.members key ↔ member ∈ other.members key) :
    map.entries.Perm other.entries := by
  have once (map : OrderedMap (List Text)) : map.entries.Nodup :=
    (List.pairwise_map.mp map.distinct).imp fun apart same => apart (congrArg Prod.fst same)
  refine (List.perm_ext_iff_of_nodup (once map) (once other)).mpr fun entry => ⟨?_, ?_⟩
  · exact full.mem_entries fullOther.toIsRelation agree
  · exact fullOther.mem_entries full.toIsRelation fun key member => (agree key member).symm

end Relations

/-- The converse of a relation is the relation read from the other side. It has something under
every key, and its own converse is the relation less the keys without anything under them. Relations
that are full and relate the same texts have the same entries, in some order. -/
theorem converse_converse {relation : OrderedMap (List Text)} (sets : relation.IsRelation) :
    (converse relation).IsRelation ∧
      (∀ source target,
        source ∈ (converse relation).members target ↔ target ∈ relation.members source) ∧
      (∀ entry ∈ (converse relation).entries, entry.2 ≠ []) ∧
      (converse (converse relation)).entries.Perm
        (relation.entries.filter fun entry => entry.2 ≠ []) := by
  have full := isFull_converse relation
  have turned (source target : Text) :
      source ∈ (converse relation).members target ↔ target ∈ relation.members source :=
    mem_converse
  refine ⟨full.toIsRelation, turned, full.nonempty, ?_⟩
  refine (isFull_converse (converse relation)).perm_entries sets.dropEmpty
    fun source target => ?_
  rw [mem_converse, turned]
  exact mem_members_dropEmpty.symm

/-- A relation with a cycle, a text that is related to itself, and a key with nothing under it. -/
def cyclicRelation : OrderedMap (List Text) :=
  { entries :=
      [("a".toList, ["a".toList, "b".toList]), ("c".toList, []), ("b".toList, ["a".toList])] }

/-- Of this relation the converse of the converse has lost the key with nothing under it, and
nothing else. -/
theorem converse_converse_cyclicRelation :
    cyclicRelation.IsRelation ∧
      (converse cyclicRelation).members "a".toList = ["a".toList, "b".toList] ∧
      (converse (converse cyclicRelation)).entries.Perm
        [("a".toList, ["a".toList, "b".toList]), ("b".toList, ["a".toList])] := by
  have sets : cyclicRelation.IsRelation := ⟨by decide⟩
  exact ⟨sets, by decide, (converse_converse sets).2.2.2⟩

end Relocate.OrderedMap
