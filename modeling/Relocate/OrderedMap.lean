import Relocate.Entries
import Relocate.Text.Basic

/-!
# Maps in order of insertion

A map from texts that remembers the order in which its keys were first put in. A key that gets a
new value stays at its place. No key stands twice, and a map carries the proof of that, so what it
gives for a key is what is listed with it.
-/
namespace Relocate

/-- A map from texts, in order of insertion. -/
structure OrderedMap (β : Type) where
  entries : List (Text × β)
  distinct : (entries.map Prod.fst).Nodup := by decide

namespace OrderedMap

variable {β : Type}

def empty : OrderedMap β := ⟨[], .nil⟩

/-- The keys, in order of insertion. -/
def keys (map : OrderedMap β) : List Text := map.entries.map Prod.fst

def get? (map : OrderedMap β) (key : Text) : Option β :=
  (map.entries.find? fun entry => entry.1 = key).map Prod.snd

/-- The entries of a map are what it gives for its keys. -/
@[simp] theorem mem_entries_iff {map : OrderedMap β} {key : Text} {value : β} :
    (key, value) ∈ map.entries ↔ map.get? key = some value :=
  mem_iff_find? map.distinct

/-- The entries after a key has been given a value. -/
def insertEntry (key : Text) (value : β) : List (Text × β) → List (Text × β)
  | [] => [(key, value)]
  | entry :: rest =>
    if entry.1 = key then (key, value) :: rest else entry :: insertEntry key value rest

/-- Giving a key a value adds this key, if it is new, and no other. By induction on the entries,
which are passed until the key is found. -/
@[simp] theorem mem_keys_insertEntry {key other : Text} {value : β} {entries : List (Text × β)} :
    other ∈ (insertEntry key value entries).map Prod.fst ↔
      other = key ∨ other ∈ entries.map Prod.fst := by
  induction entries with
  | nil => simp [insertEntry]
  | cons entry entries inductionHypothesis =>
    rw [insertEntry]
    split
    · rename_i same
      simp [same]
    · rw [List.map_cons, List.mem_cons, inductionHypothesis, List.map_cons, List.mem_cons]
      constructor
      · rintro (first | inserted | later)
        · exact .inr (.inl first)
        · exact .inl inserted
        · exact .inr (.inr later)
      · rintro (inserted | first | later)
        · exact .inr (.inl inserted)
        · exact .inl first
        · exact .inr (.inr later)

/-- Insertion keeps keys apart. By induction on the entries: a key that is found keeps its place,
and one that is not comes last. -/
theorem nodup_insertEntry {entries : List (Text × β)} (distinct : (entries.map Prod.fst).Nodup)
    (key : Text) (value : β) : ((insertEntry key value entries).map Prod.fst).Nodup := by
  induction entries with
  | nil => simp [insertEntry]
  | cons entry entries inductionHypothesis =>
    rw [List.map_cons, List.nodup_cons] at distinct
    rw [insertEntry]
    split
    · rename_i same
      rw [List.map_cons, List.nodup_cons, ← same]
      exact distinct
    · rename_i apart
      rw [List.map_cons, List.nodup_cons, mem_keys_insertEntry]
      refine ⟨?_, inductionHypothesis distinct.2⟩
      rintro (inserted | later)
      · exact apart inserted
      · exact distinct.1 later

/-- The map in which a key has a value: its own entry if it is there, and a last one if not. -/
def insert (map : OrderedMap β) (key : Text) (value : β) : OrderedMap β where
  entries := insertEntry key value map.entries
  distinct := nodup_insertEntry map.distinct key value

/-- Giving a key a value changes what is under this key and nothing else. By induction on the
entries: the one in front is the key's own, the one that is asked for, or neither. -/
@[simp, grind =] theorem get?_insert (map : OrderedMap β) (key other : Text) (value : β) :
    (map.insert key value).get? other = if other = key then some value else map.get? other := by
  obtain ⟨entries, distinct⟩ := map
  simp only [insert, get?]
  clear distinct
  induction entries with
  | nil =>
    by_cases same : other = key
    · simp [insertEntry, same]
    · simp [insertEntry, same, Ne.symm same]
  | cons entry rest inductionHypothesis =>
    by_cases here : entry.1 = key
    · by_cases same : other = key
      · simp [insertEntry, here, same]
      · have apart : ¬ key = other := fun equal => same equal.symm
        simp [insertEntry, here, same, apart]
    · by_cases found : entry.1 = other
      · have apart : ¬ other = key := fun equal => here (found.trans equal)
        simp [insertEntry, found, apart]
      · simpa [insertEntry, here, found] using inductionHypothesis

/-- Later entries win over earlier ones with the same key. -/
def ofList (entries : List (Text × β)) : OrderedMap β :=
  entries.foldl (fun map entry => map.insert entry.1 entry.2) empty

def size (map : OrderedMap β) : Nat := map.entries.length

end OrderedMap

end Relocate
