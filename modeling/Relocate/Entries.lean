/-!
# Entries

Trees and maps are stored as lists of entries: a key, and what is under it. No key stands twice in
such a list, so what is found under a key is what is listed with it.
-/
namespace Relocate

/-- If no key stands twice, an entry is listed exactly if it is what is found under its key. By
induction on the list: the entry in front is found under its key, and then its key does not stand in
the rest. -/
theorem mem_iff_find? {α β : Type} [DecidableEq α] {entries : List (α × β)}
    (distinct : (entries.map Prod.fst).Nodup) {key : α} {value : β} :
    (key, value) ∈ entries ↔
      (entries.find? fun entry => entry.1 = key).map Prod.snd = some value := by
  induction entries with
  | nil => simp
  | cons entry entries inductionHypothesis =>
    rw [List.map_cons, List.nodup_cons] at distinct
    rw [List.mem_cons, inductionHypothesis distinct.2]
    by_cases here : entry.1 = key
    · have absent : entries.find? (fun entry => decide (entry.1 = key)) = none := by
        rw [List.find?_eq_none]
        intro later member equal
        apply distinct.1
        rw [here, ← of_decide_eq_true equal]
        exact List.mem_map_of_mem member
      rw [absent, List.find?_cons_of_pos (by simpa using here)]
      simp only [Option.map_none, Option.map_some, Option.some.injEq, reduceCtorEq, or_false]
      constructor
      · intro same
        rw [← same]
      · intro same
        rw [← here, ← same]
    · rw [List.find?_cons_of_neg (by simpa using here)]
      constructor
      · rintro (same | found)
        · exact absurd (congrArg Prod.fst same).symm here
        · exact found
      · exact .inr

end Relocate
