import Relocate.Text.Basic

/-!
# Lists of texts as sets

`Text.distinct` keeps the first occurrence of each text. It keeps what is a member, leaves no text
twice, and changes nothing where no text stands twice. Sorting rearranges a list, and as the order
of texts is total the result depends on the members alone: `sortedSet_eq_iff` says that sorted sets
are equal exactly if they have the same members.
-/
namespace Relocate

/-- Inserting an item adds it and changes nothing but the order. -/
theorem insertBy_perm {α : Type} (le : α → α → Bool) (item : α) (items : List α) :
    (insertBy le item items).Perm (item :: items) := by
  induction items with
  | nil => exact .refl _
  | cons other rest inductionHypothesis =>
    rw [insertBy]
    split
    · exact .refl _
    · exact (inductionHypothesis.cons other).trans (.swap item other rest)

/-- Sorting rearranges. -/
theorem sortBy_perm {α : Type} (le : α → α → Bool) (items : List α) :
    (sortBy le items).Perm items := by
  induction items with
  | nil => exact .refl _
  | cons item items inductionHypothesis =>
    exact (insertBy_perm le item _).trans (inductionHypothesis.cons item)

/-- Inserting into an ordered list keeps it ordered. The items passed over come before the new one
because the order is total, and the first one kept comes behind it. -/
theorem pairwise_insertBy {α : Type} {le : α → α → Bool}
    (total : ∀ a b, le a b = false → le b a = true)
    (trans : ∀ a b c, le a b = true → le b c = true → le a c = true) (item : α) {items : List α}
    (sorted : items.Pairwise fun a b => le a b = true) :
    (insertBy le item items).Pairwise fun a b => le a b = true := by
  induction items with
  | nil => simp [insertBy]
  | cons other rest inductionHypothesis =>
    obtain ⟨least, sortedRest⟩ := List.pairwise_cons.mp sorted
    rw [insertBy]
    cases order : le item other with
    | true =>
      refine List.pairwise_cons.mpr ⟨?_, sorted⟩
      rintro later (_ | ⟨_, member⟩)
      · exact order
      · exact trans item other later order (least later member)
    | false =>
      refine List.pairwise_cons.mpr ⟨?_, inductionHypothesis sortedRest⟩
      intro later member
      obtain rfl | member := List.mem_cons.mp ((insertBy_perm le item rest).mem_iff.mp member)
      · exact total later other order
      · exact least later member

namespace Text

/-- Texts are compared by their first characters, and by the rest where these agree. -/
theorem le_cons_iff {c d : Char} {s t : Text} :
    le (c :: s) (d :: t) = true ↔ c.toNat < d.toNat ∨ (c = d ∧ le s t = true) := by
  by_cases same : c = d
  · simp [le, same]
  · simp [le, same]

/-- Of two texts one comes first. -/
theorem le_total (s t : Text) (order : le s t = false) : le t s = true := by
  induction s generalizing t with
  | nil => simp [le] at order
  | cons c s inductionHypothesis =>
    cases t with
    | nil => rfl
    | cons d t =>
      by_cases same : c = d
      · simp only [le, same, if_true] at order ⊢
        exact inductionHypothesis t order
      · have apart : c.toNat ≠ d.toNat := fun equal => same (Char.toNat_inj.mp equal)
        simp only [le, same, if_false, decide_eq_false_iff_not] at order
        simp only [le, Ne.symm same, if_false, decide_eq_true_eq]
        omega

/-- The order of texts is transitive. By induction on the first text, character by character. -/
theorem le_trans (s t u : Text) (first : le s t = true) (second : le t u = true) :
    le s u = true := by
  induction s generalizing t u with
  | nil => rfl
  | cons c s inductionHypothesis =>
    cases t with
    | nil => simp [le] at first
    | cons d t =>
      cases u with
      | nil => simp [le] at second
      | cons e u =>
        rw [le_cons_iff] at first second ⊢
        obtain before | ⟨rfl, first⟩ := first
        · obtain later | ⟨rfl, _⟩ := second
          · exact .inl (Nat.lt_trans before later)
          · exact .inl before
        · obtain later | ⟨rfl, second⟩ := second
          · exact .inl later
          · exact .inr ⟨rfl, inductionHypothesis t u first second⟩

/-- Texts that come before each other are equal. By induction on the first text, with the first
characters compared both ways. -/
theorem le_antisymm (s t : Text) (first : le s t = true) (second : le t s = true) : s = t := by
  induction s generalizing t with
  | nil =>
    cases t with
    | nil => rfl
    | cons d t => simp [le] at second
  | cons c s inductionHypothesis =>
    cases t with
    | nil => simp [le] at first
    | cons d t =>
      rw [le_cons_iff] at first second
      obtain before | ⟨rfl, first⟩ := first
      · obtain later | ⟨rfl, _⟩ := second
        · exact absurd before (Nat.lt_asymm later)
        · exact absurd before (Nat.lt_irrefl _)
      · obtain later | ⟨_, second⟩ := second
        · exact absurd later (Nat.lt_irrefl _)
        · rw [inductionHypothesis t first second]

/-- Sorting changes nothing but the order. -/
theorem sort_perm (texts : List Text) : (sort texts).Perm texts := sortBy_perm le texts

/-- What is sorted stands in order. By induction on the list, which is sorted by inserting its
items. -/
theorem pairwise_sort (texts : List Text) : (sort texts).Pairwise fun s t => le s t = true := by
  induction texts with
  | nil => exact .nil
  | cons text texts inductionHypothesis =>
    exact pairwise_insertBy le_total le_trans text inductionHypothesis

/-- Rearranged lists are sorted alike. -/
theorem sort_eq_of_perm {texts others : List Text} (perm : texts.Perm others) :
    sort texts = sort others := by
  refine List.Perm.eq_of_pairwise (fun s t _ _ => le_antisymm s t) (pairwise_sort texts)
    (pairwise_sort others) ?_
  exact (sort_perm texts).trans (perm.trans (sort_perm others).symm)

/-- Dropping repeated texts drops no text altogether. -/
@[simp] theorem mem_distinct {t : Text} {texts : List Text} : t ∈ distinct texts ↔ t ∈ texts := by
  induction texts with
  | nil => simp [distinct]
  | cons first texts inductionHypothesis =>
    by_cases same : t = first
    · simp [distinct, same]
    · simp [distinct, same, inductionHypothesis]

/-- After repeated texts have been dropped, every text stands once. -/
theorem nodup_distinct (texts : List Text) : (distinct texts).Nodup := by
  induction texts with
  | nil => exact List.nodup_nil
  | cons first texts inductionHypothesis =>
    rw [distinct, List.nodup_cons]
    exact ⟨by simp, inductionHypothesis.filter _⟩

/-- Texts without repetition are left as they are. -/
theorem distinct_of_nodup {texts : List Text} (nodup : texts.Nodup) : distinct texts = texts := by
  induction texts with
  | nil => rfl
  | cons first texts inductionHypothesis =>
    rw [List.nodup_cons] at nodup
    rw [distinct, inductionHypothesis nodup.2, List.filter_eq_self.mpr]
    intro t member
    have other : t ≠ first := fun same => nodup.1 (same ▸ member)
    simpa using other

/-- The sorted set of a list has the same members. -/
@[simp] theorem mem_sortedSet {t : Text} {texts : List Text} : t ∈ sortedSet texts ↔ t ∈ texts := by
  simp [sortedSet, (sort_perm _).mem_iff]

/-- A sorted set has every member once. -/
theorem nodup_sortedSet (texts : List Text) : (sortedSet texts).Nodup :=
  (sort_perm _).nodup_iff.mpr (nodup_distinct texts)

/-- Sorted sets are equal exactly if they have the same members. -/
theorem sortedSet_eq_iff {texts others : List Text} :
    sortedSet texts = sortedSet others ↔ ∀ t, t ∈ texts ↔ t ∈ others := by
  constructor
  · intro same t
    rw [← mem_sortedSet, same, mem_sortedSet]
  · intro members
    refine sort_eq_of_perm
      ((List.perm_ext_iff_of_nodup (nodup_distinct _) (nodup_distinct _)).mpr ?_)
    intro t
    simp [members]

/-- A sorted set is sorted already. -/
@[simp] theorem sortedSet_sortedSet (texts : List Text) :
    sortedSet (sortedSet texts) = sortedSet texts :=
  sortedSet_eq_iff.mpr fun _ => mem_sortedSet

/-- A run of one text in front counts once. -/
theorem distinct_run {t : Text} {run : List Text} (nonempty : run ≠ [])
    (constant : ∀ other ∈ run, other = t) (texts : List Text) :
    distinct (run ++ texts) = t :: (distinct texts).filter (· ≠ t) := by
  induction run with
  | nil => exact absurd rfl nonempty
  | cons first run inductionHypothesis =>
    simp only [List.forall_mem_cons] at constant
    obtain ⟨rfl, constant⟩ := constant
    cases run with
    | nil => rfl
    | cons second run =>
      rw [List.cons_append, distinct, inductionHypothesis (by simp) constant]
      simp

/-- The keys of items that are grouped by key are the keys of the groups. By induction on the keys:
a group comes out as its key, which is in no later group. -/
theorem distinct_groups {α : Type} {key : α → Text} {group : Text → List α} {keys : List Text}
    (nodup : keys.Nodup) (nonempty : ∀ k ∈ keys, group k ≠ [])
    (grouped : ∀ k ∈ keys, ∀ item ∈ group k, key item = k) :
    distinct ((keys.flatMap group).map key) = keys := by
  induction keys with
  | nil => rfl
  | cons k keys inductionHypothesis =>
    simp only [List.forall_mem_cons] at nonempty grouped
    rw [List.nodup_cons] at nodup
    have constant : ∀ other ∈ (group k).map key, other = k := by
      simpa using grouped.1
    rw [List.flatMap_cons, List.map_append, distinct_run (by simpa using nonempty.1) constant,
      inductionHypothesis nodup.2 nonempty.2 grouped.2]
    congr 1
    rw [List.filter_eq_self]
    intro other member
    have apart : other ≠ k := fun same => nodup.1 (same ▸ member)
    simpa using apart

/-- The items of one key among items that are grouped by key. By induction on the keys: only the
group of the key has items of this key. -/
theorem filter_groups {α : Type} {key : α → Text} {group : Text → List α} {keys : List Text}
    (nodup : keys.Nodup) (grouped : ∀ k ∈ keys, ∀ item ∈ group k, key item = k) {k : Text}
    (member : k ∈ keys) : (keys.flatMap group).filter (fun item => key item = k) = group k := by
  induction keys with
  | nil => simp at member
  | cons first keys inductionHypothesis =>
    simp only [List.forall_mem_cons] at grouped
    rw [List.nodup_cons] at nodup
    rw [List.flatMap_cons, List.filter_append]
    obtain rfl | later := List.mem_cons.mp member
    · have own : (group k).filter (fun item => key item = k) = group k := by
        simpa using grouped.1
      have missing : (keys.flatMap group).filter (fun item => key item = k) = [] := by
        simp only [List.filter_eq_nil_iff, List.mem_flatMap, decide_eq_true_eq]
        rintro item ⟨other, inside, held⟩ same
        exact nodup.1 (same ▸ (grouped.2 other inside item held) ▸ inside)
      rw [own, missing, List.append_nil]
    · have nothing : (group first).filter (fun item => key item = k) = [] := by
        simp only [List.filter_eq_nil_iff, decide_eq_true_eq]
        rintro item held same
        exact nodup.1 (grouped.1 item held ▸ same ▸ later)
      rw [nothing, List.nil_append, inductionHypothesis nodup.2 grouped.2 later]

end Text

end Relocate
