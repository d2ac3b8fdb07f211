import Mathlib.Data.List.Sort
import Mathlib.Order.Defs.LinearOrder

/-!
# Sorted maps

A finite map as the list of its entries in ascending order of their keys, which is
how an ordered associative container is traversed. A map is determined by its
lookups, and insertion and erasure are described by what they do to lookups.
-/

namespace ServerCom

/-- Entries in strictly ascending order of their keys. -/
structure SortedMap (κ ν : Type*) [LinearOrder κ] where
  /-- The entries as they are traversed. -/
  entries : List (κ × ν)
  /-- Keys ascend. -/
  sorted : entries.Pairwise fun a b => a.1 < b.1

namespace SortedMap

variable {κ ν : Type*} [LinearOrder κ] {m m' : SortedMap κ ν} {k a : κ} {v : ν}

/-- No entries. -/
def empty : SortedMap κ ν := ⟨[], .nil⟩

instance : EmptyCollection (SortedMap κ ν) := ⟨empty⟩

instance : Inhabited (SortedMap κ ν) := ⟨∅⟩

/-- The value of a key. -/
def find? (m : SortedMap κ ν) (k : κ) : Option ν := m.entries.lookup k

/-- Put an entry at its place, replacing the one of the same key. -/
def insertEntry (k : κ) (v : ν) : List (κ × ν) → List (κ × ν)
  | [] => [(k, v)]
  | (a, w) :: l =>
    if k < a then (k, v) :: (a, w) :: l
    else if k = a then (k, v) :: l
    else (a, w) :: insertEntry k v l

/-- Nothing but the new entry comes in. -/
theorem mem_insertEntry {e : κ × ν} {l : List (κ × ν)} (h : e ∈ insertEntry k v l) :
    e = (k, v) ∨ e ∈ l := by
  induction l with
  | nil => exact .inl (List.mem_singleton.mp h)
  | cons d l ih =>
    obtain ⟨a, w⟩ := d
    rw [insertEntry] at h
    split_ifs at h
    · exact List.mem_cons.mp h
    · exact (List.mem_cons.mp h).imp_right (List.mem_cons_of_mem _)
    · rcases List.mem_cons.mp h with rfl | h
      · exact .inr (List.mem_cons_self ..)
      · exact (ih h).imp_right (List.mem_cons_of_mem _)

/-- The keys stay in order. -/
theorem sorted_insertEntry (k : κ) (v : ν) {l : List (κ × ν)}
    (h : l.Pairwise fun a b => a.1 < b.1) : (insertEntry k v l).Pairwise fun a b => a.1 < b.1 := by
  induction l with
  | nil => exact List.pairwise_singleton _ _
  | cons d l ih =>
    obtain ⟨a, w⟩ := d
    obtain ⟨hd, hl⟩ := List.pairwise_cons.mp h
    rw [insertEntry]
    split_ifs with hlt heq
    · refine List.pairwise_cons.mpr ⟨fun e he => ?_, h⟩
      rcases List.mem_cons.mp he with rfl | he
      · exact hlt
      · exact lt_trans hlt (hd e he)
    · subst heq
      exact List.pairwise_cons.mpr ⟨hd, hl⟩
    · refine List.pairwise_cons.mpr ⟨fun e he => ?_, ih hl⟩
      rcases mem_insertEntry he with rfl | he
      · exact lt_of_le_of_ne (not_lt.mp hlt) (Ne.symm heq)
      · exact hd e he

/-- Insertion, replacing the value of a present key. -/
def insert (m : SortedMap κ ν) (k : κ) (v : ν) : SortedMap κ ν :=
  ⟨insertEntry k v m.entries, sorted_insertEntry k v m.sorted⟩

/-- Erasure. -/
def erase (m : SortedMap κ ν) (k : κ) : SortedMap κ ν :=
  ⟨m.entries.filter (·.1 ≠ k), m.sorted.filter _⟩

/-! ## Lookups -/

/-- The value of a key is the one of the first entry with it. -/
theorem lookup_cons_eq (a : κ) (d : κ × ν) (l : List (κ × ν)) :
    (d :: l).lookup a = if a = d.1 then some d.2 else l.lookup a := by
  by_cases h : a = d.1
  · subst h
    rw [if_pos rfl]
    exact List.lookup_cons_self
  · rw [if_neg h, List.lookup_cons, beq_false_of_ne h]

@[simp] theorem find?_empty (k : κ) : (∅ : SortedMap κ ν).find? k = none := rfl

/-- Behind an insertion the key has its value, and the others have theirs. -/
theorem lookup_insertEntry (k : κ) (v : ν) (l : List (κ × ν)) (a : κ) :
    (insertEntry k v l).lookup a = if a = k then some v else l.lookup a := by
  induction l with
  | nil => rw [insertEntry, lookup_cons_eq]
  | cons d l ih =>
    obtain ⟨b, w⟩ := d
    rw [insertEntry]
    by_cases hak : a = k
    · rw [if_pos hak]
      split_ifs with hlt heq
      · rw [lookup_cons_eq, if_pos hak]
      · rw [lookup_cons_eq, if_pos hak]
      · rw [lookup_cons_eq, if_neg fun h => heq (hak.symm.trans h), ih, if_pos hak]
    · rw [if_neg hak]
      split_ifs with hlt heq
      · rw [lookup_cons_eq, if_neg hak]
      · rw [lookup_cons_eq, if_neg hak, lookup_cons_eq, if_neg (heq ▸ hak)]
      · rw [lookup_cons_eq, ih, if_neg hak, lookup_cons_eq]

/-- An insertion is found, and changes no other key. -/
theorem find?_insert (m : SortedMap κ ν) (k : κ) (v : ν) (a : κ) :
    (m.insert k v).find? a = if a = k then some v else m.find? a :=
  lookup_insertEntry k v m.entries a

/-- A key whose entries are taken out has no value, and the others have theirs. -/
theorem lookup_filter_ne (k : κ) (l : List (κ × ν)) (a : κ) :
    (l.filter (·.1 ≠ k)).lookup a = if a = k then none else l.lookup a := by
  induction l with
  | nil => simp
  | cons d l ih =>
    rw [List.filter_cons]
    split_ifs with hd hak hak
    · rw [lookup_cons_eq, if_neg fun h => of_decide_eq_true hd (h.symm.trans hak), ih, if_pos hak]
    · rw [lookup_cons_eq, ih, if_neg hak, lookup_cons_eq]
    · rw [ih, if_pos hak]
    · have hdk : d.1 = k := by simpa using hd
      rw [ih, if_neg hak, lookup_cons_eq, if_neg fun h => hak (h.trans hdk)]

/-- An erased key is not found, and the others are. -/
theorem find?_erase (m : SortedMap κ ν) (k a : κ) :
    (m.erase k).find? a = if a = k then none else m.find? a :=
  lookup_filter_ne k m.entries a

/-- In order of the keys, an entry is there exactly when its value is found. -/
theorem mem_iff_lookup {l : List (κ × ν)} (h : l.Pairwise fun a b => a.1 < b.1) :
    (a, v) ∈ l ↔ l.lookup a = some v := by
  induction l with
  | nil => simp
  | cons d l ih =>
    obtain ⟨b, w⟩ := d
    obtain ⟨hd, hl⟩ := List.pairwise_cons.mp h
    rw [lookup_cons_eq, List.mem_cons, ih hl]
    by_cases hab : a = b
    · subst hab
      have hnot : l.lookup a ≠ some v := fun hl' => lt_irrefl a (hd (a, v) ((ih hl).mpr hl'))
      simp only [hnot, or_false, if_true, Prod.mk.injEq, true_and, Option.some.injEq]
      exact eq_comm
    · simp [hab]

/-- The entries are the lookups that succeed. -/
theorem mem_entries_iff : (k, v) ∈ m.entries ↔ m.find? k = some v := mem_iff_lookup m.sorted

/-- No entry comes twice. -/
theorem nodup_entries (m : SortedMap κ ν) : m.entries.Nodup := by
  refine m.sorted.imp ?_
  rintro a b hlt rfl
  exact lt_irrefl _ hlt

/-- The first entries. -/
def take (m : SortedMap κ ν) (n : Nat) : SortedMap κ ν :=
  ⟨m.entries.take n, m.sorted.sublist (List.take_sublist n m.entries)⟩

/-- Of the first entries of a map only their keys are found. -/
theorem find?_take (m : SortedMap κ ν) (n : Nat) (k : κ) :
    (m.take n).find? k = if k ∈ (m.entries.take n).map Prod.fst then m.find? k else none := by
  split_ifs with hk
  · obtain ⟨⟨a, v⟩, hmem, rfl⟩ := List.mem_map.mp hk
    rw [(mem_entries_iff (m := m.take n)).mp hmem, mem_entries_iff.mp (List.mem_of_mem_take hmem)]
  · rw [Option.eq_none_iff_forall_ne_some]
    intro v hv
    exact hk (List.mem_map.mpr ⟨(k, v), (mem_entries_iff (m := m.take n)).mpr hv, rfl⟩)

/-- A map is determined by its lookups. -/
theorem ext_find? (h : ∀ k, m.find? k = m'.find? k) : m = m' := by
  have hperm : m.entries.Perm m'.entries := by
    refine (List.perm_ext_iff_of_nodup m.nodup_entries m'.nodup_entries).mpr ?_
    rintro ⟨k, v⟩
    rw [mem_entries_iff, mem_entries_iff, h]
  have hentries : m.entries = m'.entries :=
    hperm.eq_of_pairwise (fun _ _ _ _ hab hba => absurd (lt_trans hab hba) (lt_irrefl _))
      m.sorted m'.sorted
  cases m
  cases m'
  congr

end SortedMap

end ServerCom
