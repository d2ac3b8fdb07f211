import ServerCom.Redis.Interpretation.DictContents

/-!
# Iterators of a hash table

An iterator goes through the slots and through the chain in each. What it has still to visit
does not change when the entry it has just returned is deleted.
-/

namespace ServerCom.Redis.Dict

open Buckets

variable {κ ν : Type*} {hash : κ → UInt32} {ht : Dict κ ν}
  {d rest : List (DictEntry κ ν)} {iter : DictIterator κ} {i : ℕ}

/-- Where an iterator is: what it has still to visit. -/
inductive At (ht : Dict κ ν) : DictIterator κ → List (DictEntry κ ν) → Prop where
  /-- Between two slots. -/
  | between (i : ℕ) (hi : i ≤ ht.size) (nextEntry : Option κ) :
    At ht ⟨(i : Int) - 1, none, nextEntry⟩ (ht.table.drop i).flatten
  /-- In a chain. -/
  | inside (i : ℕ) (hi : i < ht.size) (key : κ) (before behind : List (DictEntry κ ν))
    (hchain : ht.chain i = before ++ behind) :
    At ht ⟨i, some key, behind.head?.map Prod.fst⟩ (behind ++ (ht.table.drop (i + 1)).flatten)

/-- A new iterator has everything before it. -/
theorem at_getIterator (ht : Dict κ ν) : At ht getIterator ht.table.flatten :=
  .between 0 (Nat.zero_le _) none

/-- A table has at most `2 ^ 30` slots. -/
theorem Holds.size_le (h : Holds hash ht d) : ht.size ≤ 2 ^ 30 := by
  rcases h.size with hzero | ⟨n, hle, hn⟩
  · rw [hzero]
    exact Nat.zero_le _
  · rw [hn]
    exact Nat.pow_le_pow_right (by decide) (by omega)

/-- What is left of the table is the next chain and what is behind it. -/
theorem Holds.flatten_drop (h : Holds hash ht d) (hi : i < ht.size) :
    (ht.table.drop i).flatten = ht.chain i ++ (ht.table.drop (i + 1)).flatten := by
  have hlt : i < ht.table.length := by rw [h.length]; exact hi
  rw [List.drop_eq_getElem_cons hlt, List.flatten_cons, chain, List.getD_eq_getElem _ _ hlt]

/-- The loop of `_dictClear` comes to every entry. -/
theorem clearTable_eq (table : List (List (DictEntry κ ν))) :
    clearTable table table.flatten.length = (table.flatten, 0) := by
  induction table with
  | nil => rfl
  | cons chain table ih =>
    rw [clearTable, List.flatten_cons, List.length_append]
    split_ifs with hpos
    · rw [Nat.add_sub_cancel_left, ih]
    · have hnil : chain ++ table.flatten = [] :=
        List.eq_nil_of_length_eq_zero (by rw [List.length_append]; omega)
      have hzero : chain.length + table.flatten.length = 0 := by omega
      rw [hnil, hzero]

variable [DecidableEq κ]

/-- From between two slots the loop comes to the next entry. -/
theorem Holds.nextLoop_between (h : Holds hash ht d) {fuel : ℕ} (hi : i ≤ ht.size)
    (hfuel : ht.size < i + fuel) (nextEntry : Option κ) :
    (∃ iter, (ht.table.drop i).flatten = [] ∧
      ht.nextLoop hash fuel ⟨(i : Int) - 1, none, nextEntry⟩ = some (none, iter)) ∨
    ∃ j he next, j < ht.size ∧ ht.chain j = he :: next ∧
      (ht.table.drop i).flatten = he :: (next ++ (ht.table.drop (j + 1)).flatten) ∧
      ht.nextLoop hash fuel ⟨(i : Int) - 1, none, nextEntry⟩ =
        some (some he, ⟨j, some he.1, next.head?.map Prod.fst⟩) := by
  have hbound := h.size_le
  induction fuel generalizing i with
  | zero => omega
  | succ fuel ih =>
    rw [nextLoop]
    dsimp only
    rw [Int.sub_add_cancel, int32_natCast (by omega), int32_natCast (by omega)]
    split_ifs with hend hindex
    · have hsize : ht.size ≤ i := by omega
      refine .inl ⟨_, ?_, rfl⟩
      rw [List.drop_eq_nil_of_le (by rw [h.length]; exact hsize)]
      rfl
    · have hlt : i < ht.size := by omega
      rw [Int.toNat_natCast, h.flatten_drop hlt]
      cases hchain : ht.chain i with
      | nil =>
        dsimp only
        have hnext : ((i : Int)) = ((i + 1 : ℕ) : Int) - 1 := by omega
        rw [hnext]
        exact ih (by omega) (by omega)
      | cons he next => exact .inr ⟨i, he, next, hlt, hchain, rfl, rfl⟩
    · exact absurd (Int.natCast_nonneg i) hindex

/-- `dictNext` returns the first of the entries that are still to visit. -/
theorem Holds.next_spec (h : Holds hash ht d) (hat : At ht iter rest) :
    (∃ iter', rest = [] ∧ ht.next hash iter = some (none, iter')) ∨
    ∃ i he before behind, i < ht.size ∧ ht.chain i = before ++ behind ∧ he ∈ before ∧
      rest = he :: (behind ++ (ht.table.drop (i + 1)).flatten) ∧
      ht.next hash iter = some (some he, ⟨i, some he.1, behind.head?.map Prod.fst⟩) := by
  have hbetween : ∀ {i : ℕ} (fuel : ℕ), i ≤ ht.size → ht.size < i + fuel → ∀ nextEntry,
      (∃ iter', (ht.table.drop i).flatten = [] ∧
        ht.nextLoop hash fuel ⟨(i : Int) - 1, none, nextEntry⟩ = some (none, iter')) ∨
      ∃ j he before behind, j < ht.size ∧ ht.chain j = before ++ behind ∧ he ∈ before ∧
        (ht.table.drop i).flatten = he :: (behind ++ (ht.table.drop (j + 1)).flatten) ∧
        ht.nextLoop hash fuel ⟨(i : Int) - 1, none, nextEntry⟩ =
          some (some he, ⟨j, some he.1, behind.head?.map Prod.fst⟩) := by
    intro i fuel hi hfuel nextEntry
    refine (h.nextLoop_between hi hfuel nextEntry).imp_right ?_
    rintro ⟨j, he, next, hj, hchain, hrest, hnext⟩
    exact ⟨j, he, [he], next, hj, hchain, List.mem_singleton_self he, hrest, hnext⟩
  rw [next]
  cases hat with
  | between i hi nextEntry => exact hbetween (ht.size + 2) hi (by omega) nextEntry
  | inside i hi key before behind hchain =>
    rw [nextLoop]
    dsimp only
    cases behind with
    | nil =>
      have hindex : (i : Int) = ((i + 1 : ℕ) : Int) - 1 := by omega
      dsimp only [List.head?_nil, Option.map_none]
      rw [List.nil_append, hindex]
      exact hbetween (ht.size + 1) (by omega) (by omega) none
    | cons he next =>
      have hmem : he ∈ ht.chain i := by
        rw [hchain]
        exact List.mem_append_right _ (List.mem_cons_self ..)
      have hslot : slot hash ht.sizemask he.1 = i := h.placed i he hmem
      have hnodup := h.nodup_chain (by omega : ht.size ≠ 0) he.1
      rw [hslot, hchain, List.map_append, List.map_cons] at hnodup
      have hother : ∀ e ∈ before, decide (e.1 ≠ he.1) = true := by
        intro e hmem'
        refine decide_eq_true fun hkey => ?_
        exact (List.nodup_append.mp hnodup).2.2 _ (List.mem_map_of_mem hmem') _
          (List.mem_cons_self ..) hkey
      have hdrop : (before ++ he :: next).dropWhile (·.1 ≠ he.1) = he :: next := by
        rw [List.dropWhile_append_of_pos hother, List.dropWhile_cons_of_neg (by simp)]
      dsimp only [List.head?_cons, Option.map_some]
      rw [hslot, hchain, hdrop]
      refine .inr ⟨i, he, before ++ [he], next, hi, ?_, ?_, rfl, rfl⟩
      · rw [hchain, List.append_assoc]
        rfl
      · exact List.mem_append_right _ (List.mem_singleton_self he)

end ServerCom.Redis.Dict
