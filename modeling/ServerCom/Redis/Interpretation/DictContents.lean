import ServerCom.Core.Data.Buckets
import ServerCom.Redis.Native.Dict

/-!
# The contents of a hash table

A table holds a list of entries with different keys, in whatever order and whatever its size.
Its operations do to the list what a dictionary does, and fail nowhere while the list is short
enough.
-/

namespace ServerCom.Redis.Dict

open Buckets

variable {κ ν : Type*} {hash : κ → UInt32} {ht ht' : Dict κ ν}
  {d : List (DictEntry κ ν)} {key : κ} {val : ν} {n : ℕ}

/-- A table holds the entries `d`. -/
structure Holds (hash : κ → UInt32) (ht : Dict κ ν) (d : List (DictEntry κ ν)) : Prop where
  /-- There is no slot, or their number is a power of two. -/
  size : ht.size = 0 ∨ ∃ n ≤ 28, ht.size = 2 ^ (n + 2)
  /-- The slots. -/
  length : ht.table.length = ht.size
  /-- The mask takes the low bits. -/
  mask : ht.sizemask = ht.size - 1
  /-- Every entry stands in the slot of its key. -/
  placed : Placed Prod.fst (slot hash ht.sizemask) ht.table
  /-- The entries. -/
  entries : ht.table.flatten.Perm d
  /-- Their keys are different. -/
  nodup : (d.map Prod.fst).Nodup
  /-- Their number. -/
  used : ht.used = d.length
  /-- There are not more than slots. -/
  load : ht.used ≤ ht.size

/-- A new table holds the empty map. -/
theorem holds_create : Holds hash (create : Dict κ ν) [] where
  size := .inl rfl
  length := rfl
  mask := rfl
  placed := placed_replicate 0
  entries := .refl _
  nodup := .nil
  used := rfl
  load := Nat.le_refl 0

/-- A slot is below the size. -/
theorem slot_lt (hash : κ → UInt32) (n : ℕ) (key : κ) : slot hash (2 ^ n - 1) key < 2 ^ n := by
  rw [slot, Nat.and_two_pow_sub_one_eq_mod]
  exact Nat.mod_lt _ (Nat.two_pow_pos n)

/-- A key's slot is one of the table's. -/
theorem Holds.slot_lt (h : Holds hash ht d) (hsize : ht.size ≠ 0) (key : κ) :
    slot hash ht.sizemask key < ht.table.length := by
  rcases h.size with hzero | ⟨n, -, hn⟩
  · exact absurd hzero hsize
  · rw [h.length, h.mask, hn]
    exact Dict.slot_lt hash (n + 2) key

/-- A slot can be counted by an `int`. -/
theorem Holds.slot_lt_int (h : Holds hash ht d) (hsize : ht.size ≠ 0) (key : κ) :
    slot hash ht.sizemask key < 2 ^ 31 := by
  have hlt := h.slot_lt hsize key
  rcases h.size with hzero | ⟨n, hle, hn⟩
  · exact absurd hzero hsize
  · have hpow : 2 ^ (n + 2) ≤ 2 ^ 30 := Nat.pow_le_pow_right (by decide) (by omega)
    rw [h.length, hn] at hlt
    omega

/-- No key is in the table twice. -/
theorem Holds.nodup_table (h : Holds hash ht d) : (ht.table.flatten.map Prod.fst).Nodup :=
  (h.entries.map Prod.fst).nodup_iff.mpr h.nodup

/-- The keys of a chain are different. -/
theorem Holds.nodup_chain (h : Holds hash ht d) (hsize : ht.size ≠ 0) (key : κ) :
    ((ht.chain (slot hash ht.sizemask key)).map Prod.fst).Nodup := by
  have hnodup := h.nodup_table
  rw [flatten_eq (h.slot_lt hsize key), List.map_append, List.map_append] at hnodup
  exact (List.nodup_append.mp (List.nodup_append.mp hnodup).2.1).1

/-- A table without slots holds nothing. -/
theorem Holds.eq_nil (h : Holds hash ht d) (hsize : ht.size = 0) : d = [] := by
  have hload := h.load
  rw [h.used, hsize] at hload
  exact List.eq_nil_of_length_eq_zero (Nat.le_zero.mp hload)

/-! ## Expansion -/

/-- The loop finds the next power of two. -/
theorem nextPowerLoop_eq {fuel a b : ℕ} (hab : a ≤ b) (hfuel : b ≤ a + fuel) :
    nextPowerLoop fuel (2 ^ a) (2 ^ b) = 2 ^ b := by
  induction fuel generalizing a with
  | zero =>
    have : a = b := by omega
    rw [this]
    rfl
  | succ fuel ih =>
    rw [nextPowerLoop]
    split_ifs with hle
    · exact Nat.le_antisymm (Nat.pow_le_pow_right (by decide) hab) hle
    · have hne : a ≠ b := fun heq => hle (by rw [heq])
      rw [← Nat.pow_succ]
      exact ih (by omega) (by omega)

/-- A size that is a power of two is the next one. -/
theorem nextPower_eq (hn : n ≤ 28) : nextPower (2 ^ (n + 2)) = 2 ^ (n + 2) := by
  have hpow : 2 ^ (n + 2) ≤ 2 ^ 30 := Nat.pow_le_pow_right (by decide) (by omega)
  rw [nextPower, if_neg (by omega)]
  exact nextPowerLoop_eq (a := 2) (by omega) (by omega)

/-- A chain is moved entry by entry into the slots of the new table. -/
theorem moveChain_spec (chain : List (DictEntry κ ν)) {table : List (List (DictEntry κ ν))}
    (used : ℕ) (hp : Placed Prod.fst (slot hash (2 ^ n - 1)) table) (hlen : table.length = 2 ^ n) :
    let res := moveChain hash (2 ^ n - 1) chain (table, used)
    Placed Prod.fst (slot hash (2 ^ n - 1)) res.1 ∧ res.1.length = 2 ^ n ∧
      res.1.flatten.Perm (chain ++ table.flatten) ∧ res.2 = used - chain.length := by
  induction chain generalizing table used with
  | nil => exact ⟨hp, hlen, .refl _, rfl⟩
  | cons he next ih =>
    have hlt : slot hash (2 ^ n - 1) he.1 < table.length := by
      rw [hlen]
      exact Dict.slot_lt hash n he.1
    have hp' : Placed Prod.fst (slot hash (2 ^ n - 1))
        (table.modify (slot hash (2 ^ n - 1) he.1) (he :: ·)) := by
      refine hp.modify hlt fun e hmem => ?_
      rcases List.mem_cons.mp hmem with rfl | hmem
      · rfl
      · exact hp _ e hmem
    obtain ⟨hplaced, hlength, hperm, hused⟩ := ih (used - 1) hp' (by rw [List.length_modify, hlen])
    rw [moveChain]
    refine ⟨hplaced, hlength, ?_, ?_⟩
    · exact (hperm.trans ((perm_modify_cons he hlt).append_left next)).trans List.perm_middle
    · rw [hused, List.length_cons]
      omega

/-- All entries come into the new table. -/
theorem moveTable_spec (old : List (List (DictEntry κ ν))) {table : List (List (DictEntry κ ν))}
    {used : ℕ} (hused : used = old.flatten.length)
    (hp : Placed Prod.fst (slot hash (2 ^ n - 1)) table) (hlen : table.length = 2 ^ n) :
    let res := moveTable hash (2 ^ n - 1) old (table, used)
    Placed Prod.fst (slot hash (2 ^ n - 1)) res.1 ∧ res.1.length = 2 ^ n ∧
      res.1.flatten.Perm (old.flatten ++ table.flatten) ∧ res.2 = 0 := by
  induction old generalizing table used with
  | nil => exact ⟨hp, hlen, .refl _, hused⟩
  | cons chain old ih =>
    rw [List.flatten_cons, List.length_append] at hused
    rw [moveTable]
    split_ifs with hpos
    · obtain ⟨hp', hlen', hperm', hused'⟩ := moveChain_spec chain used hp hlen
      generalize moveChain hash (2 ^ n - 1) chain (table, used) = res at hp' hlen' hperm' hused'
      obtain ⟨table', used'⟩ := res
      dsimp only at hp' hlen' hperm' hused'
      have hcount : used' = old.flatten.length := by omega
      obtain ⟨hplaced, hlength, hperm, hzero⟩ := ih hcount hp' hlen'
      refine ⟨hplaced, hlength, ?_, hzero⟩
      rw [List.flatten_cons, List.append_assoc]
      refine (hperm.trans (hperm'.append_left _)).trans ?_
      rw [← List.append_assoc, ← List.append_assoc]
      exact List.perm_append_comm.append_right _
    · have hnil : chain ++ old.flatten = [] := by
        apply List.eq_nil_of_length_eq_zero
        rw [List.length_append]
        dsimp only at hpos
        omega
      refine ⟨hp, hlen, ?_, by dsimp only at hpos ⊢; omega⟩
      rw [List.flatten_cons, hnil]
      exact .refl _

/-- An expansion keeps the entries. -/
theorem Holds.expand (h : Holds hash ht d) (hn : n ≤ 28) (hused : ht.used ≤ 2 ^ (n + 2)) :
    ∃ ht', ht.expand hash (2 ^ (n + 2)) = some (true, ht') ∧ Holds hash ht' d ∧
      ht'.size = 2 ^ (n + 2) := by
  have hcount : ht.used = ht.table.flatten.length := by rw [h.used, h.entries.length_eq]
  have hempty : Placed (Prod.fst : DictEntry κ ν → κ) (slot hash (2 ^ (n + 2) - 1))
      (.replicate (2 ^ (n + 2)) []) := placed_replicate _
  obtain ⟨hp, hlen, hperm, hzero⟩ := moveTable_spec ht.table hcount hempty List.length_replicate
  unfold Dict.expand
  rw [nextPower_eq hn]
  dsimp only
  rw [if_neg (Nat.not_lt.mpr hused)]
  generalize moveTable hash (2 ^ (n + 2) - 1) ht.table (.replicate (2 ^ (n + 2)) [], ht.used) =
    res at hp hlen hperm hzero
  obtain ⟨table, used⟩ := res
  dsimp only at hp hlen hperm hzero ⊢
  rw [if_pos hzero]
  refine ⟨_, rfl, ⟨.inr ⟨n, hn, rfl⟩, hlen, rfl, hp, ?_, h.nodup, h.used, hused⟩, rfl⟩
  rw [List.flatten_replicate_nil, List.append_nil] at hperm
  exact hperm.trans h.entries

/-- Behind an expansion there is a free slot. -/
theorem Holds.expandIfNeeded (h : Holds hash ht d) (hlen : d.length < 2 ^ 30) :
    ∃ ht', ht.expandIfNeeded hash = some (true, ht') ∧ Holds hash ht' d ∧ ht'.used < ht'.size := by
  have hload := h.load
  unfold Dict.expandIfNeeded
  split_ifs with hzero hfull
  · obtain ⟨ht', hexpand, hholds, hsize⟩ := h.expand (n := 0) (by omega) (by omega)
    refine ⟨ht', hexpand, hholds, ?_⟩
    rw [hholds.used, ← h.used, hsize]
    omega
  · rcases h.size with hsize | ⟨n, hn, hsize⟩
    · exact absurd hsize hzero
    · have hlt : 2 ^ (n + 2) < 2 ^ 30 := by
        rw [← hsize, ← hfull, h.used]
        exact hlen
      have hn' : n + 2 < 30 := (Nat.pow_lt_pow_iff_right (by decide)).mp hlt
      have hdouble : ht.size * 2 = 2 ^ (n + 1 + 2) := by
        rw [hsize, ← Nat.pow_succ]
      obtain ⟨ht', hexpand, hholds, hsize'⟩ := h.expand (n := n + 1) (by omega) (by omega)
      refine ⟨ht', by rw [hdouble]; exact hexpand, hholds, ?_⟩
      rw [hholds.used, ← h.used, hsize', ← hdouble]
      omega
  · exact ⟨ht, rfl, h, by omega⟩

/-! ## Operations -/

/-- A change of the chain of a key, which keeps the entries of this key in the slot. -/
theorem Holds.modify (h : Holds hash ht d) (hsize : ht.size ≠ 0) (key : κ)
    {f g : List (DictEntry κ ν) → List (DictEntry κ ν)} {d' : List (DictEntry κ ν)} {used : ℕ}
    (happ : ∀ l l', g (l ++ l') = g l ++ g l') (hid : ∀ l, (∀ e ∈ l, e.1 ≠ key) → g l = l)
    (hf : ∀ l : List (DictEntry κ ν), (l.map Prod.fst).Nodup → f l = g l)
    (hkeys : ∀ l, ∀ e ∈ g l, e.1 ∈ l.map Prod.fst) (hperm : (g ht.table.flatten).Perm d')
    (hnodup : (d'.map Prod.fst).Nodup) (hused : used = d'.length) (hload : used ≤ ht.size) :
    Holds hash { ht with table := ht.table.modify (slot hash ht.sizemask key) f, used := used }
      d' := by
  have hlt := h.slot_lt hsize key
  have hchain := hf _ (h.nodup_chain hsize key)
  refine ⟨h.size, ?_, h.mask, ?_, ?_, hnodup, hused, hload⟩
  · dsimp only
    rw [List.length_modify, h.length]
  · refine h.placed.modify hlt fun e he => ?_
    rw [chain] at hchain
    rw [hchain] at he
    obtain ⟨e', he', hkey⟩ := List.mem_map.mp (hkeys _ e he)
    rw [← hkey]
    exact h.placed _ e' he'
  · dsimp only
    rw [h.placed.flatten_modify hlt happ hid hchain]
    exact hperm

variable [DecidableEq κ]

/-- A chain has the entries of its keys. -/
theorem Holds.find?_chain (h : Holds hash ht d) (hsize : ht.size ≠ 0) (key : κ) :
    (ht.chain (slot hash ht.sizemask key)).find? (·.1 = key) = d.find? (·.1 = key) := by
  rw [chain, h.placed.find?_eq (h.slot_lt hsize key), find?_perm h.entries h.nodup_table]

/-- A key is in its own chain or not in the table. -/
theorem Holds.any_chain (h : Holds hash ht d) (hsize : ht.size ≠ 0) (key : κ) :
    (ht.chain (slot hash ht.sizemask key)).any (·.1 = key) = decide (key ∈ d.map Prod.fst) := by
  have hany : d.any (·.1 = key) = decide (key ∈ d.map Prod.fst) := by
    rw [List.any_eq, decide_eq_decide]
    simp
  rw [← hany, ← List.isSome_find?, ← List.isSome_find?, h.find?_chain hsize key]

/-- `dictFind` searches the entries. -/
theorem Holds.find_eq (h : Holds hash ht d) (key : κ) : ht.find hash key = d.find? (·.1 = key) := by
  rw [find]
  split_ifs with hsize
  · rw [h.eq_nil hsize]
    rfl
  · exact h.find?_chain hsize key

/-- `_dictKeyIndex` finds a free slot, or the key. -/
theorem Holds.keyIndex (h : Holds hash ht d) (hlen : d.length < 2 ^ 30) (key : κ) :
    ∃ ht', Holds hash ht' d ∧ ht'.used < ht'.size ∧ ht.keyIndex hash key =
      some (if key ∈ d.map Prod.fst then -1 else (slot hash ht'.sizemask key : Int), ht') := by
  obtain ⟨ht', hexpand, hholds, hfree⟩ := h.expandIfNeeded hlen
  have hsize : ht'.size ≠ 0 := by omega
  refine ⟨ht', hholds, hfree, ?_⟩
  rw [Dict.keyIndex, hexpand]
  dsimp only
  rw [hholds.any_chain hsize, int32_natCast (hholds.slot_lt_int hsize key)]
  simp only [decide_eq_true_eq]

/-- `dictAdd` adds an entry of a new key. -/
theorem Holds.add (h : Holds hash ht d) (hlen : d.length < 2 ^ 30) (key : κ) (val : ν) :
    ∃ ht', ht.add hash key val = some (decide (key ∉ d.map Prod.fst), ht') ∧
      Holds hash ht' (if key ∈ d.map Prod.fst then d else (key, val) :: d) := by
  obtain ⟨ht', hholds, hfree, hindex⟩ := h.keyIndex hlen key
  have hsize : ht'.size ≠ 0 := by omega
  have hlt := hholds.slot_lt hsize key
  unfold Dict.add
  rw [hindex]
  by_cases hkey : key ∈ d.map Prod.fst
  · rw [if_pos hkey, if_pos hkey, decide_eq_false (not_not.mpr hkey)]
    exact ⟨ht', rfl, hholds⟩
  · rw [if_neg hkey, if_neg hkey, decide_eq_true hkey]
    dsimp only
    rw [if_neg (by omega), if_pos (by omega), Int.toNat_natCast]
    refine ⟨_, rfl, hholds.size, ?_, hholds.mask, ?_, ?_, ?_, ?_, hfree⟩
    · dsimp only
      rw [List.length_modify, hholds.length]
    · refine hholds.placed.modify hlt fun e he => ?_
      rcases List.mem_cons.mp he with rfl | he
      · rfl
      · exact hholds.placed _ e he
    · exact (perm_modify_cons (key, val) hlt).trans (hholds.entries.cons _)
    · rw [List.map_cons, List.nodup_cons]
      exact ⟨hkey, hholds.nodup⟩
    · dsimp only
      rw [hholds.used, List.length_cons]

/-- `dictDelete` removes the entry of a key. -/
theorem Holds.delete (h : Holds hash ht d) (key : κ) :
    (ht.delete hash key).1 = decide (key ∈ d.map Prod.fst) ∧
      Holds hash (ht.delete hash key).2 (d.filter (·.1 ≠ key)) := by
  unfold Dict.delete
  by_cases hsize : ht.size = 0
  · have hnil := h.eq_nil hsize
    subst hnil
    rw [if_pos hsize]
    exact ⟨rfl, h⟩
  · rw [if_neg hsize]
    dsimp only
    rw [h.any_chain hsize]
    by_cases hkey : key ∈ d.map Prod.fst
    · rw [if_pos (decide_eq_true hkey)]
      refine ⟨(decide_eq_true hkey).symm, ?_⟩
      obtain ⟨e, he, rfl⟩ := List.mem_map.mp hkey
      have hlength : d.length = (d.filter (·.1 ≠ e.1)).length + 1 :=
        (perm_cons_filter h.nodup he).length_eq
      have hload := h.load
      rw [h.used] at hload
      refine h.modify hsize e.1 (fun l l' => List.filter_append ..) (fun l => filter_eq_self)
        (fun l => eraseP_eq_filter) ?_ (h.entries.filter _) ?_ ?_ ?_
      · exact fun l a ha => List.mem_map_of_mem (List.mem_of_mem_filter ha)
      · exact h.nodup.sublist (List.filter_sublist.map _)
      · rw [h.used]
        omega
      · rw [h.used]
        omega
    · rw [if_neg (by simpa using hkey)]
      refine ⟨(decide_eq_false hkey).symm, ?_⟩
      rw [filter_eq_self fun e he hk => hkey (List.mem_map.mpr ⟨e, he, hk⟩)]
      exact h

/-- An entry with another value at its key. -/
def withVal (key : κ) (val : ν) (e : DictEntry κ ν) : DictEntry κ ν :=
  if e.1 = key then (e.1, val) else e

theorem withVal_fst (key : κ) (val : ν) (e : DictEntry κ ν) : (withVal key val e).1 = e.1 := by
  rw [withVal]
  split_ifs <;> rfl

theorem map_withVal_fst (key : κ) (val : ν) (l : List (DictEntry κ ν)) :
    (l.map (withVal key val)).map Prod.fst = l.map Prod.fst := by
  rw [List.map_map]
  exact List.map_congr_left fun e _ => withVal_fst key val e

/-- Without the key nothing gets a new value. -/
theorem map_withVal_eq_self {l : List (DictEntry κ ν)} (h : ∀ e ∈ l, e.1 ≠ key) :
    l.map (withVal key val) = l :=
  (List.map_congr_left fun e he => if_neg (h e he)).trans (List.map_id l)

/-- With every key at most once, the first entry with the key is the only one. -/
theorem setVal_eq {l : List (DictEntry κ ν)} (hn : (l.map Prod.fst).Nodup) :
    setVal key val l = l.map (withVal key val) := by
  induction l with
  | nil => rfl
  | cons he next ih =>
    rw [List.map_cons, List.nodup_cons] at hn
    rw [setVal, List.map_cons, withVal]
    split_ifs with hkey
    · rw [map_withVal_eq_self]
      exact fun e hmem hk => hn.1 (List.mem_map.mpr ⟨e, hmem, hk.trans hkey.symm⟩)
    · rw [ih hn.2]

/-- With another value at a key, the entry of this key is the one of the new value. -/
theorem map_withVal_perm (val : ν) {l : List (DictEntry κ ν)} (hn : (l.map Prod.fst).Nodup)
    (hkey : key ∈ l.map Prod.fst) :
    (l.map (withVal key val)).Perm ((key, val) :: l.filter (·.1 ≠ key)) := by
  have hmem : (key, val) ∈ l.map (withVal key val) := by
    obtain ⟨e, he, rfl⟩ := List.mem_map.mp hkey
    exact List.mem_map.mpr ⟨e, he, if_pos rfl⟩
  have hfilter : (l.map (withVal key val)).filter (·.1 ≠ key) = l.filter (·.1 ≠ key) := by
    rw [List.filter_map]
    have hsame : (fun e : DictEntry κ ν => decide (e.1 ≠ key)) ∘ withVal key val =
        fun e => decide (e.1 ≠ key) := funext fun e => by rw [Function.comp, withVal_fst]
    rw [hsame, map_withVal_eq_self]
    exact fun e he => of_decide_eq_true (List.mem_filter.mp he).2
  rw [← hfilter]
  exact perm_cons_filter (by rw [map_withVal_fst]; exact hn) hmem

/-- `dictReplace` puts an entry in the place of the one of its key. -/
theorem Holds.replace (h : Holds hash ht d) (hlen : d.length < 2 ^ 30) (key : κ) (val : ν) :
    ∃ ht', ht.replace hash key val = some (decide (key ∉ d.map Prod.fst), ht') ∧
      Holds hash ht' ((key, val) :: d.filter (·.1 ≠ key)) := by
  obtain ⟨ht', hadd, hholds⟩ := h.add hlen key val
  unfold Dict.replace
  rw [hadd]
  by_cases hkey : key ∈ d.map Prod.fst
  · rw [if_pos hkey] at hholds
    rw [decide_eq_false (not_not.mpr hkey)]
    dsimp only
    have hsize : ht'.size ≠ 0 := by
      intro hzero
      rw [hholds.eq_nil hzero] at hkey
      cases hkey
    have hfind : (ht'.find hash key).isSome := by
      rw [hholds.find_eq, List.find?_isSome]
      obtain ⟨e, he, hk⟩ := List.mem_map.mp hkey
      exact ⟨e, he, decide_eq_true hk⟩
    obtain ⟨e, he⟩ := Option.isSome_iff_exists.mp hfind
    rw [he]
    have hperm := map_withVal_perm val hholds.nodup hkey
    refine ⟨_, rfl, hholds.modify hsize key (fun l l' => List.map_append ..)
      (fun l => map_withVal_eq_self) (fun l => setVal_eq) ?_
      ((hholds.entries.map _).trans hperm) ?_ ?_ hholds.load⟩
    · intro l a ha
      rw [← map_withVal_fst key val]
      exact List.mem_map_of_mem ha
    · rw [← (hperm.map Prod.fst).nodup_iff, map_withVal_fst]
      exact hholds.nodup
    · rw [hholds.used, ← hperm.length_eq, List.length_map]
  · rw [if_neg hkey] at hholds
    rw [decide_eq_true hkey, filter_eq_self fun e he hk => hkey (List.mem_map.mpr ⟨e, he, hk⟩)]
    exact ⟨ht', rfl, hholds⟩

end ServerCom.Redis.Dict
