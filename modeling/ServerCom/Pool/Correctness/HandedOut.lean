import ServerCom.Core.Data.Lending
import ServerCom.Core.Machine.Guarded
import ServerCom.Pool.Native.MemPool

/-!
# Objects handed out

The objects of the pool are lent: each is free or handed out, also behind the growth step,
and `Free` tells exactly the objects that are handed out from all other pointers. The number
of objects handed out is given in 32 bits.
-/

namespace ServerCom.Pool

open Machine

namespace PoolWorld

variable {α : Type*} {malloc : Nat → α} {w : PoolWorld α} {p : α}

/-- The pool has what `malloc` gave it, and lends it. -/
structure Lent (malloc : Nat → α) (w : PoolWorld α) : Prop where
  /-- The objects are those of the calls of `malloc`, in order. -/
  all_eq : w.pool.vecAllObj = (List.range w.mallocs).map malloc
  /-- Each object is free or handed out. -/
  lending : Lending w.pool.vecAllObj w.pool.vecFreeObj w.handedOut

/-- What a user of the pool relies on, where objects are at non-null addresses. -/
structure Sound [DecidableEq α] (malloc : Nat → α) (null : α) (w : PoolWorld α) : Prop where
  /-- No object is free twice. -/
  nodup_free : w.pool.vecFreeObj.Nodup
  /-- Free objects belong to the pool. -/
  free_subset : w.pool.vecFreeObj ⊆ w.pool.vecAllObj
  /-- No object belongs to the pool twice. -/
  nodup_all : w.pool.vecAllObj.Nodup
  /-- `Allocate` returns an object of the pool that is not handed out. -/
  allocate : ∃ w' p, w.allocate malloc = (w', some p) ∧ p ∈ w'.pool.vecAllObj ∧
    p ∉ w'.pool.vecFreeObj ∧ p ∉ w.handedOut ∧ p ≠ null
  /-- An assertion of `Free` fails exactly for pointers that are not handed out. -/
  free_iff : ∀ p, (w.free p).2 ≠ .returned ↔ p ∉ w.handedOut
  /-- `Free` makes the object available: it is free, and the next one that is allocated. -/
  free_back : ∀ p ∈ w.handedOut, p ∈ (w.free p).1.pool.vecFreeObj ∧
    p ∉ (w.free p).1.handedOut ∧ ((w.free p).1.allocate malloc).2 = some p
  /-- `SetBufferSize` does nothing to a pool that is not empty. -/
  setBufferSize : w.pool.vecAllObj ≠ [] → ∀ n, w.setBufferSize malloc n = (w, false)
  /-- `GetAllocateNum` is the number of objects handed out, in 32 bits. -/
  getAllocateNum : w.getAllocateNum.toNat = w.handedOut.length % 2 ^ 32

/-- At first there is nothing. -/
theorem lent_start : start.Lent malloc := ⟨rfl, .empty⟩

/-! ## The operations -/

/-- A buffer that is set up holds new objects. -/
theorem Lent.setBufferSize (hinj : malloc.Injective) (h : w.Lent malloc) (n : UInt32) :
    (w.setBufferSize malloc n).1.Lent malloc := by
  rw [PoolWorld.setBufferSize]
  split_ifs with hall
  · exact h
  · -- an empty pool never called `malloc`
    have hnone : w.pool.vecAllObj = [] := not_not.mp hall
    have hzero : w.mallocs = 0 := by
      have hlen := congrArg List.length h.all_eq
      simpa [hnone, eq_comm] using hlen
    have hout : w.handedOut = [] := by
      have hlen := h.lending.length_eq
      rw [hnone, List.length_nil] at hlen
      exact List.eq_nil_of_length_eq_zero (by omega)
    refine ⟨?_, ?_⟩
    · simp [hzero]
    · rw [hout]
      refine .of_nodup (List.Nodup.map (fun i j he => ?_) List.nodup_range)
      have hij := hinj he
      omega

/-- What `malloc` returns is new. -/
theorem Lent.malloc_notMem (hinj : malloc.Injective) (h : w.Lent malloc) :
    malloc w.mallocs ∉ w.pool.vecAllObj := by
  rw [h.all_eq, List.mem_map]
  rintro ⟨i, hi, he⟩
  exact absurd (hinj he) (Nat.ne_of_lt (List.mem_range.mp hi))

/-- A new object is free. -/
theorem Lent.grow (hinj : malloc.Injective) (h : w.Lent malloc) : (w.grow malloc).Lent malloc := by
  refine ⟨?_, h.lending.join (h.malloc_notMem hinj)⟩
  rw [PoolWorld.grow, h.all_eq, List.range_succ, List.map_append]
  rfl

/-- So are many. -/
theorem Lent.grow_iterate (hinj : malloc.Injective) (h : w.Lent malloc) (n : Nat) :
    ((PoolWorld.grow malloc)^[n] w).Lent malloc := by
  induction n with
  | zero => exact h
  | succ n ih =>
    rw [Function.iterate_succ_apply']
    exact ih.grow hinj

/-- The growth loop hands nothing out, and leaves a free object. -/
theorem grow_iterate_handedOut (w : PoolWorld α) (n : Nat) :
    ((grow malloc)^[n] w).handedOut = w.handedOut ∧
      ((grow malloc)^[n] w).aborted = w.aborted ∧
      ((grow malloc)^[n] w).pool.vecFreeObj.length = w.pool.vecFreeObj.length + n := by
  induction n with
  | zero => exact ⟨rfl, rfl, rfl⟩
  | succ n ih =>
    rw [Function.iterate_succ_apply']
    refine ⟨ih.1, ih.2.1, ?_⟩
    rw [grow, List.length_append, ih.2.2]
    rfl

/-- What `Allocate` does: it lends the last of the free objects, behind the growth step if
there was none. -/
theorem allocate_cases (hinj : malloc.Injective) (h : w.Lent malloc) :
    ∃ v free p, v.Lent malloc ∧ v.handedOut = w.handedOut ∧ v.aborted = w.aborted ∧
      v.pool.vecFreeObj = free ++ [p] ∧ (w.pool.vecFreeObj ≠ [] → v = w) ∧
      w.allocate malloc = ({ v with
        pool := { v.pool with vecFreeObj := free }, handedOut := v.handedOut ++ [p] }, some p) := by
  obtain ⟨v, hv⟩ :
      ∃ v, v = if w.pool.vecFreeObj.isEmpty then (PoolWorld.grow malloc)^[1000] w else w :=
    ⟨_, rfl⟩
  have hlent : v.Lent malloc ∧ v.handedOut = w.handedOut ∧ v.aborted = w.aborted ∧
      v.pool.vecFreeObj ≠ [] ∧ (w.pool.vecFreeObj ≠ [] → v = w) := by
    split_ifs at hv with hempty
    · obtain ⟨hout, hab, hlen⟩ := @grow_iterate_handedOut α malloc w 1000
      rw [hv]
      refine ⟨h.grow_iterate hinj 1000, hout, hab, List.ne_nil_of_length_pos (by omega), ?_⟩
      exact fun hne => absurd (List.isEmpty_iff.mp hempty) hne
    · rw [hv]
      exact ⟨h, rfl, rfl, fun he => hempty (List.isEmpty_iff.mpr he), fun _ => rfl⟩
  obtain ⟨hl, hout, hab, hne, hsame⟩ := hlent
  refine ⟨v, v.pool.vecFreeObj.dropLast, v.pool.vecFreeObj.getLast hne, hl, hout, hab,
    (List.dropLast_append_getLast hne).symm, hsame, ?_⟩
  rw [PoolWorld.allocate, ← hv, List.getLast?_eq_some_getLast hne]

/-- An object is handed out that was free. -/
theorem Lent.allocate (hinj : malloc.Injective) (h : w.Lent malloc) :
    (w.allocate malloc).1.Lent malloc := by
  obtain ⟨v, free, p, hv, -, -, hfree, -, hal⟩ := allocate_cases hinj h
  rw [hal]
  exact ⟨hv.all_eq, (hfree ▸ hv.lending).lend⟩

/-- The count is the number of objects that are out, in 32 bits. -/
theorem Lent.getAllocateNum (h : w.Lent malloc) :
    w.getAllocateNum.toNat = w.handedOut.length % 2 ^ 32 := by
  have hlen := h.lending.length_eq
  rw [PoolWorld.getAllocateNum, if_neg (by omega), hlen, Nat.add_sub_cancel_left]
  exact UInt32.toNat_ofNat'

variable [DecidableEq α]

/-- An object that is not out is not taken back. -/
theorem free_of_notMem (h : w.Lent malloc) (hp : p ∉ w.handedOut) :
    (w.free p).2 ≠ .returned ∧ (w.free p).1 = { w with aborted := true } := by
  rw [PoolWorld.free]
  by_cases hall : p ∈ w.pool.vecAllObj
  · have hfree : p ∈ w.pool.vecFreeObj := by
      by_contra hne
      exact hp (h.lending.mem_out_iff.mpr ⟨hall, hne⟩)
    rw [if_neg (not_not.mpr hall), if_pos hfree]
    exact ⟨by simp, rfl⟩
  · rw [if_pos hall]
    exact ⟨by simp, rfl⟩

/-- An object that is out is free again. -/
theorem free_of_mem (h : w.Lent malloc) (hp : p ∈ w.handedOut) :
    w.free p = ({ w with
      pool := { w.pool with vecFreeObj := w.pool.vecFreeObj ++ [p] }
      handedOut := w.handedOut.erase p }, .returned) := by
  obtain ⟨hall, hfree⟩ := h.lending.mem_out_iff.mp hp
  rw [PoolWorld.free, if_neg (not_not.mpr hall), if_neg hfree]

/-- A call of `Free` keeps every object in one place. -/
theorem Lent.free (h : w.Lent malloc) (p : α) : (w.free p).1.Lent malloc := by
  by_cases hp : p ∈ w.handedOut
  · rw [free_of_mem h hp]
    exact ⟨h.all_eq, h.lending.giveBack hp⟩
  · rw [(free_of_notMem h hp).2]
    exact ⟨h.all_eq, h.lending⟩

/-- So does every call. -/
theorem Lent.step (hinj : malloc.Injective) (h : w.Lent malloc) (c : PoolCall α) :
    (w.step malloc c).Lent malloc := by
  unfold PoolWorld.step
  split_ifs
  · exact h
  · cases c with
    | setBufferSize n => exact h.setBufferSize hinj n
    | allocate => exact h.allocate hinj
    | free p => exact h.free p

/-! ## Runs -/

/-- Where every object is in one place, the pool is sound. -/
theorem Lent.sound {null : α} (hinj : malloc.Injective) (hnull : ∀ k, malloc k ≠ null)
    (h : w.Lent malloc) : w.Sound malloc null where
  nodup_free := h.lending.nodup_free
  free_subset := h.lending.free_subset
  nodup_all := h.lending.nodup
  allocate := by
    obtain ⟨v, free, p, hv, hout, -, hfree, -, hal⟩ := allocate_cases hinj h
    have hl : Lending v.pool.vecAllObj (free ++ [p]) w.handedOut := hout ▸ hfree ▸ hv.lending
    have hmem : p ∈ free ++ [p] := by simp
    have hall : p ∈ v.pool.vecAllObj := hl.free_subset hmem
    refine ⟨_, p, hal, hall, ?_, hl.notMem_out hmem, ?_⟩
    · exact hl.lend.mem_out_iff.mp (by simp) |>.2
    · rw [hv.all_eq, List.mem_map] at hall
      obtain ⟨k, -, rfl⟩ := hall
      exact hnull k
  free_iff p := by
    by_cases hp : p ∈ w.handedOut
    · rw [free_of_mem h hp]
      exact iff_of_false (not_not.mpr rfl) (not_not.mpr hp)
    · exact iff_of_true (free_of_notMem h hp).1 hp
  free_back p hp := by
    have hnext := h.free p
    obtain ⟨v, free, q, hv, -, -, hfree, hsame, hal⟩ := allocate_cases hinj hnext
    rw [free_of_mem h hp] at hnext hsame hal ⊢
    have hmem : p ∈ w.pool.vecFreeObj ++ [p] := by simp
    refine ⟨hmem, hnext.lending.notMem_out hmem, ?_⟩
    rw [hal]
    rw [hsame (by simp)] at hfree
    exact congrArg some (List.append_inj_right' hfree rfl |> List.singleton_inj.mp).symm
  setBufferSize hne n := by rw [PoolWorld.setBufferSize, if_pos hne]
  getAllocateNum := h.getAllocateNum

/-- In every state of every run of calls, objects are handed out once, taken back exactly when
they are handed out, and counted in 32 bits. -/
theorem sound_of_mem_scanl (malloc : Nat → α) (null : α) (hinj : malloc.Injective)
    (hnull : ∀ k, malloc k ≠ null) (cs : List (PoolCall α)) :
    ∀ w ∈ cs.scanl (step malloc) start, w.Sound malloc null :=
  fun w hw => (forall_scanl (fun _ c h => h.step hinj c) lent_start cs w hw).sound hinj hnull

/-- An object is allocated from a pool of two, given back and allocated again. -/
theorem sound_allocatedAgain :
    ([.setBufferSize 2, .allocate, .free 2, .allocate].foldl (step Nat.succ) start).Sound
      Nat.succ 0 :=
  sound_of_mem_scanl Nat.succ 0 Nat.succ_injective Nat.succ_ne_zero _ _ (foldl_mem_scanl ..)

/-- So many calls of `Allocate`. -/
def allocates (malloc : Nat → α) (n : Nat) : PoolWorld α :=
  (List.replicate n .allocate).foldl (step malloc) start

/-- So many calls hand out so many objects. -/
theorem allocates_handedOut (hinj : malloc.Injective) (n : Nat) :
    (allocates malloc n).Lent malloc ∧ (allocates malloc n).aborted = false ∧
      (allocates malloc n).handedOut.length = n := by
  induction n with
  | zero => exact ⟨lent_start, rfl, rfl⟩
  | succ n ih =>
    obtain ⟨hl, hab, hlen⟩ := ih
    obtain ⟨v, free, p, -, hout, hva, -, -, hal⟩ := allocate_cases hinj hl
    have hstep : allocates malloc (n + 1) = ((allocates malloc n).allocate malloc).1 := by
      rw [allocates, List.replicate_succ', List.foldl_append]
      exact if_neg (by rw [← allocates, hab]; exact Bool.false_ne_true)
    rw [hstep]
    refine ⟨hl.allocate hinj, ?_, ?_⟩
    · rw [hal]
      exact hva.trans hab
    · rw [hal, List.length_append, hout, hlen]
      rfl

/-- With `2 ^ 32` objects handed out, `GetAllocateNum` gives zero. -/
theorem getAllocateNum_wraps :
    (allocates Nat.succ (2 ^ 32)).handedOut.length = 2 ^ 32 ∧
      (allocates Nat.succ (2 ^ 32)).getAllocateNum = 0 := by
  obtain ⟨hl, -, hlen⟩ := allocates_handedOut Nat.succ_injective (2 ^ 32)
  refine ⟨hlen, UInt32.toNat.inj ?_⟩
  rw [hl.getAllocateNum, hlen]
  rfl

end PoolWorld

end ServerCom.Pool
