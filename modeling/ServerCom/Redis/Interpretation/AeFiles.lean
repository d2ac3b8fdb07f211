import ServerCom.Redis.Native.EventLoop

/-!
# The file events of the loop

The loop and the kernel wait for the same events, and `maxfd` is the highest descriptor among
them. What an operation does to the events of one descriptor it does to no other.
-/

namespace ServerCom.Redis

namespace AeMask

/-- A mask with an event added is not empty. -/
theorem or_ne_none {m m' : AeMask} (h : m' ≠ .none) : m.or m' ≠ .none := by
  obtain ⟨r, w⟩ := m
  obtain ⟨r', w'⟩ := m'
  cases r <;> cases w <;> cases r' <;> cases w' <;> first | exact absurd rfl h | exact by decide

theorem or_comm (m m' : AeMask) : m.or m' = m'.or m := by
  rw [AeMask.or, AeMask.or, Bool.or_comm, Bool.or_comm m.writable]

/-- Nothing can be taken from an empty mask. -/
theorem none_diff (mask : AeMask) : none.diff mask = .none := rfl

/-- A mask is not empty when it waits for one of the two. -/
theorem ne_none_iff {m : AeMask} : m ≠ .none ↔ m.readable = true ∨ m.writable = true := by
  obtain ⟨r, w⟩ := m
  cases r <;> cases w <;> decide

end AeMask

namespace AeEventLoop

variable {π δ τ : Type*} {l : AeEventLoop π δ τ} {events : List (AeFileEvent π δ)}
  {fd fd' n : ℕ} {mask : AeMask}

/-- The events are in order. -/
structure Files (l : AeEventLoop π δ τ) : Prop where
  /-- Every descriptor below `setsize` has a place. -/
  length : l.events.length = l.setsize
  /-- No descriptor with events is above `maxfd`. -/
  top : ∀ fd, l.mask fd ≠ .none → (fd : Int) ≤ l.maxfd
  /-- It is one of them. -/
  attained : l.maxfd = -1 ∨ ∃ fd : ℕ, l.maxfd = fd ∧ l.mask fd ≠ .none
  /-- The kernel waits for the same events. -/
  epoll : ∀ fd, l.epoll fd = if l.mask fd = .none then none else some (l.mask fd)

/-- A new loop has no event, and `epoll` waits for nothing. -/
theorem files_create (setsize now : ℕ) : (create setsize now : AeEventLoop π δ τ).Files := by
  have hmask : ∀ fd, (create setsize now : AeEventLoop π δ τ).mask fd = .none := by
    intro fd
    rw [AeEventLoop.mask, maskAt, create, List.getElem?_replicate]
    split_ifs <;> rfl
  refine ⟨List.length_replicate, fun fd h => absurd (hmask fd) h, .inl rfl, fun fd => ?_⟩
  rw [hmask, if_pos rfl]
  rfl

/-- Descriptors with events have a place. -/
theorem Files.lt_setsize (h : l.Files) (hmask : l.mask fd ≠ .none) : fd < l.setsize := by
  rw [← h.length]
  by_contra hle
  rw [AeEventLoop.mask, maskAt, List.getElem?_eq_none (Nat.le_of_not_lt hle)] at hmask
  exact hmask rfl

/-- A socket is in `epoll` exactly when it has an event. -/
theorem Files.isSome_epoll (h : l.Files) : (l.epoll fd).isSome ↔ l.mask fd ≠ .none := by
  rw [h.epoll]
  split_ifs with hmask
  · exact iff_of_false Bool.false_ne_true (not_not.mpr hmask)
  · exact iff_of_true rfl hmask

/-- A socket that is not in `epoll` can be added. -/
theorem epollCtl_add {epoll : ℕ → Option AeMask} (h : epoll fd = none) (mask : AeMask) :
    epollCtl epoll .add fd mask = some (Function.update epoll fd (some mask)) := by
  rw [epollCtl.eq_def, h]

/-- A socket in `epoll` can be changed. -/
theorem epollCtl_mod {epoll : ℕ → Option AeMask} {m : AeMask} (h : epoll fd = some m)
    (mask : AeMask) :
    epollCtl epoll .mod fd mask = some (Function.update epoll fd (some mask)) := by
  rw [epollCtl.eq_def, h]

/-- A socket in `epoll` can be taken out. -/
theorem epollCtl_del {epoll : ℕ → Option AeMask} {m : AeMask} (h : epoll fd = some m)
    (mask : AeMask) : epollCtl epoll .del fd mask = some (Function.update epoll fd none) := by
  rw [epollCtl.eq_def, h]

/-- Where one event changes, its mask changes. -/
theorem maskAt_modify (f : AeFileEvent π δ → AeFileEvent π δ) (g : AeMask → AeMask)
    (hf : ∀ fe, (f fe).mask = g fe.mask) (hg : g .none = .none ∨ fd < events.length) :
    maskAt (events.modify fd f) fd' =
      if fd = fd' then g (maskAt events fd') else maskAt events fd' := by
  rw [maskAt, maskAt, List.getElem?_modify]
  split_ifs with heq
  · subst heq
    cases hfe : events[fd]? with
    | none =>
      rcases hg with hg | hlt
      · exact hg.symm
      · exact absurd (List.getElem?_eq_none_iff.mp hfe) (Nat.not_le.mpr hlt)
    | some fe => exact hf fe
  · cases events[fd']? <;> rfl

/-- The search finds the highest descriptor with events. -/
theorem lastUsed_spec (events : List (AeFileEvent π δ)) (n : ℕ) :
    (∀ j < n, maskAt events j ≠ .none → (j : Int) ≤ lastUsed events n) ∧
    (lastUsed events n = -1 ∨
      ∃ j < n, lastUsed events n = (j : ℕ) ∧ maskAt events j ≠ .none) := by
  induction n with
  | zero => exact ⟨fun j hj => absurd hj (Nat.not_lt_zero j), .inl rfl⟩
  | succ n ih =>
    rw [lastUsed]
    split_ifs with hmask
    · exact ⟨fun j hj _ => by omega, .inr ⟨n, Nat.lt_succ_self n, rfl, hmask⟩⟩
    · refine ⟨fun j hj hj' => ?_, ih.2.imp_right ?_⟩
      · rcases Nat.lt_succ_iff_lt_or_eq.mp hj with hlt | rfl
        · exact ih.1 j hlt hj'
        · exact absurd hj' hmask
      · rintro ⟨j, hj, hlast⟩
        exact ⟨j, Nat.lt_succ_of_lt hj, hlast⟩

/-! ## Operations -/

/-- `epoll_ctl` has no error of its own while the kernel waits for what the loop waits for. -/
theorem Files.apiAddEvent (h : l.Files) (fd : ℕ) (mask : AeMask) (fails : Bool) :
    l.apiAddEvent fd mask fails =
      if fails then none else some (Function.update l.epoll fd (some (mask.or (l.mask fd)))) := by
  have hepoll := h.epoll fd
  rw [AeEventLoop.apiAddEvent]
  by_cases hmask : l.mask fd = .none
  · rw [if_pos hmask] at hepoll ⊢
    rw [epollCtl_add hepoll]
  · rw [if_neg hmask] at hepoll ⊢
    rw [epollCtl_mod hepoll]

/-- What `aeCreateFileEvent` does: nothing, or it adds to the mask of one descriptor. -/
theorem Files.createFileEvent (h : l.Files) (hmask : mask ≠ .none) (fd : ℕ) (proc : π)
    (clientData : δ) (fails : Bool) :
    ∃ l', l.createFileEvent fd mask proc clientData fails =
        (decide (fd < l.setsize) && !fails, l') ∧ l'.Files ∧ l'.setsize = l.setsize ∧
      l'.events = if decide (fd < l.setsize) && !fails then
        l.events.modify fd (·.add mask proc clientData) else l.events := by
  rw [AeEventLoop.createFileEvent, h.apiAddEvent]
  by_cases hsize : l.setsize ≤ fd
  · rw [if_pos hsize, decide_eq_false (Nat.not_lt.mpr hsize)]
    exact ⟨l, rfl, h, rfl, rfl⟩
  rw [if_neg hsize, decide_eq_true (Nat.lt_of_not_le hsize)]
  cases fails with
  | true => exact ⟨l, rfl, h, rfl, rfl⟩
  | false =>
    have hlt : fd < l.events.length := by
      rw [h.length]
      exact Nat.lt_of_not_le hsize
    have hmasks : ∀ fd', maskAt (l.events.modify fd (·.add mask proc clientData)) fd' =
        if fd = fd' then (l.mask fd').or mask else l.mask fd' := fun fd' =>
      maskAt_modify _ (·.or mask) (fun _ => rfl) (.inr hlt)
    refine ⟨_, rfl, ⟨?_, fun fd' hne => ?_, .inr ?_, fun fd' => ?_⟩, rfl, rfl⟩
    · dsimp only
      rw [List.length_modify, h.length]
    · replace hne := (hmasks fd').symm.trans_ne hne
      have htop := h.top fd'
      dsimp only
      by_cases heq : fd = fd'
      · split_ifs <;> omega
      · rw [if_neg heq] at hne
        have := htop hne
        split_ifs <;> omega
    · dsimp only
      split_ifs with hmax
      · refine ⟨fd, rfl, ?_⟩
        rw [AeEventLoop.mask, hmasks, if_pos rfl]
        exact AeMask.or_ne_none hmask
      · rcases h.attained with hnone | ⟨m, hm, hne⟩
        · omega
        · refine ⟨m, hm, ?_⟩
          rw [AeEventLoop.mask, hmasks]
          split_ifs
          · exact AeMask.or_ne_none hmask
          · exact hne
    · refine Eq.trans ?_ (congrArg (fun m => if m = AeMask.none then none else some m)
        (hmasks fd').symm)
      dsimp only
      by_cases heq : fd = fd'
      · subst heq
        rw [if_pos rfl, Function.update_self, if_neg (AeMask.or_ne_none hmask), AeMask.or_comm]
      · rw [if_neg heq, Function.update_of_ne (Ne.symm heq), h.epoll]

/-- `aeApiDelEvent` takes a socket out of `epoll` with its last event only. -/
theorem Files.apiDelEvent (h : l.Files) (hne : l.mask fd ≠ .none) (mask : AeMask) :
    l.apiDelEvent fd mask = Function.update l.epoll fd
      (if (l.mask fd).diff mask = .none then none else some ((l.mask fd).diff mask)) := by
  have hepoll := h.epoll fd
  rw [if_neg hne] at hepoll
  rw [AeEventLoop.apiDelEvent]
  by_cases hdiff : (l.mask fd).diff mask = .none
  · rw [if_pos hdiff, if_neg (not_not.mpr hdiff), epollCtl_del hepoll]
    rfl
  · rw [if_neg hdiff, if_pos hdiff, epollCtl_mod hepoll]
    rfl

/-- Without events there is nothing to remove. -/
theorem modify_remove_eq_self (h : maskAt events fd = .none) (mask : AeMask) :
    events.modify fd (·.remove mask) = events := by
  refine List.ext_getElem? fun fd' => ?_
  rw [List.getElem?_modify]
  cases hfe : events[fd']? with
  | none => rfl
  | some fe =>
    by_cases heq : fd = fd'
    · subst heq
      rw [maskAt, hfe] at h
      have hnone : fe.mask = .none := h
      refine congrArg some ((if_pos rfl).trans ?_)
      rw [AeFileEvent.remove, hnone, AeMask.none_diff, ← hnone]
    · exact congrArg some (if_neg heq)

/-- What `aeDeleteFileEvent` does: it removes from the mask of one descriptor. -/
theorem Files.deleteFileEvent (h : l.Files) (fd : ℕ) (mask : AeMask) :
    (l.deleteFileEvent fd mask).Files ∧ (l.deleteFileEvent fd mask).setsize = l.setsize ∧
      (l.deleteFileEvent fd mask).events = l.events.modify fd (·.remove mask) := by
  rw [AeEventLoop.deleteFileEvent]
  by_cases hsize : l.setsize ≤ fd
  · have hnone : l.mask fd = .none := by
      by_contra hne
      exact absurd (h.lt_setsize hne) (Nat.not_lt.mpr hsize)
    rw [if_pos hsize]
    exact ⟨h, rfl, (modify_remove_eq_self hnone mask).symm⟩
  rw [if_neg hsize]
  by_cases hne : l.mask fd = .none
  · rw [if_pos hne]
    exact ⟨h, rfl, (modify_remove_eq_self hne mask).symm⟩
  rw [if_neg hne, h.apiDelEvent hne]
  have hmasks : ∀ fd', maskAt (l.events.modify fd (·.remove mask)) fd' =
      if fd = fd' then (l.mask fd').diff mask else l.mask fd' := fun fd' =>
    maskAt_modify _ (·.diff mask) (fun _ => rfl) (.inl rfl)
  have htop := h.top fd hne
  refine ⟨⟨?_, fun fd' hne' => ?_, ?_, fun fd' => ?_⟩, rfl, rfl⟩
  · dsimp only
    rw [List.length_modify, h.length]
  · have hnew : maskAt (l.events.modify fd (·.remove mask)) fd' ≠ .none := hne'
    have hold : l.mask fd' ≠ .none := by
      intro hnone
      rw [hmasks, hnone, AeMask.none_diff, ite_self] at hnew
      exact hnew rfl
    have hle := h.top fd' hold
    dsimp only
    split_ifs with hmax
    · have hother : fd ≠ fd' := by
        rintro rfl
        rw [hmasks, if_pos rfl] at hnew
        exact hnew hmax.2
      exact (lastUsed_spec _ fd).1 fd' (by omega) hnew
    · exact hle
  · dsimp only
    by_cases hmax : l.maxfd = fd ∧ (l.mask fd).diff mask = .none
    · rw [if_pos hmax]
      refine (lastUsed_spec _ fd).2.imp_right ?_
      rintro ⟨j, -, hj⟩
      exact ⟨j, hj⟩
    · rw [if_neg hmax]
      rcases h.attained with hnone | ⟨m, hm, hne'⟩
      · omega
      · refine .inr ⟨m, hm, ?_⟩
        rw [AeEventLoop.mask, hmasks]
        split_ifs with heq
        · subst heq
          exact fun hdiff => hmax ⟨hm, hdiff⟩
        · exact hne'
  · refine Eq.trans ?_ (congrArg (fun m => if m = AeMask.none then none else some m)
      (hmasks fd').symm)
    dsimp only
    by_cases heq : fd = fd'
    · subst heq
      rw [if_pos rfl, Function.update_self]
    · rw [if_neg heq, Function.update_of_ne (Ne.symm heq), h.epoll]

/-- What `aeResizeSetSize` does: it takes no events away. -/
theorem Files.resizeSetSize (h : l.Files) (setsize : ℕ) (junk : AeFileEvent π δ) :
    (l.resizeSetSize setsize junk).2.Files ∧
      (∀ fd, (l.resizeSetSize setsize junk).2.mask fd = l.mask fd) ∧
      ((l.resizeSetSize setsize junk).1 = true ↔ ∀ fd, l.mask fd ≠ .none → fd < setsize) := by
  rw [AeEventLoop.resizeSetSize]
  by_cases hsame : setsize = l.setsize
  · rw [if_pos hsame, hsame]
    exact ⟨h, fun _ => rfl, iff_of_true rfl fun fd hne => h.lt_setsize hne⟩
  rw [if_neg hsame]
  by_cases hsmall : (setsize : Int) ≤ l.maxfd
  · rw [if_pos hsmall]
    refine ⟨h, fun _ => rfl, iff_of_false Bool.false_ne_true fun hall => ?_⟩
    rcases h.attained with hnone | ⟨m, hm, hne⟩
    · omega
    · have := hall m hne
      omega
  rw [if_neg hsmall]
  have hmasks : ∀ fd, maskAt ((l.events.take setsize ++
      .replicate (setsize - l.setsize) junk).mapIdx fun i fe =>
        if l.maxfd < i then { fe with mask := .none } else fe) fd = l.mask fd := by
    intro fd
    rw [maskAt, List.getElem?_mapIdx]
    by_cases hfd : l.maxfd < fd
    · have hnone : l.mask fd = .none := by
        by_contra hne
        have := h.top fd hne
        omega
      rw [hnone]
      cases (l.events.take setsize ++ List.replicate (setsize - l.setsize) junk)[fd]? with
      | none => rfl
      | some fe => exact congrArg AeFileEvent.mask (if_pos hfd)
    · have hplace : fd < l.events.length := by
        rw [h.length]
        rcases h.attained with hnone | ⟨m, hm, hne⟩
        · omega
        · have := h.lt_setsize hne
          omega
      have hleft : fd < (l.events.take setsize).length := by
        rw [List.length_take]
        omega
      rw [List.getElem?_append_left hleft, List.getElem?_take_of_lt (by omega), AeEventLoop.mask,
        maskAt]
      cases l.events[fd]? with
      | none => rfl
      | some fe => exact congrArg AeFileEvent.mask (if_neg hfd)
  refine ⟨⟨?_, fun fd hne => ?_, ?_, fun fd => ?_⟩, hmasks, iff_of_true rfl fun fd hne => ?_⟩
  · dsimp only
    rw [List.length_mapIdx, List.length_append, List.length_take, List.length_replicate, h.length]
    omega
  · exact h.top fd ((hmasks fd).symm.trans_ne hne)
  · rcases h.attained with hnone | ⟨m, hm, hne⟩
    · exact .inl hnone
    · exact .inr ⟨m, hm, (hmasks m).trans_ne hne⟩
  · exact (h.epoll fd).trans (congrArg (fun m => if m = AeMask.none then none else some m)
      (hmasks fd).symm)
  · have := h.top fd hne
    omega

end AeEventLoop

end ServerCom.Redis
