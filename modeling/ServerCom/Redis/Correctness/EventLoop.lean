import ServerCom.Core.Machine.Guarded
import ServerCom.Redis.Interpretation.AeAttached

/-!
# The event loop and its contexts

In every run of its operations the loop waits for what it was asked to, and knows its highest
descriptor. With contexts on it, it never calls for one that was freed or that does not want
it, and the kernel waits for exactly what the contexts want, unless their sockets have numbers
that the loop has no place for.
-/

namespace ServerCom.Redis

open Machine

namespace AeEventLoop

variable {π δ τ : Type*} {l : AeEventLoop π δ τ}

/-- An operation on file events. -/
inductive FileOp (π δ : Type*) where
  /-- `aeCreateFileEvent`. -/
  | create (fd : ℕ) (mask : AeMask) (proc : π) (clientData : δ) (fails : Bool)
  /-- `aeDeleteFileEvent`. -/
  | delete (fd : ℕ) (mask : AeMask)
  /-- `aeResizeSetSize`. -/
  | resize (setsize : ℕ) (junk : AeFileEvent π δ)

/-- The loop behind an operation. -/
def fileOp (l : AeEventLoop π δ τ) : FileOp π δ → AeEventLoop π δ τ
  | .create fd mask proc clientData fails => (l.createFileEvent fd mask proc clientData fails).2
  | .delete fd mask => l.deleteFileEvent fd mask
  | .resize setsize junk => (l.resizeSetSize setsize junk).2

/-- An event that is created waits for something. -/
def FileOp.Waits : FileOp π δ → Prop
  | .create _ mask _ _ _ => mask ≠ .none
  | _ => True

instance (op : FileOp π δ) : Decidable op.Waits :=
  match op with
  | .create _ mask _ _ _ => inferInstanceAs (Decidable (mask ≠ .none))
  | .delete _ _ | .resize _ _ => .isTrue trivial

/-- Every operation keeps the events, their masks and `epoll` in step. -/
theorem Files.fileOp (h : l.Files) {op : FileOp π δ} (hop : op.Waits) : (l.fileOp op).Files := by
  cases op with
  | create fd mask proc clientData fails =>
    obtain ⟨l', hcreate, hl', -⟩ := h.createFileEvent hop fd proc clientData fails
    rw [AeEventLoop.fileOp, hcreate]
    exact hl'
  | delete fd mask => exact (h.deleteFileEvent fd mask).1
  | resize setsize junk => exact (h.resizeSetSize setsize junk).1

/-- After any operations the kernel waits for what the masks say, every descriptor with events
has a place, and `maxfd` is the highest of them, or -1. A new size is refused exactly when a
descriptor with events has no place in it, and it never takes events away. -/
theorem masks_in_order (setsize now : ℕ) {ops : List (FileOp π δ)} (h : ∀ op ∈ ops, op.Waits) :
    ∀ l ∈ ops.scanl fileOp (create setsize now : AeEventLoop π δ τ),
      (∀ fd, l.epoll fd = if l.mask fd = .none then none else some (l.mask fd)) ∧
      (∀ fd, l.mask fd ≠ .none → fd < l.setsize ∧ (fd : Int) ≤ l.maxfd) ∧
      (l.maxfd = -1 ∨ ∃ fd : ℕ, l.maxfd = fd ∧ l.mask fd ≠ .none) ∧
      ∀ size junk, (∀ fd, (l.resizeSetSize size junk).2.mask fd = l.mask fd) ∧
        ((l.resizeSetSize size junk).1 = true ↔ ∀ fd, l.mask fd ≠ .none → fd < size) := by
  intro l hl
  have hstep : ∀ (l : AeEventLoop π δ τ) (op : FileOp π δ), l.Files → op.Waits →
      (l.fileOp op).Files := fun l op hl hop => hl.fileOp hop
  have hl : l.Files := Along.forall_scanl hstep (files_create setsize now) (along_const.mpr h) l hl
  exact ⟨hl.epoll, fun fd hne => ⟨hl.lt_setsize hne, hl.top fd hne⟩, hl.attained,
    fun size junk => (hl.resizeSetSize size junk).2⟩

/-- Two descriptors, of which the higher one is deleted. -/
def twoFiles : List (FileOp ℕ ℕ) :=
  [.create 3 ⟨true, false⟩ 0 0 false, .create 5 ⟨false, true⟩ 1 1 false, .delete 5 ⟨false, true⟩]

theorem masks_in_order_twoFiles :
    let l : AeEventLoop ℕ ℕ Unit := twoFiles.foldl fileOp (create 8 0)
    l.maxfd = 3 ∧ l.epoll 3 = some ⟨true, false⟩ ∧ (l.resizeSetSize 4 ⟨.none, none, none, none⟩).1 ∧
      ¬ (l.resizeSetSize 3 ⟨.none, none, none, none⟩).1 := by
  intro l
  have h : ∀ op ∈ twoFiles, op.Waits := by decide
  obtain ⟨hepoll, hplace, htop, hresize⟩ :=
    masks_in_order 8 0 h l (foldl_mem_scanl (create 8 0) twoFiles)
  have hmask : l.mask 3 = ⟨true, false⟩ := by decide +kernel
  refine ⟨by decide +kernel, by rw [hepoll, hmask]; decide, by decide +kernel, fun hok => ?_⟩
  exact absurd ((hresize 3 _).2.mp hok 3 (by rw [hmask]; decide)) (by decide)

end AeEventLoop

namespace AeSystem

open AeEventLoop

variable {s : AeSystem} {e fd : ℕ} {o o' : RedisAeEvents}

/-- What a step may call. -/
def CallsWanted (s s' : AeSystem) : Prop :=
  s'.calls = s.calls ∨ ∃ proc e o, s'.calls = s.calls ++ [(proc, e)] ∧
    s.object e = some o ∧ o.wants proc = true ∧ o.fd < s.loop.setsize

/-- A use of an object happens only where it is there. -/
theorem use_cases {P : AeSystem → Prop} {f : RedisAeEvents → AeSystem} (hs : P s)
    (hf : ∀ o, s.object e = some o → P (f o)) : P (s.use e f) := by
  rw [use]
  split_ifs
  · cases ho : s.object e with
    | none => exact hs
    | some o => exact hf o ho
  · exact hs

theorem calls_addRead (s : AeSystem) (e : ℕ) (o : RedisAeEvents) (fails : Bool) :
    (s.addRead e o fails).calls = s.calls := by
  rw [addRead]
  split_ifs <;> rfl

theorem calls_addWrite (s : AeSystem) (e : ℕ) (o : RedisAeEvents) (fails : Bool) :
    (s.addWrite e o fails).calls = s.calls := by
  rw [addWrite]
  split_ifs <;> rfl

theorem calls_delRead (s : AeSystem) (e : ℕ) (o : RedisAeEvents) :
    (s.delRead e o).calls = s.calls := by
  rw [delRead]
  split_ifs <;> rfl

theorem calls_delWrite (s : AeSystem) (e : ℕ) (o : RedisAeEvents) :
    (s.delWrite e o).calls = s.calls := by
  rw [delWrite]
  split_ifs <;> rfl

theorem calls_cleanup (s : AeSystem) (e : ℕ) (o : RedisAeEvents) :
    (s.cleanup e o).calls = s.calls :=
  (calls_delWrite ..).trans (calls_delRead ..)

/-- Every move keeps the events with their objects, and what it calls is wanted. -/
theorem Attached.step (h : s.Attached) (move : AeMove) :
    (s.step move).Attached ∧ CallsWanted s (s.step move) := by
  have hstay : s.Attached ∧ CallsWanted s s := ⟨h, .inl rfl⟩
  cases move with
  | attach fd =>
    rw [AeSystem.step]
    split_ifs with hfd
    · exact ⟨attached_attach h hfd.2, .inl rfl⟩
    · exact hstay
  | addRead e fails =>
    exact use_cases (P := fun s' => s'.Attached ∧ CallsWanted s s') hstay
      fun o ho => ⟨attached_addRead h ho fails, .inl (calls_addRead ..)⟩
  | delRead e =>
    exact use_cases (P := fun s' => s'.Attached ∧ CallsWanted s s') hstay
      fun o ho => ⟨attached_delRead h ho, .inl (calls_delRead ..)⟩
  | addWrite e fails =>
    exact use_cases (P := fun s' => s'.Attached ∧ CallsWanted s s') hstay
      fun o ho => ⟨attached_addWrite h ho fails, .inl (calls_addWrite ..)⟩
  | delWrite e =>
    exact use_cases (P := fun s' => s'.Attached ∧ CallsWanted s s') hstay
      fun o ho => ⟨attached_delWrite h ho, .inl (calls_delWrite ..)⟩
  | cleanup e =>
    exact use_cases (P := fun s' => s'.Attached ∧ CallsWanted s s') hstay
      fun o ho => ⟨attached_cleanup h ho, .inl (calls_cleanup ..)⟩
  | poll fired => exact ⟨(h.poll fired).attached, (h.poll fired).calls⟩
  | go => exact ⟨h.go.attached, h.go.calls⟩
  | ret => exact ⟨h.ret.attached, h.ret.calls⟩

/-- In every run the events belong to objects that are there. -/
theorem attached_run (setsize now : ℕ) (moves : List AeMove) :
    ∀ s ∈ moves.scanl step (start setsize now), s.Attached :=
  forall_scanl (fun _ move hs => (hs.step move).1) (attached_start setsize now) moves

/-- In no run is an object used that was freed, or an event that has no place. Whatever a call
did before to this or to other contexts, the next call is for an object that is there and
wants to be called so. -/
theorem calls_wanted (setsize now : ℕ) (moves : List AeMove) :
    ∀ s ∈ moves.scanl step (start setsize now), s.turn ≠ .undefined ∧
      ∀ move proc e, (s.step move).calls = s.calls ++ [(proc, e)] →
        ∃ o, s.object e = some o ∧ o.wants proc = true ∧ o.fd < s.loop.setsize := by
  intro s hs
  have hatt := attached_run setsize now moves s hs
  refine ⟨hatt.turn, fun move proc e hcalls => ?_⟩
  rcases (hatt.step move).2 with hsame | ⟨proc', e', o, hcall, ho, hwants, hlt⟩
  · rw [hsame] at hcalls
    cases List.self_eq_append_right.mp hcalls
  · rw [hcall] at hcalls
    obtain ⟨rfl, rfl⟩ := Prod.mk.inj (List.cons.inj (List.append_cancel_left hcalls)).1
    exact ⟨o, ho, hwants, hlt⟩

/-- Two sockets can be read, and the call for the first one frees the context of the second. -/
def freeOther : List AeMove :=
  [.attach 1, .attach 2, .addRead 0 false, .addRead 1 false,
    .poll [(1, ⟨true, false⟩), (2, ⟨true, false⟩)], .go, .cleanup 1, .ret]

theorem calls_wanted_freeOther : (freeOther.foldl step (start 8 0)).calls = [(.readEvent, 0)] ∧
    ∀ proc e, ((freeOther.foldl step (start 8 0)).step .go).calls =
        (freeOther.foldl step (start 8 0)).calls ++ [(proc, e)] →
      ∃ o, (freeOther.foldl step (start 8 0)).object e = some o := by
  refine ⟨by decide +kernel, fun proc e hcalls => ?_⟩
  obtain ⟨o, ho, -⟩ :=
    (calls_wanted 8 0 freeOther _ (foldl_mem_scanl ..)).2 .go proc e hcalls
  exact ⟨o, ho⟩

/-! ## What the kernel waits for -/

/-- The loop waits for what each object wants, if its socket has a place. -/
def Waits (s : AeSystem) : Prop :=
  ∀ e o, s.object e = some o → o.fd < s.loop.setsize → s.loop.mask o.fd = ⟨o.reading, o.writing⟩

/-- `epoll_ctl` does not fail. -/
def NoFailure : AeMove → Prop
  | .addRead _ fails | .addWrite _ fails => fails = false
  | _ => True

instance (move : AeMove) : Decidable (NoFailure move) :=
  match move with
  | .addRead _ fails | .addWrite _ fails => inferInstanceAs (Decidable (fails = false))
  | .attach _ | .delRead _ | .delWrite _ | .cleanup _ | .poll _ | .go | .ret => .isTrue trivial

/-- A change of one object and of the mask on its socket. -/
theorem Waits.change (hw : s.Waits) (h : s.Attached) (ho : s.object e = some o)
    {l : AeEventLoop AeProc ℕ Unit} (hsize : l.setsize = s.loop.setsize) (hfd : o'.fd = o.fd)
    (hother : ∀ fd, fd ≠ o.fd → l.mask fd = s.loop.mask fd)
    (hown : o.fd < s.loop.setsize → s.loop.mask o.fd = ⟨o.reading, o.writing⟩ →
      l.mask o.fd = ⟨o'.reading, o'.writing⟩) :
    ({ s.setObject e (some o') with loop := l }).Waits := by
  intro a oa ha hlt
  rw [object_set ho] at ha
  dsimp only at hlt ⊢
  rw [hsize] at hlt
  split_ifs at ha with heq
  · cases ha
    rw [hfd] at hlt ⊢
    exact hown hlt (hw e o ho hlt)
  · have hne : oa.fd ≠ o.fd := fun hfds => heq (h.distinct a e oa o ha ho hfds).symm
    rw [hother _ hne]
    exact hw a oa ha hlt

/-- An event that is added and the flag set with it agree. -/
theorem Waits.add (hw : s.Waits) (h : s.Attached) (ho : s.object e = some o) {mask : AeMask}
    (proc : AeProc) (hmask : mask ≠ .none) (hfd : o'.fd = o.fd)
    (hflags : AeMask.or ⟨o.reading, o.writing⟩ mask = ⟨o'.reading, o'.writing⟩) :
    ({ s.setObject e (some o') with
      loop := (s.loop.createFileEvent o.fd mask proc e false).2 }).Waits := by
  obtain ⟨l, hcreate, hl, hsize, hevents⟩ := h.files.createFileEvent hmask o.fd proc e false
  rw [hcreate]
  rw [Bool.not_false, Bool.and_true] at hevents
  have hmasks : ∀ fd, l.mask fd = if o.fd = fd ∧ o.fd < s.loop.setsize then
      (s.loop.mask fd).or mask else s.loop.mask fd := by
    intro fd
    rw [AeEventLoop.mask, hevents]
    by_cases hlt : o.fd < s.loop.setsize
    · rw [if_pos (decide_eq_true hlt), maskAt_modify _ (·.or mask) (fun _ => rfl)
        (.inr (by rw [h.files.length]; exact hlt))]
      simp only [hlt, and_true]
      rfl
    · rw [if_neg (by simpa using hlt), if_neg fun hboth => hlt hboth.2]
      rfl
  refine hw.change h ho hsize hfd (fun fd hne => ?_) fun hlt hold => ?_
  · rw [hmasks, if_neg fun hboth => hne hboth.1.symm]
  · rw [hmasks, if_pos ⟨rfl, hlt⟩, hold, hflags]

/-- An event that is deleted and the flag cleared with it agree. -/
theorem Waits.remove (hw : s.Waits) (h : s.Attached) (ho : s.object e = some o) {mask : AeMask}
    (hfd : o'.fd = o.fd)
    (hflags : AeMask.diff ⟨o.reading, o.writing⟩ mask = ⟨o'.reading, o'.writing⟩) :
    ({ s.setObject e (some o') with loop := s.loop.deleteFileEvent o.fd mask }).Waits := by
  obtain ⟨hl, hsize, hevents⟩ := h.files.deleteFileEvent o.fd mask
  have hmasks : ∀ fd, (s.loop.deleteFileEvent o.fd mask).mask fd =
      if o.fd = fd then (s.loop.mask fd).diff mask else s.loop.mask fd := by
    intro fd
    rw [AeEventLoop.mask, hevents]
    exact maskAt_modify _ (·.diff mask) (fun _ => rfl) (.inl rfl)
  refine hw.change h ho hsize hfd (fun fd hne => ?_) fun hlt hold => ?_
  · rw [hmasks, if_neg (Ne.symm hne)]
  · rw [hmasks, if_pos rfl, hold, hflags]

/-- `redisAeDelRead` clears the flag and the event together. -/
theorem Waits.delRead (hw : s.Waits) (h : s.Attached) (ho : s.object e = some o) :
    (s.delRead e o).Waits := by
  rw [AeSystem.delRead]
  split_ifs
  · exact hw.remove h ho rfl (by simp [AeMask.diff])
  · exact hw

/-- `redisAeDelWrite` clears the flag and the event together. -/
theorem Waits.delWrite (hw : s.Waits) (h : s.Attached) (ho : s.object e = some o) :
    (s.delWrite e o).Waits := by
  rw [AeSystem.delWrite]
  split_ifs
  · exact hw.remove h ho rfl (by simp [AeMask.diff])
  · exact hw

/-- A freed object wants nothing. -/
theorem Waits.free (hw : s.Waits) (ho : s.object e = some o) : (s.setObject e none).Waits := by
  intro a oa ha hlt
  have ha' := (object_set ho none s.loop).symm.trans ha
  split_ifs at ha'
  exact hw a oa ha' hlt

/-- A new object on a socket of its own wants nothing and has no event. -/
theorem Waits.attach (hw : s.Waits) (h : s.Attached)
    (hfd : ∀ o ∈ s.objects, ∀ o' ∈ o, o'.fd ≠ fd) : (s.attach fd).Waits := by
  intro a oa ha hlt
  rw [object_attach] at ha
  split_ifs at ha
  · cases ha
    -- nobody has left events on a socket that is new
    by_contra hne
    have hplace : fd < s.loop.events.length := by
      rw [h.files.length]
      exact hlt
    have hmask : s.loop.mask fd = (s.loop.events[fd]).mask := by
      rw [AeEventLoop.mask, maskAt, List.getElem?_eq_getElem hplace]
      rfl
    obtain ⟨e, o, ho, hofd, -⟩ := h.registered fd _ (List.getElem?_eq_getElem hplace)
      fun hnone => hne (hmask.trans hnone)
    exact fd_ne_of_object hfd ho hofd
  · exact hw a oa ha hlt

/-- Every move in which `epoll_ctl` does not fail keeps the loop waiting for what is wanted. -/
theorem Waits.step (hw : s.Waits) (h : s.Attached) {move : AeMove} (hmove : NoFailure move) :
    (s.step move).Waits := by
  have hcalled : ∀ {s'}, Called s s' → s'.Waits := by
    intro s' hs' e o ho hlt
    have hobject : s.object e = some o := by
      rw [← ho, object, object, hs'.same.1]
    rw [hs'.same.2] at hlt ⊢
    exact hw e o hobject hlt
  cases move with
  | attach fd =>
    rw [AeSystem.step]
    split_ifs with hfd
    · exact hw.attach h hfd.2
    · exact hw
  | addRead e fails =>
    have hfails : fails = false := hmove
    subst hfails
    refine use_cases hw fun o ho => ?_
    rw [AeSystem.addRead]
    split_ifs with hreading
    · exact hw
    · exact hw.add h ho .readEvent (by decide) rfl (by simp [AeMask.or])
  | addWrite e fails =>
    have hfails : fails = false := hmove
    subst hfails
    refine use_cases hw fun o ho => ?_
    rw [AeSystem.addWrite]
    split_ifs with hwriting
    · exact hw
    · exact hw.add h ho .writeEvent (by decide) rfl (by simp [AeMask.or])
  | delRead e => exact use_cases hw fun o ho => hw.delRead h ho
  | delWrite e => exact use_cases hw fun o ho => hw.delWrite h ho
  | cleanup e =>
    refine use_cases hw fun o ho => ?_
    have hdel := (hw.delRead h ho).delWrite (attached_delRead h ho) (object_delRead ho)
    exact hdel.free (object_delWrite (object_delRead ho))
  | poll fired => exact hcalled (h.poll fired)
  | go => exact hcalled h.go
  | ret => exact hcalled h.ret

end AeSystem

end ServerCom.Redis
