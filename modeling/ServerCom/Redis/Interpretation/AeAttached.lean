import ServerCom.Redis.Interpretation.AeFiles
import ServerCom.Redis.Native.LibAe

/-!
# Events of contexts

An event that is waited for belongs to one object that was not freed, on whose socket it is
and which wants it. So what is called for the event finds the object there.
-/

namespace ServerCom.Redis

/-- The descriptors the loop has still to look at. -/
def AeTurn.fds : AeTurn → List ℕ
  | .fired rest | .writing rest => rest.map Prod.fst
  | .reading fd _ rest => fd :: rest.map Prod.fst
  | .idle | .undefined => []

/-- What an object wants to be called. -/
def RedisAeEvents.wants (o : RedisAeEvents) : AeProc → Bool
  | .readEvent => o.reading
  | .writeEvent => o.writing

namespace AeSystem

open AeEventLoop

variable {s : AeSystem} {e e' fd : ℕ} {o o' : RedisAeEvents} {fe : AeFileEvent AeProc ℕ}
  {l : AeEventLoop AeProc ℕ Unit}

/-- An event belongs to an object, which wants it. -/
structure Watches (e : ℕ) (o : RedisAeEvents) (fe : AeFileEvent AeProc ℕ) : Prop where
  /-- Its data is the object. -/
  data : fe.clientData = some e
  /-- The object wants to read. -/
  read : fe.mask.readable = true → o.reading = true ∧ fe.rfileProc = some .readEvent
  /-- The object wants to write. -/
  write : fe.mask.writable = true → o.writing = true ∧ fe.wfileProc = some .writeEvent

/-- Every event belongs to an object that is there. -/
structure Attached (s : AeSystem) : Prop where
  /-- The events of the loop are in order. -/
  files : s.loop.Files
  /-- An event has its object. -/
  registered : ∀ fd fe, s.loop.events[fd]? = some fe → fe.mask ≠ .none →
    ∃ e o, s.object e = some o ∧ o.fd = fd ∧ Watches e o fe
  /-- Objects have different sockets. -/
  distinct : ∀ e e' o o', s.object e = some o → s.object e' = some o' → o.fd = o'.fd → e = e'
  /-- Only memory that is there was used. -/
  turn : s.turn ≠ .undefined
  /-- What fired has a place. -/
  fds : ∀ fd ∈ s.turn.fds, fd < s.loop.setsize

/-- A new loop has no event. -/
theorem attached_start (setsize now : ℕ) : (start setsize now).Attached where
  files := files_create setsize now
  registered fd fe hfe hne := by
    rw [start, create, List.getElem?_replicate] at hfe
    split_ifs at hfe
    cases hfe
    exact absurd rfl hne
  distinct e e' o o' ho := by
    rw [object, start, List.getElem?_nil] at ho
    cases ho
  turn h := by cases h
  fds fd h := absurd h List.not_mem_nil

/-! ## Objects -/

/-- The objects are numbered in the order they came. -/
theorem lt_of_object (h : s.object e = some o) : e < s.objects.length := by
  by_contra hle
  rw [object, List.getElem?_eq_none (Nat.le_of_not_lt hle)] at h
  cases h

/-- A changed object is the only one that changes. -/
theorem object_set (ho : s.object e = some o) (v : Option RedisAeEvents)
    (l : AeEventLoop AeProc ℕ Unit) :
    ({ s.setObject e v with loop := l }).object e' = if e = e' then v else s.object e' := by
  rw [object, setObject, List.getElem?_set]
  split_ifs with heq hlt
  · rfl
  · exact absurd (lt_of_object ho) hlt
  · rfl

/-- The event on the socket of an object is its own. -/
theorem Attached.watches (h : s.Attached) (ho : s.object e = some o)
    (hfe : s.loop.events[o.fd]? = some fe) (hne : fe.mask ≠ .none) : Watches e o fe := by
  obtain ⟨e', o', ho', hfd, hw⟩ := h.registered _ _ hfe hne
  obtain rfl := h.distinct e' e o' o ho' ho hfd
  rw [ho] at ho'
  cases ho'
  exact hw

/-- A change of an object and of the event on its socket. -/
theorem Attached.change (h : s.Attached) (ho : s.object e = some o) (hl : l.Files)
    (hsize : l.setsize = s.loop.setsize) (hfd : o'.fd = o.fd)
    (hother : ∀ fd, fd ≠ o.fd → l.events[fd]? = s.loop.events[fd]?)
    (hown : ∀ fe, l.events[o.fd]? = some fe → fe.mask ≠ .none → Watches e o' fe) :
    ({ s.setObject e (some o') with loop := l }).Attached where
  files := hl
  registered fd fe hfe hne := by
    by_cases heq : fd = o.fd
    · subst heq
      exact ⟨e, o', by rw [object_set ho, if_pos rfl], hfd, hown fe hfe hne⟩
    · rw [hother fd heq] at hfe
      obtain ⟨e'', o'', ho'', rfl, hw⟩ := h.registered fd fe hfe hne
      refine ⟨e'', o'', ?_, rfl, hw⟩
      have hne' : e ≠ e'' := by
        rintro rfl
        rw [ho] at ho''
        cases ho''
        exact heq rfl
      rw [object_set ho, if_neg hne']
      exact ho''
  distinct a b oa ob ha hb hab := by
    have hold : ∀ {c : ℕ} {oc : RedisAeEvents},
        ({ s.setObject e (some o') with loop := l }).object c = some oc →
          ∃ oc', s.object c = some oc' ∧ oc'.fd = oc.fd := by
      intro c oc hc
      rw [object_set ho] at hc
      split_ifs at hc with heq
      · cases hc
        exact ⟨o, heq ▸ ho, hfd.symm⟩
      · exact ⟨oc, hc, rfl⟩
    obtain ⟨oa', ha', hafd⟩ := hold ha
    obtain ⟨ob', hb', hbfd⟩ := hold hb
    exact h.distinct a b oa' ob' ha' hb' (hafd.trans (hab.trans hbfd.symm))
  turn := h.turn
  fds fd hfd' := by
    dsimp only
    rw [hsize]
    exact h.fds fd hfd'

/-- An object without events is freed. -/
theorem Attached.free (h : s.Attached) (ho : s.object e = some o) (hread : o.reading = false)
    (hwrite : o.writing = false) : (s.setObject e none).Attached where
  files := h.files
  registered fd fe hfe hne := by
    obtain ⟨e', o', ho', hfd, hw⟩ := h.registered fd fe hfe hne
    refine ⟨e', o', ?_, hfd, hw⟩
    have hne' : e ≠ e' := by
      rintro rfl
      rw [ho] at ho'
      cases ho'
      rcases AeMask.ne_none_iff.mp hne with hr | hr
      · exact Bool.false_ne_true (hread.symm.trans (hw.read hr).1)
      · exact Bool.false_ne_true (hwrite.symm.trans (hw.write hr).1)
    exact (object_set ho none s.loop).trans ((if_neg hne').trans ho')
  distinct a b oa ob ha hb hab := by
    have hold : ∀ {c : ℕ} {oc : RedisAeEvents},
        (s.setObject e none).object c = some oc → s.object c = some oc := by
      intro c oc hc
      have hc' := (object_set ho none s.loop).symm.trans hc
      split_ifs at hc'
      exact hc'
    exact h.distinct a b oa ob (hold ha) (hold hb) hab
  turn := h.turn
  fds := h.fds

/-! ## The adapter -/

/-- A change of one event. -/
theorem getElem?_modify_some {events : List (AeFileEvent AeProc ℕ)}
    {f : AeFileEvent AeProc ℕ → AeFileEvent AeProc ℕ} (h : (events.modify fd f)[fd]? = some fe) :
    ∃ fe₀, events[fd]? = some fe₀ ∧ fe = f fe₀ := by
  rw [List.getElem?_modify_eq] at h
  obtain ⟨fe₀, hfe₀, hfe⟩ := Option.map_eq_some_iff.mp h
  exact ⟨fe₀, hfe₀, hfe.symm⟩

/-- An object begins to wait. -/
theorem Attached.add (h : s.Attached) (ho : s.object e = some o) {mask : AeMask} (proc : AeProc)
    (fails : Bool) (hmask : mask ≠ .none) (hfd : o'.fd = o.fd)
    (hkeep : ∀ fe, Watches e o fe → Watches e o' fe)
    (hadd : ∀ fe, (fe.mask ≠ .none → Watches e o fe) → Watches e o' (fe.add mask proc e)) :
    ({ s.setObject e (some o') with
      loop := (s.loop.createFileEvent o.fd mask proc e fails).2 }).Attached := by
  obtain ⟨l, hcreate, hl, hsize, hevents⟩ := h.files.createFileEvent hmask o.fd proc e fails
  rw [hcreate]
  refine h.change ho hl hsize hfd (fun fd hne => ?_) (fun fe hfe hne => ?_)
  · rw [hevents]
    split_ifs
    · exact List.getElem?_modify_ne _ _ (Ne.symm hne)
    · rfl
  · rw [hevents] at hfe
    split_ifs at hfe
    · obtain ⟨fe₀, hfe₀, rfl⟩ := getElem?_modify_some hfe
      exact hadd fe₀ fun hne₀ => h.watches ho hfe₀ hne₀
    · exact hkeep fe (h.watches ho hfe hne)

/-- An object waits no longer. -/
theorem Attached.remove (h : s.Attached) (ho : s.object e = some o) {mask : AeMask}
    (hfd : o'.fd = o.fd) (hremove : ∀ fe, Watches e o fe → Watches e o' (fe.remove mask)) :
    ({ s.setObject e (some o') with loop := s.loop.deleteFileEvent o.fd mask }).Attached := by
  obtain ⟨hl, hsize, hevents⟩ := h.files.deleteFileEvent o.fd mask
  refine h.change ho hl hsize hfd (fun fd hne => ?_) (fun fe hfe hne => ?_)
  · rw [hevents]
    exact List.getElem?_modify_ne _ _ (Ne.symm hne)
  · rw [hevents] at hfe
    obtain ⟨fe₀, hfe₀, rfl⟩ := getElem?_modify_some hfe
    refine hremove fe₀ (h.watches ho hfe₀ fun hnone => hne ?_)
    rw [AeFileEvent.remove, hnone]
    rfl

theorem attached_addRead (h : s.Attached) (ho : s.object e = some o) (fails : Bool) :
    (s.addRead e o fails).Attached := by
  rw [addRead]
  split_ifs
  · exact h
  · refine h.add ho .readEvent fails (by decide) rfl
      (fun fe hw => ⟨hw.data, fun hr => ⟨rfl, (hw.read hr).2⟩, hw.write⟩)
      (fun fe hold => ⟨rfl, fun _ => ⟨rfl, rfl⟩, fun hwrite => ?_⟩)
    have hwritable : fe.mask.writable = true := by
      rw [AeFileEvent.add, AeMask.or, Bool.or_false] at hwrite
      exact hwrite
    exact (hold (AeMask.ne_none_iff.mpr (.inr hwritable))).write hwritable

theorem attached_addWrite (h : s.Attached) (ho : s.object e = some o) (fails : Bool) :
    (s.addWrite e o fails).Attached := by
  rw [addWrite]
  split_ifs
  · exact h
  · refine h.add ho .writeEvent fails (by decide) rfl
      (fun fe hw => ⟨hw.data, hw.read, fun hr => ⟨rfl, (hw.write hr).2⟩⟩)
      (fun fe hold => ⟨rfl, fun hread => ?_, fun _ => ⟨rfl, rfl⟩⟩)
    have hreadable : fe.mask.readable = true := by
      rw [AeFileEvent.add, AeMask.or, Bool.or_false] at hread
      exact hread
    exact (hold (AeMask.ne_none_iff.mpr (.inl hreadable))).read hreadable

theorem attached_delRead (h : s.Attached) (ho : s.object e = some o) :
    (s.delRead e o).Attached := by
  rw [delRead]
  split_ifs
  · refine h.remove ho rfl fun fe hw => ⟨hw.data, fun hread => ?_, fun hwrite => ?_⟩
    · rw [AeFileEvent.remove, AeMask.diff, Bool.not_true, Bool.and_false] at hread
      cases hread
    · rw [AeFileEvent.remove, AeMask.diff, Bool.not_false, Bool.and_true] at hwrite
      exact hw.write hwrite
  · exact h

theorem attached_delWrite (h : s.Attached) (ho : s.object e = some o) :
    (s.delWrite e o).Attached := by
  rw [delWrite]
  split_ifs
  · refine h.remove ho rfl fun fe hw => ⟨hw.data, fun hread => ?_, fun hwrite => ?_⟩
    · rw [AeFileEvent.remove, AeMask.diff, Bool.not_false, Bool.and_true] at hread
      exact hw.read hread
    · rw [AeFileEvent.remove, AeMask.diff, Bool.not_true, Bool.and_false] at hwrite
      cases hwrite
  · exact h

/-- The object does not want to read any more. -/
theorem object_delRead (ho : s.object e = some o) :
    (s.delRead e o).object e = some { o with reading := false } := by
  rw [delRead]
  split_ifs with hread
  · rw [object_set ho, if_pos rfl]
  · rw [ho]
    obtain ⟨fd, reading, writing⟩ := o
    rw [Bool.not_eq_true] at hread
    exact congrArg some (congrArg (RedisAeEvents.mk fd · writing) hread)

/-- The object does not want to write any more. -/
theorem object_delWrite (ho : s.object e = some o) :
    (s.delWrite e o).object e = some { o with writing := false } := by
  rw [delWrite]
  split_ifs with hwrite
  · rw [object_set ho, if_pos rfl]
  · rw [ho]
    obtain ⟨fd, reading, writing⟩ := o
    rw [Bool.not_eq_true] at hwrite
    exact congrArg some (congrArg (RedisAeEvents.mk fd reading ·) hwrite)

/-- `redisAeCleanup` deletes both events before it frees the object. -/
theorem attached_cleanup (h : s.Attached) (ho : s.object e = some o) :
    (s.cleanup e o).Attached := by
  have hread := attached_delRead h ho
  have hwrite := attached_delWrite hread (object_delRead ho)
  exact hwrite.free (object_delWrite (object_delRead ho)) rfl rfl

/-- A new object comes behind the others. -/
theorem object_attach (fd e : ℕ) : (s.attach fd).object e =
    if e = s.objects.length then some ⟨fd, false, false⟩ else s.object e := by
  rw [object, attach]
  dsimp only
  split_ifs with heq
  · rw [heq, List.getElem?_concat_length]
    rfl
  · rw [object, List.getElem?_append]
    split_ifs with hlt
    · rfl
    · rw [List.getElem?_eq_none (by rw [List.length_singleton]; omega),
        List.getElem?_eq_none (Nat.le_of_not_lt hlt)]

/-- A socket that no object has is not that of one of them. -/
theorem fd_ne_of_object (hfd : ∀ o ∈ s.objects, ∀ o' ∈ o, o'.fd ≠ fd)
    (ho : s.object e = some o) : o.fd ≠ fd := by
  rw [object, Option.join_eq_some_iff] at ho
  exact hfd _ (List.mem_of_getElem? ho) o rfl

/-- A new object on a socket of its own takes no event over. -/
theorem attached_attach (h : s.Attached) (hfd : ∀ o ∈ s.objects, ∀ o' ∈ o, o'.fd ≠ fd) :
    (s.attach fd).Attached where
  files := h.files
  registered fd' fe hfe hne := by
    obtain ⟨e, o, ho, hofd, hw⟩ := h.registered fd' fe hfe hne
    refine ⟨e, o, ?_, hofd, hw⟩
    rw [object_attach, if_neg (Nat.ne_of_lt (lt_of_object ho))]
    exact ho
  distinct a b oa ob ha hb hab := by
    rw [object_attach] at ha hb
    split_ifs at ha hb with hla hlb hlb
    · rw [hla, hlb]
    · cases ha
      exact absurd hab.symm (fd_ne_of_object hfd hb)
    · cases hb
      exact absurd hab (fd_ne_of_object hfd ha)
    · exact h.distinct a b oa ob ha hb hab
  turn := h.turn
  fds := h.fds

/-! ## Calls -/

/-- What a step of the loop calls finds its object, which wants it. -/
structure Called (s s' : AeSystem) : Prop where
  /-- The events belong to objects. -/
  attached : s'.Attached
  /-- The objects are as they were. -/
  same : s'.objects = s.objects ∧ s'.loop = s.loop
  /-- A call is for an object that wants it. -/
  calls : s'.calls = s.calls ∨ ∃ proc e o, s'.calls = s.calls ++ [(proc, e)] ∧
    s.object e = some o ∧ o.wants proc = true ∧ o.fd < s.loop.setsize

/-- The loop goes on without a call. -/
theorem Attached.setTurn (h : s.Attached) (turn : AeTurn) (hturn : turn ≠ .undefined)
    (hfds : ∀ fd ∈ turn.fds, fd < s.loop.setsize) : Called s { s with turn := turn } :=
  ⟨⟨h.files, h.registered, h.distinct, hturn, hfds⟩, ⟨rfl, rfl⟩, .inl rfl⟩

/-- A call of an object that is there and wants it. -/
theorem Attached.call (h : s.Attached) {proc : AeProc} {turn : AeTurn} (ho : s.object e = some o)
    (hwants : o.wants proc = true) (hlt : o.fd < s.loop.setsize) (hturn : turn ≠ .undefined)
    (hfds : ∀ fd ∈ turn.fds, fd < s.loop.setsize) :
    Called s (s.call (some proc) (some e) turn) := by
  rw [AeSystem.call, ho]
  exact ⟨⟨h.files, h.registered, h.distinct, hturn, hfds⟩, ⟨rfl, rfl⟩,
    .inr ⟨proc, e, o, rfl, ho, hwants, hlt⟩⟩

/-- The write event of a fired socket finds its object. -/
theorem Attached.writeEvent (h : s.Attached) (hfd : fd < s.loop.setsize) (mask : AeMask)
    (rfired : Bool) {rest : List (ℕ × AeMask)} (hrest : ∀ p ∈ rest, p.1 < s.loop.setsize) :
    Called s (s.writeEvent fd mask rfired rest) := by
  have hlt : fd < s.loop.events.length := by rw [h.files.length]; exact hfd
  have hfds : ∀ fd ∈ rest.map Prod.fst, fd < s.loop.setsize := by
    intro fd hmem
    obtain ⟨p, hp, rfl⟩ := List.mem_map.mp hmem
    exact hrest p hp
  have hfe := List.getElem?_eq_getElem hlt
  rw [AeSystem.writeEvent, hfe]
  dsimp only
  split_ifs with hfires
  · rw [Bool.and_eq_true, Bool.and_eq_true] at hfires
    have hwritable := hfires.1.1
    obtain ⟨e, o, ho, hofd, hw⟩ := h.registered fd _ hfe (AeMask.ne_none_iff.mpr (.inr hwritable))
    obtain ⟨hwriting, hproc⟩ := hw.write hwritable
    rw [hproc, hw.data]
    exact h.call ho hwriting (by rw [hofd]; exact hfd) (fun hu => by cases hu) hfds
  · exact h.setTurn (.fired rest) (fun hu => by cases hu) hfds

/-- The read event of a fired socket finds its object. -/
theorem Attached.readEvent (h : s.Attached) (hfd : fd < s.loop.setsize) (mask : AeMask)
    {rest : List (ℕ × AeMask)} (hrest : ∀ p ∈ rest, p.1 < s.loop.setsize) :
    Called s (s.readEvent fd mask rest) := by
  have hlt : fd < s.loop.events.length := by rw [h.files.length]; exact hfd
  have hfe := List.getElem?_eq_getElem hlt
  rw [AeSystem.readEvent, hfe]
  dsimp only
  split_ifs with hfires
  · rw [Bool.and_eq_true] at hfires
    obtain ⟨e, o, ho, hofd, hw⟩ := h.registered fd _ hfe (AeMask.ne_none_iff.mpr (.inl hfires.1))
    obtain ⟨hreading, hproc⟩ := hw.read hfires.1
    rw [hproc, hw.data]
    refine h.call ho hreading (by rw [hofd]; exact hfd) (fun hu => by cases hu) fun fd' hmem => ?_
    rcases List.mem_cons.mp hmem with rfl | hmem
    · exact hfd
    · obtain ⟨p, hp, rfl⟩ := List.mem_map.mp hmem
      exact hrest p hp
  · exact h.writeEvent hfd mask false hrest

/-- A step that does nothing calls nothing. -/
theorem Attached.stay (h : s.Attached) : Called s s := ⟨h, ⟨rfl, rfl⟩, .inl rfl⟩

/-- What has fired has a place in the loop. -/
theorem Attached.poll (h : s.Attached) (fired : List (ℕ × AeMask)) :
    Called s (s.step (.poll fired)) := by
  cases hturn : s.turn with
  | idle =>
    rw [step, hturn]
    dsimp only
    split_ifs with hpoll
    · refine h.setTurn (.fired fired) (fun hu => by cases hu) fun fd hmem => ?_
      obtain ⟨p, hp, rfl⟩ := List.mem_map.mp hmem
      obtain ⟨m, hm, -⟩ := hpoll.2.2 p hp
      refine h.files.lt_setsize (h.files.isSome_epoll.mp ?_)
      rw [Option.mem_def.mp hm]
      rfl
    · exact h.stay
  | _ =>
    rw [step, hturn]
    exact h.stay

/-- The loop goes on with an event that belongs to an object, or with none. -/
theorem Attached.go (h : s.Attached) : Called s (s.step .go) := by
  have hfds := h.fds
  cases hturn : s.turn with
  | fired rest =>
    rw [hturn] at hfds
    rw [step, hturn]
    cases rest with
    | nil => exact h.setTurn .idle (fun hu => by cases hu) fun _ hm => absurd hm List.not_mem_nil
    | cons p rest =>
      exact h.readEvent (hfds p.1 (List.mem_cons_self ..)) p.2
        fun p hp => hfds p.1 (List.mem_cons_of_mem _ (List.mem_map_of_mem hp))
  | _ =>
    rw [step, hturn]
    exact h.stay

/-- Behind a callback the loop looks at the event again before it goes on. -/
theorem Attached.ret (h : s.Attached) : Called s (s.step .ret) := by
  have hfds := h.fds
  cases hturn : s.turn with
  | reading fd mask rest =>
    rw [hturn] at hfds
    rw [step, hturn]
    exact h.writeEvent (hfds fd (List.mem_cons_self ..)) mask true
      fun p hp => hfds p.1 (List.mem_cons_of_mem _ (List.mem_map_of_mem hp))
  | writing rest =>
    rw [hturn] at hfds
    rw [step, hturn]
    exact h.setTurn (.fired rest) (fun hu => by cases hu) hfds
  | _ =>
    rw [step, hturn]
    exact h.stay

end AeSystem

end ServerCom.Redis
