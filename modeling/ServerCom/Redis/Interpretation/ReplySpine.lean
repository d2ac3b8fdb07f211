import ServerCom.Redis.Interpretation.RespReading

/-!
# The objects on the way to a reply

While a reply is read, the arrays that are not complete lie inside of each other, each filled
up to the task above it. So every object that is made has its slot, and a reply that is given
has no empty one. Only the count of an array can spoil this: one that is no `int`, or is
below `-1`.
-/

namespace ServerCom.Redis

/-- Every array has the slots it counts, and an object in each. -/
inductive RedisReply.Whole : RedisReply → Prop where
  /-- A string, a status or an error. -/
  | text (type : ReplyType) (str : List UInt8) : Whole (.text type str)
  /-- An integer. -/
  | integer (n : Int) : Whole (.integer n)
  /-- Nil. -/
  | nil : Whole .nil
  /-- An array. -/
  | array {elements : Nat} {element : List (Option RedisReply)} (hlen : elements = element.length)
    (hset : none ∉ element) (h : ∀ o, some o ∈ element → Whole o) : Whole (.array elements element)

namespace Reader

/-- The slots in front of a task hold whole objects. -/
def WholeSlots (slots : List (Option RedisReply)) : Prop :=
  none ∉ slots ∧ ∀ o, some o ∈ slots → o.Whole

/-- Whole slots with a whole one behind them. -/
theorem WholeSlots.snoc {slots : List (Option RedisReply)} (h : WholeSlots slots) {o : RedisReply}
    (ho : o.Whole) : WholeSlots (slots ++ [some o]) := by
  constructor
  · rw [List.mem_append, not_or]
    exact ⟨h.1, by simp⟩
  · intro o' hmem
    rcases List.mem_append.mp hmem with hold | hnew
    · exact h.2 o' hold
    · cases List.mem_singleton.mp hnew
      exact ho

/-- The tasks stand for arrays inside of each other, up to an object that is not made. -/
inductive Spine : List ReadTask → Option RedisReply → Prop where
  /-- There is no object yet. -/
  | root (cur : ReadTask) (reply : Option RedisReply) : Spine [cur] reply
  /-- The next object is an element of an array, which was placed before. -/
  | element {cur parent : ReadTask} {below : List ReadTask} {reply : Option RedisReply}
    {root : RedisReply} {n : Nat} {slots : List (Option RedisReply)}
    (hspine : Spine (parent :: below) reply) (htype : parent.type = some .array)
    (helements : parent.elements = n) (hlt : slots.length < n) (hwhole : WholeSlots slots)
    (hroot : place (parent :: below) reply (filled n slots) = some root)
    (hidx : cur.idx = slots.length) : Spine (cur :: parent :: below) (some root)

variable {cur : ReadTask} {below : List ReadTask} {reply : Option RedisReply}

/-- The type and the count of a task are free until its object is made. -/
theorem Spine.of_idx (h : Spine (cur :: below) reply) {cur' : ReadTask}
    (hidx : cur'.idx = cur.idx) :
    Spine (cur' :: below) reply := by
  cases h with
  | root cur reply => exact .root cur' reply
  | element hspine htype helements hlt hwhole hroot hcur =>
    exact .element hspine htype helements hlt hwhole hroot (hidx.trans hcur)

/-- An object that is made has its slot. -/
theorem Spine.place_isSome (h : Spine (cur :: below) reply) (o : RedisReply) :
    ∃ root, place (cur :: below) reply o = some root := by
  cases h with
  | root cur reply => exact ⟨o, rfl⟩
  | @element _ parent below reply root n slots hspine htype helements hlt hwhole hroot hidx =>
    have hpath : path (cur :: parent :: below) = path (newTask slots.length :: parent :: below) :=
      path_of_idx hidx _
    apply Option.isSome_iff_exists.mp
    rw [place, hpath, ← place, place_element hlt o hroot, place,
      RedisReply.isSome_store _ (filled n slots), ← place, hroot]
    rfl

/-- Behind a whole object the reply is whole, or the next object has its slot too. -/
theorem Spine.complete {rstack : List ReadTask} (h : Spine rstack reply) {o : RedisReply}
    (ho : o.Whole) : ∃ root stack, place rstack reply o = some root ∧
      moveToNextTask rstack = some stack ∧
      (stack = [] ∧ root.Whole ∨ ∃ idx below, stack = newTask idx :: below ∧
        Spine stack (some root)) := by
  induction h generalizing o with
  | root cur reply => exact ⟨o, [], rfl, rfl, .inl ⟨rfl, ho⟩⟩
  | @element cur parent below reply root n slots hspine htype helements hlt hwhole hroot hidx ih =>
    have hpath : path (cur :: parent :: below) = path (newTask slots.length :: parent :: below) :=
      path_of_idx hidx _
    have hplace : place (cur :: parent :: below) (some root) o =
        place (parent :: below) reply (filled n (slots ++ [some o])) := by
      rw [place, hpath, ← place]
      exact place_element hlt o hroot
    have hslots : (slots ++ [some o]).length = slots.length + 1 := List.length_append
    have hwhole' := hwhole.snoc ho
    rw [moveToNextTask, if_neg (not_not.mpr htype), helements, hidx]
    by_cases hlast : slots.length + 1 = n
    · -- the array is whole, and it is an object of its task
      have harray : (filled n (slots ++ [some o])).Whole := by
        rw [filled_all (hslots.trans hlast)]
        exact .array (hslots.trans hlast).symm hwhole'.1 hwhole'.2
      obtain ⟨root', stack, hplace', hmove, hnext⟩ := ih harray
      rw [if_pos (by omega)]
      exact ⟨root', stack, hplace.trans hplace', hmove, hnext⟩
    · obtain ⟨root', hroot'⟩ := hspine.place_isSome (filled n (slots ++ [some o]))
      rw [if_neg (by omega), if_pos (by omega)]
      refine ⟨root', _, hplace.trans hroot', rfl, .inr ⟨_, _, rfl, ?_⟩⟩
      refine .element hspine htype helements (by omega) hwhole' hroot' ?_
      rw [hslots]
      rfl

/-- A count that an array can have. -/
def Countable (elements : Int) : Prop := -1 ≤ elements ∧ elements < 2 ^ 31

instance (elements : Int) : Decidable (Countable elements) := inferInstanceAs (Decidable (_ ∧ _))

/-- The count that is read of a stream, where an item begins with the type byte of an array: the
array is not nested too deeply, and the line of its count has arrived. -/
def arrayCount (p : Pending) : List UInt8 → Option Int
  | [] => none
  | b :: u =>
    if b = 42 ∧ p.rstack.length ≠ 9 ∧ (findNewline u).isSome then some (readLongLong u) else none

/-- Every count that is read of a stream is one that an array can have. An item has a byte, so
there are no more items than bytes, and a last place where nothing has arrived. -/
def CountsFit (u : List UInt8) : Prop :=
  ∀ start ∈ scanner.itemStarts (u.length + 1) Pending.start u,
    ∀ n ∈ arrayCount start.1 start.2, Countable n

instance (u : List UInt8) : Decidable (CountsFit u) := inferInstanceAs (Decidable (∀ _ ∈ _, _))

/-- An asterisk in a status line is no count. -/
example : CountsFit [43, 42, 45, 50, 13, 10] ∧ ¬ CountsFit [42, 45, 50, 13, 10] := by
  decide +kernel

/-- The token of an object makes a whole one, and the one of an array is a count. -/
theorem token_whole {type : ReplyType} {u rest : List UInt8} {t : Token}
    (h : token type u = some (t, rest)) (hcount : type = .array → Countable (readLongLong u)) :
    (∃ o : RedisReply, t = .obj o ∧ o.Whole) ∨
      ∃ n : Nat, 0 < n ∧ n < 2 ^ 31 ∧ t = .header n ∧ type = .array := by
  rw [token] at h
  cases hn : findNewline u with
  | none => rw [hn] at h; cases h
  | some n =>
    rw [hn] at h
    have hline : ∀ type, (lineObject type u n).Whole := by
      intro type
      rw [lineObject]
      split_ifs
      · exact .integer _
      · exact .text _ _
    cases type
    case string =>
      dsimp only at h
      split_ifs at h
      · cases h
        exact .inl ⟨_, rfl, .nil⟩
      · cases h
        exact .inl ⟨_, rfl, .text _ _⟩
    case array =>
      obtain ⟨hlo, hhi⟩ := hcount rfl
      obtain ⟨rfl, -⟩ := Prod.mk.inj (Option.some.inj h)
      unfold arrayToken
      split_ifs with hnil hpos
      · exact .inl ⟨_, rfl, .nil⟩
      · refine .inr ⟨(readLongLong u).toNat, by omega, by omega, ?_, rfl⟩
        rw [Int.toNat_of_nonneg (by omega)]
      · have hzero : readLongLong u = ((0 : Nat) : Int) := by omega
        refine .inl ⟨_, rfl, ?_⟩
        rw [hzero, createArrayObject_natCast (by decide)]
        exact .array rfl List.not_mem_nil fun o ho => absurd ho List.not_mem_nil
    all_goals
      cases h
      exact .inl ⟨_, rfl, hline _⟩

/-- What an item leaves of a spine. -/
inductive Kept : Scanned UInt8 Pending RedisReply Refusal → Prop where
  /-- A spine again, and a whole reply if one is given. -/
  | item {q : Pending} {out : Option RedisReply} {rest : List UInt8} (idx : Int)
    (below : List ReadTask) (hstack : q.rstack = newTask idx :: below)
    (hspine : Spine q.rstack q.reply) (hout : ∀ o, out = some o → o.Whole) :
    Kept (.item q out rest)
  /-- More has to arrive. -/
  | wait {q : Pending} {rest : List UInt8} : Kept (.wait q rest)
  /-- An error, but no object without a slot. -/
  | refused (type : RedisErr) (str : List UInt8) : Kept (.fail (.error type str))

/-- A token ends behind a line. -/
theorem isSome_of_token {type : ReplyType} {u rest : List UInt8} {t : Token}
    (h : token type u = some (t, rest)) : (findNewline u).isSome = true := by
  rw [token] at h
  cases hn : findNewline u with
  | none =>
    rw [hn] at h
    cases h
  | some n => rfl

/-- A token leaves a spine. -/
theorem kept_token {p : Pending} {type : ReplyType} {u rest : List UInt8} {t : Token}
    (hspine : Spine (cur :: below) p.reply) (hstack : p.rstack = cur :: below)
    (htype : cur.type = some type) (ht : token type u = some (t, rest))
    (hcount : type = .array → Countable (readLongLong u)) :
    Kept (settle rest (p.perform t)) := by
  rcases token_whole ht hcount with ⟨o, rfl, ho⟩ | ⟨n, hpos, hlt, rfl, rfl⟩
  · obtain ⟨root, stack, hplace, hmove, hnext⟩ := hspine.complete ho
    unfold Pending.perform
    dsimp only
    rw [hstack, hplace, hmove]
    dsimp only [settle]
    rcases hnext with ⟨rfl, hroot⟩ | ⟨idx, below', rfl, hspine'⟩
    · rw [if_pos rfl]
      refine .item (-1) [] rfl (.root ..) fun o ho => ?_
      cases ho
      exact hroot
    · rw [if_neg (List.cons_ne_nil _ _)]
      exact .item idx below' rfl hspine' fun o ho => by cases ho
  · obtain ⟨root, hroot⟩ := hspine.place_isSome (filled n [])
    let parent : ReadTask := { cur with elements := n }
    have hidx : parent.idx = cur.idx := rfl
    have hpath : path (parent :: below) = path (cur :: below) := path_of_idx hidx _
    have hparent : place (parent :: below) p.reply (filled n []) = some root := by
      rw [place, hpath]
      exact hroot
    have hbelow : Spine (parent :: below) p.reply := hspine.of_idx hidx
    have hempty : ([] : List (Option RedisReply)).length < n := hpos
    have hnew : Spine (newTask 0 :: parent :: below) (some root) :=
      .element hbelow htype rfl hempty
        ⟨List.not_mem_nil, fun o ho => absurd ho List.not_mem_nil⟩ hparent rfl
    unfold Pending.perform
    dsimp only
    rw [hstack]
    dsimp only
    rw [createArrayObject_natCast hlt, hroot, int32_natCast hlt]
    dsimp only [Option.map_some, settle]
    rw [if_neg (List.cons_ne_nil _ _)]
    exact .item 0 _ rfl hnew fun o ho => by cases ho

/-- An item at the byte of its type leaves a spine. -/
theorem kept_scan {p : Pending} {u : List UInt8} (hspine : Spine (cur :: below) p.reply)
    (hstack : p.rstack = cur :: below) (hcur : cur.type = none)
    (hu : ∀ n ∈ arrayCount p u, Countable n) : Kept (scanner.scan p u) := by
  change Kept (scanItem p u)
  rw [scanItem, hstack]
  dsimp only
  rw [hcur]
  cases u with
  | nil => exact .wait
  | cons b u =>
    dsimp only
    cases hb : typeOfByte b with
    | none => exact .refused _ _
    | some type =>
      dsimp only
      have hnil : type ≠ .nil := by
        rintro rfl
        exact typeOfByte_ne_nil b hb
      rw [scanTyped, if_neg hnil]
      split_ifs with hdepth
      · exact .refused _ _
      · cases ht : token type u with
        | none => exact .wait
        | some found =>
          have hcount : type = .array → Countable (readLongLong u) := by
            rintro rfl
            have hlen : p.rstack.length ≠ 9 := by
              rw [hstack]
              exact fun h => hdepth ⟨rfl, h⟩
            apply hu
            rw [arrayCount, if_pos ⟨eq_of_typeOfByte_array hb, hlen, isSome_of_token ht⟩]
            rfl
          let task : ReadTask := { cur with type := some type }
          have htask : Spine (task :: below) p.reply := hspine.of_idx rfl
          have htype : task.type = some type := rfl
          have hkept := kept_token (p := ⟨task :: below, p.reply⟩) htask rfl htype ht hcount
          exact hkept

/-- Where the counts that are read fit, every reply is whole, and every object has its slot. -/
theorem drain_whole {p : Pending} {u : List UInt8} {idx : Int} {n : Nat}
    (hstack : p.rstack = newTask idx :: below) (hspine : Spine p.rstack p.reply)
    (hn : u.length < n)
    (hu : ∀ start ∈ scanner.itemStarts n p u, ∀ c ∈ arrayCount start.1 start.2, Countable c) :
    (∀ o ∈ (scanner.drain p u).1, o.Whole) ∧ (scanner.drain p u).2 ≠ .fail .undefined := by
  induction p, u using scanner.drain_induct generalizing idx below n with
  | item p u q out rest hscan ih =>
    obtain ⟨n, rfl⟩ := Nat.exists_eq_add_one_of_ne_zero (Nat.ne_zero_of_lt hn)
    have hkept := kept_scan (hstack ▸ hspine) hstack rfl (hu _ (scanner.mem_itemStarts n p u))
    rw [hscan] at hkept
    rw [Scanner.itemStarts_item hscan] at hu
    have hless := scanner.item_length hscan
    cases hkept with
    | item idx' below' hstack' hspine' hout =>
      obtain ⟨hwhole, hstop⟩ :=
        ih hstack' hspine' (by omega) (List.forall_mem_cons.mp hu).2
      rw [Scanner.drain_item hscan]
      refine ⟨fun o ho => ?_, hstop⟩
      rcases List.mem_append.mp ho with hfirst | hmore
      · exact hout o (Option.mem_toList.mp hfirst)
      · exact hwhole o hmore
  | wait p u q rest hscan =>
    rw [Scanner.drain_wait hscan]
    exact ⟨fun o ho => absurd ho List.not_mem_nil, fun h => by cases h⟩
  | fail p u e hscan =>
    obtain ⟨n, rfl⟩ := Nat.exists_eq_add_one_of_ne_zero (Nat.ne_zero_of_lt hn)
    have hkept := kept_scan (hstack ▸ hspine) hstack rfl (hu _ (scanner.mem_itemStarts n p u))
    rw [hscan] at hkept
    rw [Scanner.drain_fail hscan]
    refine ⟨fun o ho => absurd ho List.not_mem_nil, fun h => ?_⟩
    cases h
    cases hkept

end Reader

end ServerCom.Redis
