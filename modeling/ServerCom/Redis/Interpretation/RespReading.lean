import Mathlib.Data.List.TakeWhile
import ServerCom.Redis.Interpretation.RespValue

/-!
# Reading values in RESP

At the text of a value the reader completes the object of the value, wherever it stands in a
reply. The arrays it is in are filled from the left: storing an object in a slot of an array
that is stored itself is storing the array with the slot filled.
-/

namespace ServerCom.Redis

/-- An object in a slot of a stored array is stored with the array. -/
theorem RedisReply.store_snoc {elements : Nat} {element : List (Option RedisReply)} {i : Nat}
    (hi : i < element.length) (o : RedisReply) {path : List Nat} {slot : Option RedisReply}
    {root : RedisReply} (h : RedisReply.store (.array elements element) path slot = some root) :
    RedisReply.store o (path ++ [i]) (some root) =
      RedisReply.store (.array elements (element.set i (some o))) path slot := by
  induction path generalizing slot root with
  | nil =>
    rw [RedisReply.store] at h
    cases h
    have hslot := List.getElem?_eq_getElem hi
    rw [List.nil_append, RedisReply.store, RedisReply.store, hslot]
    rfl
  | cons j path ih =>
    cases slot with
    | none => cases h
    | some obj =>
      cases obj with
      | array n els =>
        rw [RedisReply.store] at h ⊢
        cases hj : els[j]? with
        | none => rw [hj] at h; cases h
        | some child =>
          rw [hj] at h
          obtain ⟨c, hc, rfl⟩ := Option.map_eq_some_iff.mp h
          have hlt : j < els.length := (List.getElem?_eq_some_iff.mp hj).1
          rw [List.cons_append, RedisReply.store, List.getElem?_set_self hlt]
          dsimp only
          rw [ih hc]
          simp only [List.set_set]
      | text type str => cases h
      | integer n => cases h
      | nil => cases h

/-- Whether an object can be stored does not depend on the object. -/
theorem RedisReply.isSome_store (o o' : RedisReply) (path : List Nat) (slot : Option RedisReply) :
    (RedisReply.store o path slot).isSome = (RedisReply.store o' path slot).isSome := by
  induction path generalizing slot with
  | nil => rfl
  | cons j path ih =>
    cases slot with
    | none => rfl
    | some obj =>
      cases obj with
      | array n els =>
        rw [RedisReply.store, RedisReply.store]
        cases els[j]? with
        | none => rfl
        | some child =>
          dsimp only
          rw [Option.isSome_map, Option.isSome_map, ih]
      | text type str => rfl
      | integer n => rfl
      | nil => rfl

namespace Reader

open Resp Text

/-- The array whose first slots are filled. -/
def filled (n : Nat) (slots : List (Option RedisReply)) : RedisReply :=
  .array n (slots ++ List.replicate (n - slots.length) none)

/-- A new array has as many empty slots as its length says. -/
theorem createArrayObject_natCast {n : Nat} (hn : n < 2 ^ 31) :
    createArrayObject (int32 n) = filled n [] := by
  have hmod : ((n : Int) % 2 ^ 64).toNat = n := by omega
  rw [int32_natCast hn, createArrayObject, filled, hmod, Int.toNat_natCast]
  rfl

/-- With all slots filled the array is whole. -/
theorem filled_all {n : Nat} {slots : List (Option RedisReply)} (h : slots.length = n) :
    filled n slots = .array n slots := by
  rw [filled, h, Nat.sub_self, List.replicate_zero, List.append_nil]

/-- The next slot is filled behind the others. -/
theorem set_filled {n : Nat} {slots : List (Option RedisReply)} (h : slots.length < n)
    (o : RedisReply) :
    (slots ++ List.replicate (n - slots.length) none).set slots.length (some o) =
      slots ++ [some o] ++ List.replicate (n - (slots ++ [some o]).length) none := by
  have hsplit : n - slots.length = n - (slots.length + 1) + 1 := by omega
  rw [List.length_append, List.length_singleton, hsplit, List.replicate_succ,
    List.set_append_right _ _ (Nat.le_refl _), Nat.sub_self, List.set_cons_zero,
    List.append_assoc]
  rfl

/-- The next element is stored beside the ones before it. -/
theorem place_element {parent : ReadTask} {below : List ReadTask} {n : Nat}
    {slots : List (Option RedisReply)} {reply : Option RedisReply} {root : RedisReply}
    (hlt : slots.length < n) (o : RedisReply)
    (h : place (parent :: below) reply (filled n slots) = some root) :
    place (newTask slots.length :: parent :: below) (some root) o =
      place (parent :: below) reply (filled n (slots ++ [some o])) := by
  have hpath : path (newTask slots.length :: parent :: below) =
      path (parent :: below) ++ [slots.length] := by
    rw [path, newTask, Int.toNat_natCast]
    simp
  have hi : slots.length < (slots ++ List.replicate (n - slots.length) (none (α :=
      RedisReply))).length := by
    rw [List.length_append, List.length_replicate]
    omega
  rw [place, hpath, RedisReply.store_snoc hi o h, set_filled hlt, place, filled]

/-! ## Items -/

/-- What is read behind an item. -/
def afterItem (q : Pending) (rest : List UInt8) :
    List RedisReply × Scanner.Stop UInt8 Pending Refusal :=
  if q.rstack = [] then
    (q.reply.toList ++ (scanner.drain .start rest).1, (scanner.drain .start rest).2)
  else scanner.drain q rest

/-- In the middle of a reply the scanner goes on. -/
theorem afterItem_of_ne {q : Pending} (h : q.rstack ≠ []) (rest : List UInt8) :
    afterItem q rest = scanner.drain q rest := if_neg h

variable {cur : ReadTask} {below : List ReadTask} {reply : Option RedisReply}

/-- Only its place in the array matters of a task. -/
theorem path_of_idx {cur cur' : ReadTask} (hidx : cur'.idx = cur.idx) (below : List ReadTask) :
    path (cur' :: below) = path (cur :: below) := by
  cases below with
  | nil => rfl
  | cons prv below =>
    have hsnoc : ∀ task, path (task :: prv :: below) = path (prv :: below) ++ [task.idx.toNat] :=
      fun _ => rfl
    rw [hsnoc, hsnoc, hidx]

/-- A task is complete whatever its type was. -/
theorem perform_obj_cur (cur cur' : ReadTask) (hidx : cur'.idx = cur.idx) (o : RedisReply) :
    Pending.perform ⟨cur' :: below, reply⟩ (.obj o) =
      Pending.perform ⟨cur :: below, reply⟩ (.obj o) := by
  have hmove : moveToNextTask (cur' :: below) = moveToNextTask (cur :: below) := by
    cases below with
    | nil => rfl
    | cons prv below => rw [moveToNextTask, moveToNextTask, hidx]
  unfold Pending.perform place
  dsimp only
  rw [path_of_idx hidx, hmove]

/-- No byte stands for the type of `nil`. -/
theorem typeOfByte_ne_nil (b : UInt8) : typeOfByte b ≠ some .nil := by
  unfold typeOfByte
  split_ifs <;> simp

/-- Only `*` stands for an array. -/
theorem eq_of_typeOfByte_array {b : UInt8} (h : typeOfByte b = some .array) : b = 42 := by
  unfold typeOfByte at h
  split_ifs at h
  all_goals first | assumption | cases h

/-- An item is its type and its token. -/
theorem drain_token {b : UInt8} {type : ReplyType} {u rest : List UInt8} {t : Token} {q : Pending}
    (hcur : cur.type = none) (hb : typeOfByte b = some type)
    (hdepth : type = .array → below.length < 8) (ht : token type u = some (t, rest))
    (hq : Pending.perform ⟨{ cur with type := some type } :: below, reply⟩ t = some q) :
    scanner.drain ⟨cur :: below, reply⟩ (b :: u) = afterItem q rest := by
  have hnil : type ≠ .nil := by
    rintro rfl
    exact typeOfByte_ne_nil b hb
  have hroom : ¬ (type = .array ∧ ({ cur with type := some type } :: below).length = 9) := by
    rintro ⟨harr, hlen⟩
    have := hdepth harr
    rw [List.length_cons] at hlen
    omega
  have hscan : scanner.scan ⟨cur :: below, reply⟩ (b :: u) = settle rest (some q) := by
    change scanItem ⟨cur :: below, reply⟩ (b :: u) = settle rest (some q)
    rw [scanItem]
    dsimp only
    rw [hcur]
    dsimp only
    rw [hb]
    dsimp only
    rw [scanTyped, if_neg hnil, if_neg hroom, ht]
    dsimp only
    rw [hq]
  unfold settle at hscan
  dsimp only at hscan
  unfold afterItem
  split_ifs at hscan ⊢ with hend
  · exact Scanner.drain_item hscan
  · rw [Scanner.drain_item hscan, Option.toList_none, List.nil_append]

/-- An array inside of eight others is refused at its first byte. -/
theorem drain_tooDeep (hcur : cur.type = none) (hdepth : below.length = 8) (u : List UInt8) :
    scanner.drain ⟨cur :: below, reply⟩ (42 :: u) =
      ([], .fail (.error .protocol depthText)) := by
  apply Scanner.drain_fail
  change scanItem ⟨cur :: below, reply⟩ (42 :: u) = _
  have hfull : ReplyType.array = .array ∧
      ({ cur with type := some ReplyType.array } :: below).length = 9 :=
    ⟨rfl, by rw [List.length_cons, hdepth]⟩
  have hb : typeOfByte 42 = some .array := rfl
  rw [scanItem]
  dsimp only
  rw [hcur]
  dsimp only
  rw [hb]
  dsimp only
  rw [scanTyped, if_neg (by decide), if_pos hfull]

/-! ## Values -/

/-- The reader completes a value where it may stand, or stops at an array that is too deep. -/
def Completes (x : Resp) : Prop :=
  ∀ (cur : ReadTask) (below : List ReadTask) (reply : Option RedisReply) (q : Pending)
    (rest : List UInt8), cur.type = none → below.length ≤ 8 →
    Pending.perform ⟨cur :: below, reply⟩ (.obj x.toReply) = some q →
    scanner.drain ⟨cur :: below, reply⟩ (x.encode ++ rest) =
      if below.length + x.levels ≤ 8 then afterItem q rest
      else ([], .fail (.error .protocol depthText))

/-- A value whose text is one token. -/
theorem completes_of_token {x : Resp} {b : UInt8} {type : ReplyType} {line : List UInt8}
    (hx : x.encode = b :: line) (hb : typeOfByte b = some type)
    (ht : ∀ rest, token type (line ++ rest) = some (.obj x.toReply, rest))
    (hlevels : x.levels = if type = .array then 1 else 0) : Completes x := by
  intro cur below reply q rest hcur hdepth hq
  rw [hx, List.cons_append, hlevels]
  by_cases harr : type = .array
  · have hb42 : b = 42 := eq_of_typeOfByte_array (harr ▸ hb)
    by_cases hfull : below.length = 8
    · rw [if_pos harr, if_neg (by omega), hb42, drain_tooDeep hcur hfull]
    · rw [if_pos harr, if_pos (by omega)]
      refine drain_token hcur hb (fun _ => by omega) (ht rest) ?_
      exact (perform_obj_cur cur { cur with type := some type } rfl _).trans hq
  · rw [if_neg harr, if_pos (by omega)]
    exact drain_token hcur hb (fun h => absurd h harr) (ht rest)
      ((perform_obj_cur cur { cur with type := some type } rfl _).trans hq)

/-- The reader goes through the elements of an array from one of them on. -/
theorem drain_elements {parent : ReadTask} {n : Nat} {xs : List Resp} {root : RedisReply}
    {q : Pending} (slots : List (Option RedisReply)) (rest : List UInt8)
    (hxs : ∀ x ∈ xs, Completes x) (hne : xs ≠ []) (htype : parent.type = some .array)
    (helements : parent.elements = n) (hn : slots.length + xs.length = n)
    (hdepth : below.length < 8)
    (hroot : place (parent :: below) reply (filled n slots) = some root)
    (hq : Pending.perform ⟨parent :: below, reply⟩ (.obj (.array n (slots ++ toReplies xs))) =
      some q) :
    scanner.drain ⟨newTask slots.length :: parent :: below, some root⟩ (encodeAll xs ++ rest) =
      if below.length + 1 + levelsAll xs ≤ 8 then afterItem q rest
      else ([], .fail (.error .protocol depthText)) := by
  induction xs generalizing slots root with
  | nil => exact absurd rfl hne
  | cons x xs ih =>
    obtain ⟨hx, hxs⟩ := List.forall_mem_cons.mp hxs
    rw [List.length_cons] at hn
    have hlt : slots.length < n := by omega
    have hplace := place_element hlt x.toReply hroot
    have hmove : moveToNextTask (newTask slots.length :: parent :: below) =
        if (slots.length : Int) = n - 1 then moveToNextTask (parent :: below)
        else some (newTask (slots.length + 1) :: parent :: below) := by
      rw [moveToNextTask, if_neg (not_not.mpr htype), newTask, helements]
      dsimp only
      split_ifs
      · rfl
      · rfl
      · omega
    rw [encodeAll, List.append_assoc, levelsAll]
    have hbelow : (parent :: below).length ≤ 8 := hdepth
    by_cases hnil : xs = []
    · -- behind the last element the array is complete
      subst hnil
      have hlast : n = (slots ++ [some x.toReply]).length := by
        rw [List.length_append]
        exact hn.symm
      have hstep : Pending.perform ⟨newTask slots.length :: parent :: below, some root⟩
          (.obj x.toReply) = some q := by
        rw [← hq]
        unfold Pending.perform
        dsimp only [toReplies]
        rw [hplace, filled_all hlast.symm, hmove,
          if_pos (by rw [List.length_nil] at hn; omega)]
      rw [hx _ _ _ q _ rfl hbelow hstep, List.length_cons, encodeAll, levelsAll, List.nil_append,
        Nat.max_zero]
    · have hpos : 0 < xs.length := List.length_pos_iff.mpr hnil
      obtain ⟨root', hroot'⟩ : ∃ root', place (parent :: below) reply
          (filled n (slots ++ [some x.toReply])) = some root' := by
        apply Option.isSome_iff_exists.mp
        rw [place, RedisReply.isSome_store _ (filled n slots), ← place, hroot]
        rfl
      have hslots : (slots ++ [some x.toReply]).length = slots.length + 1 := List.length_append
      have hstep : Pending.perform ⟨newTask slots.length :: parent :: below, some root⟩
          (.obj x.toReply) =
          some ⟨newTask (slots ++ [some x.toReply]).length :: parent :: below, some root'⟩ := by
        unfold Pending.perform
        dsimp only
        rw [hplace, hroot', hmove, if_neg (by omega), hslots]
        rfl
      rw [hx _ _ _ _ _ rfl hbelow hstep, afterItem_of_ne (List.cons_ne_nil _ _),
        ih _ hxs hnil (by rw [hslots]; omega) hroot' (by rw [List.append_assoc]; exact hq),
        List.length_cons]
      split_ifs <;> first | rfl | omega

/-- A legal value is completed. -/
theorem completes_of_legal {x : Resp} (h : x.Legal) : Completes x := by
  induction h with
  | error h =>
    exact completes_of_token rfl rfl (token_line (.inl rfl) h) rfl
  | status h =>
    exact completes_of_token rfl rfl (token_line (.inr rfl) h) rfl
  | integer hlo hhi =>
    exact completes_of_token rfl rfl (token_integer hlo hhi) rfl
  | bulk h =>
    exact completes_of_token rfl rfl (token_bulk h) rfl
  | nullBulk => exact completes_of_token rfl rfl token_nullBulk rfl
  | nullArray =>
    have htoken := fun rest => token_array (-1) (by decide) (by decide) rest
    exact completes_of_token rfl rfl htoken rfl
  | @array xs hlen h ih =>
    have hint : decimal xs.length = decimalInt xs.length := by
      rw [decimalInt, if_neg (by omega), Int.natAbs_natCast]
    by_cases hnil : xs = []
    · subst hnil
      have hline : (array []).encode = 42 :: (decimalInt 0 ++ crlf) := rfl
      have hzero : arrayToken 0 = .obj (array []).toReply :=
        congrArg Token.obj (createArrayObject_natCast (n := 0) (by decide))
      have htoken := fun rest => token_array 0 (by decide) (by decide) rest
      rw [hzero] at htoken
      exact completes_of_token hline rfl htoken rfl
    · have hpos : 0 < xs.length := List.length_pos_iff.mpr hnil
      intro cur below reply q rest hcur hdepth hq
      rw [levels, encode, hint, List.cons_append, List.append_assoc]
      by_cases hfull : below.length = 8
      · rw [if_neg (by omega), drain_tooDeep hcur hfull]
      · let parent : ReadTask := { cur with type := some .array, elements := xs.length }
        have htoken := token_array xs.length (by omega) (by omega)
          (encodeAll xs ++ rest)
        rw [arrayToken, if_neg (by omega), if_pos (by omega)] at htoken
        have hcomplete : Pending.perform ⟨parent :: below, reply⟩
            (.obj (.array xs.length ([] ++ toReplies xs))) = some q :=
          (perform_obj_cur cur parent rfl _).trans hq
        have hplace : ∃ root, place (parent :: below) reply (filled xs.length []) = some root := by
          apply Option.isSome_iff_exists.mp
          rw [place, RedisReply.isSome_store _ (.array xs.length ([] ++ toReplies xs)), ← place]
          unfold Pending.perform at hcomplete
          dsimp only at hcomplete
          cases hp : place (parent :: below) reply (.array xs.length ([] ++ toReplies xs)) with
          | none => rw [hp] at hcomplete; cases hcomplete
          | some root => rfl
        obtain ⟨root, hroot⟩ := hplace
        have hheader : Pending.perform ⟨{ cur with type := some .array } :: below, reply⟩
            (.header xs.length) = some ⟨newTask 0 :: parent :: below, some root⟩ := by
          have hsame : path ({ cur with type := some ReplyType.array } :: below) =
              path (parent :: below) := by
            cases below <;> rfl
          unfold Pending.perform
          dsimp only
          rw [createArrayObject_natCast hlen, place, hsame, ← place, hroot, int32_natCast hlen]
          rfl
        rw [drain_token hcur rfl (fun _ => by omega) htoken hheader,
          afterItem_of_ne (List.cons_ne_nil _ _)]
        have helements := drain_elements [] rest ih hnil rfl rfl
          (by rw [List.length_nil, Nat.zero_add]) (by omega) hroot hcomplete
        rw [List.length_nil] at helements
        refine helements.trans ?_
        split_ifs <;> first | rfl | omega

/-! ## Streams -/

/-- A value in front of a stream is the first reply. -/
theorem drain_value {x : Resp} (hx : x.Legal) (rest : List UInt8) :
    scanner.drain .start (x.encode ++ rest) =
      if x.levels ≤ 8 then
        (x.toReply :: (scanner.drain .start rest).1, (scanner.drain .start rest).2)
      else ([], .fail (.error .protocol depthText)) := by
  have h := completes_of_legal hx (newTask (-1)) [] none ⟨[], some x.toReply⟩ rest rfl
    (Nat.zero_le 8) rfl
  rw [List.length_nil, Nat.zero_add] at h
  exact h

/-- Of a stream of values the ones before the first that is nested too deeply are replies. -/
theorem drain_values {xs : List Resp} (h : ∀ x ∈ xs, x.Legal) :
    scanner.drain .start (encodeAll xs) =
      ((xs.takeWhile (·.levels ≤ 8)).map toReply,
        if levelsAll xs ≤ 8 then .wait .start [] else .fail (.error .protocol depthText)) := by
  induction xs with
  | nil => exact Scanner.drain_wait rfl
  | cons x xs ih =>
    obtain ⟨hx, hxs⟩ := List.forall_mem_cons.mp h
    rw [encodeAll, drain_value hx, ih hxs, levelsAll]
    by_cases hle : x.levels ≤ 8
    · have htake : (x :: xs).takeWhile (·.levels ≤ 8) = x :: xs.takeWhile (·.levels ≤ 8) :=
        List.takeWhile_cons_of_pos (by simpa using hle)
      rw [if_pos hle, htake, List.map_cons]
      by_cases hall : levelsAll xs ≤ 8
      · rw [if_pos hall, if_pos (max_le hle hall)]
      · rw [if_neg hall, if_neg (fun hmax => hall (le_trans (le_max_right ..) hmax))]
    · have htake : (x :: xs).takeWhile (·.levels ≤ 8) = [] :=
        List.takeWhile_cons_of_neg (by simpa using hle)
      rw [if_neg hle, htake, List.map_nil,
        if_neg (fun hmax => hle (le_trans (le_max_left ..) hmax))]

/-- Of a stream of commands every one is a reply. -/
theorem drain_commands {argss : List (List Arg)} {texts : List (List UInt8)}
    (htexts : argss.map redisFormatCommandArgv = texts.map some) :
    scanner.drain .start texts.flatten =
      (argss.map (fun args => .array args.length (args.map fun arg => some (.text .string arg))),
        .wait .start []) := by
  obtain ⟨hflat, hlegal⟩ := texts_eq htexts
  have hlevels : ∀ x ∈ argss.map command, x.levels ≤ 8 := by
    intro x hx
    obtain ⟨args, -, rfl⟩ := List.mem_map.mp hx
    rw [levels_command]
    exact Nat.le_of_ble_eq_true rfl
  rw [hflat, drain_values hlegal, if_pos (levelsAll_le.mpr hlevels),
    List.takeWhile_eq_self_iff.mpr (fun x hx => decide_eq_true (hlevels x hx)), List.map_map]
  exact congrArg (·, _) (List.map_congr_left fun args _ => toReply_command args)

end Reader

end ServerCom.Redis
