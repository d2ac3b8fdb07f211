import Mathlib.Tactic.SplitIfs
import ServerCom.Core.Stream.Scanner
import ServerCom.Redis.Native.Reader

/-!
# The reader as a scanner

The reader of hiredis takes items off a stream. Each item is a token behind the byte of its
type: an object that is complete, or the head of an array. The buffer, its position and the
limits of its integers are gone here; what is left of the reader is its stack of tasks and the
reply it has begun. A call of the reader does what the scanner does, as long as what is unread
is shorter than an `int` counts.
-/

namespace ServerCom.Redis.Reader

open Text

/-! ## Lines -/

/-- The place of the first line end. -/
def findNewline : List UInt8 → Option Nat
  | [] => none
  | c :: s => if c = 13 ∧ s.head? = some 10 then some 0 else (findNewline s).map (· + 1)

/-- A line end that is found is within the input. -/
theorem findNewline_le {s : List UInt8} {n : Nat} (h : findNewline s = some n) :
    n + 2 ≤ s.length := by
  induction s generalizing n with
  | nil => cases h
  | cons c s ih =>
    rw [findNewline] at h
    split_ifs at h with hc
    · cases h
      cases s with
      | nil => cases hc.2
      | cons d s => simp
    · obtain ⟨m, hm, rfl⟩ := Option.map_eq_some_iff.mp h
      have := ih hm
      rw [List.length_cons]
      omega

/-- The first line end is found with or without what follows. -/
theorem findNewline_append {s : List UInt8} {n : Nat} (h : findNewline s = some n)
    (v : List UInt8) : findNewline (s ++ v) = some n := by
  induction s generalizing n with
  | nil => cases h
  | cons c s ih =>
    rw [findNewline] at h
    rw [List.cons_append, findNewline]
    split_ifs at h with hc
    · cases s with
      | nil => cases hc.2
      | cons d s =>
        rw [List.cons_append, if_pos ⟨hc.1, hc.2⟩]
        exact h
    · obtain ⟨m, hm, rfl⟩ := Option.map_eq_some_iff.mp h
      have hne : s ≠ [] := by
        rintro rfl
        cases hm
      have hhead : (s ++ v).head? = s.head? := List.head?_append_of_ne_nil s hne
      rw [hhead, if_neg hc, ih hm]
      rfl

/-- `seekNewline` finds the first line end. -/
theorem seekLoop_eq {_len : Int} {outer : Bool} {pos : Nat} {s : List UInt8}
    (h : _len = pos + s.length - 1) :
    seekLoop _len outer pos s = (findNewline s).map (pos + ·) := by
  induction s generalizing outer pos with
  | nil => rfl
  | cons c s ih =>
    have hlen : _len = pos + s.length := by
      rw [h, List.length_cons]
      push_cast
      omega
    have hnext : _len = ((pos + 1 : Nat) : Int) + s.length - 1 := by
      push_cast
      omega
    rw [seekLoop, findNewline]
    by_cases hnil : s = []
    · subst hnil
      rw [List.length_nil] at hlen
      rw [if_neg (by simp : ¬ (c = 13 ∧ ([] : List UInt8).head? = some 10))]
      have hloop : ∀ outer, seekLoop _len outer (pos + 1) [] = none := fun _ => rfl
      simp only [hloop, ite_self, List.head?_nil, findNewline, Option.map_none, reduceCtorEq,
        ite_false]
    · have hpos : 0 < s.length := List.length_pos_iff.mpr hnil
      have hmap : Option.map (pos + ·) ((findNewline s).map (· + 1)) =
          (findNewline s).map ((pos + 1) + ·) := by
        rw [Option.map_map]
        congr 1
        funext n
        simp only [Function.comp_apply]
        omega
      rw [if_neg (by rintro ⟨-, hle⟩; omega), if_pos (by omega : (pos : Int) < _len)]
      by_cases hc : c = 13
      · rw [if_neg (not_not.mpr hc)]
        by_cases hd : s.head? = some 10
        · rw [if_pos hd, if_pos ⟨hc, hd⟩]
          rfl
        · rw [if_neg hd, if_neg (fun h => hd h.2), ih hnext, hmap]
      · rw [if_pos hc, if_neg (fun h => hc h.1), ih hnext, hmap]

/-- Up to the range of an `int` the first line end is found. -/
theorem seekNewline_eq {s : List UInt8} (h : s.length < 2 ^ 31) :
    seekNewline s = findNewline s := by
  have hlen : int32 ((s.length : Int) - 1) = s.length - 1 :=
    int32_eq_self (by unfold InInt32; omega)
  rw [seekNewline, hlen, seekLoop_eq (by simp)]
  simp

/-- A number is read up to the carriage return. -/
theorem readDigits_append {s : List UInt8} (h : 13 ∈ s) (v : Int) (t : List UInt8) :
    readDigits v (s ++ t) = readDigits v s := by
  induction s generalizing v with
  | nil => cases h
  | cons c s ih =>
    rw [List.cons_append, readDigits, readDigits]
    by_cases hc : c = 13
    · rw [if_pos hc, if_pos hc]
    · have hmem : 13 ∈ s := (List.mem_cons.mp h).resolve_left (Ne.symm hc)
      rw [if_neg hc, if_neg hc]
      split_ifs
      · exact ih hmem _
      · rfl

/-- A line end that is found has a carriage return. -/
theorem mem_of_findNewline {s : List UInt8} {n : Nat} (h : findNewline s = some n) : 13 ∈ s := by
  induction s generalizing n with
  | nil => cases h
  | cons c s ih =>
    rw [findNewline] at h
    split_ifs at h with hc
    · exact hc.1 ▸ List.mem_cons_self ..
    · obtain ⟨m, hm, -⟩ := Option.map_eq_some_iff.mp h
      exact List.mem_cons_of_mem _ (ih hm)

/-- A number is read up to its line end. -/
theorem readLongLong_append {s : List UInt8} {n : Nat} (h : findNewline s = some n)
    (t : List UInt8) : readLongLong (s ++ t) = readLongLong s := by
  have hmem := mem_of_findNewline h
  cases s with
  | nil => cases h
  | cons c s =>
    have hdigits : readDigits 0 (if some c = some 45 ∨ some c = some 43 then s ++ t
        else c :: (s ++ t)) =
        readDigits 0 (if some c = some 45 ∨ some c = some 43 then s else c :: s) := by
      split_ifs with hsign
      · have hc : c ≠ 13 := by
          rintro rfl
          simp at hsign
        exact readDigits_append ((List.mem_cons.mp hmem).resolve_left (Ne.symm hc)) 0 t
      · exact readDigits_append hmem 0 t
    unfold readLongLong
    rw [List.cons_append, List.head?_cons, List.head?_cons, List.tail_cons, List.tail_cons, hdigits]

/-! ## Tokens -/

/-- What an item is behind its type. -/
inductive Token where
  /-- An object that is complete. -/
  | obj (o : RedisReply)
  /-- The head of an array with elements. -/
  | header (elements : Int)

/-- The object of a line. -/
def lineObject (type : ReplyType) (u : List UInt8) (n : Nat) : RedisReply :=
  if type = .integer then .integer (readLongLong u) else .text type (u.take n)

/-- The token for a count of elements. -/
def arrayToken (elements : Int) : Token :=
  if elements = -1 then .obj .nil
  else if 0 < elements then .header elements
  else .obj (createArrayObject (int32 elements))

/-- The token at the front of a stream, if it is complete, and the rest. -/
def token (type : ReplyType) (u : List UInt8) : Option (Token × List UInt8) :=
  match findNewline u with
  | none => none
  | some n => match type with
    | .string =>
      if readLongLong u < 0 then some (.obj .nil, u.drop (n + 2))
      else if n + 2 + (readLongLong u).toNat + 2 ≤ u.length then
        some (.obj (.text .string ((u.drop (n + 2)).take (readLongLong u).toNat)),
          u.drop (n + 2 + (readLongLong u).toNat + 2))
      else none
    | .array => some (arrayToken (readLongLong u), u.drop (n + 2))
    | type => some (.obj (lineObject type u n), u.drop (n + 2))

/-- A line is read without what follows it. -/
theorem lineObject_append {type : ReplyType} {u : List UInt8} {n : Nat}
    (h : findNewline u = some n) (v : List UInt8) :
    lineObject type (u ++ v) n = lineObject type u n := by
  have hle := findNewline_le h
  rw [lineObject, lineObject, readLongLong_append h, List.take_append_of_le_length (by omega)]

variable {type : ReplyType} {u r : List UInt8} {t : Token}

/-- Every token takes some of the input. -/
theorem token_length (h : token type u = some (t, r)) : r.length < u.length := by
  rw [token] at h
  cases hn : findNewline u with
  | none => rw [hn] at h; cases h
  | some n =>
    have hle := findNewline_le hn
    rw [hn] at h
    cases type
    case string =>
      dsimp only at h
      split_ifs at h with h₁ h₂
      all_goals
        cases h
        rw [List.length_drop]
        omega
    all_goals
      cases h
      rw [List.length_drop]
      omega

/-- A token is read without what follows it. -/
theorem token_append (h : token type u = some (t, r)) (v : List UInt8) :
    token type (u ++ v) = some (t, r ++ v) := by
  rw [token] at h ⊢
  cases hn : findNewline u with
  | none => rw [hn] at h; cases h
  | some n =>
    have hle := findNewline_le hn
    have hdrop : (u ++ v).drop (n + 2) = u.drop (n + 2) ++ v :=
      List.drop_append_of_le_length hle
    rw [hn] at h
    rw [findNewline_append hn, readLongLong_append hn]
    cases type
    case string =>
      dsimp only at h ⊢
      split_ifs at h with h₁ h₂
      · cases h
        rw [if_pos h₁, hdrop]
      · cases h
        rw [if_neg h₁, if_pos (by rw [List.length_append]; omega), hdrop,
          List.take_append_of_le_length (by rw [List.length_drop]; omega),
          List.drop_append_of_le_length h₂]
    all_goals
      cases h
      dsimp only
      rw [hdrop]
    all_goals rw [lineObject_append hn]

/-! ## The scanner -/

/-- What the reader keeps of a reply that is not complete. -/
structure Pending where
  /-- The tasks. -/
  rstack : List ReadTask
  /-- The objects made so far. -/
  reply : Option RedisReply

/-- Why the reader stops for good. -/
inductive Refusal where
  /-- It reports an error. -/
  | error (type : RedisErr) (str : List UInt8)
  /-- It has no meaning. -/
  | undefined

/-- Before a reply. -/
def Pending.start : Pending := ⟨[newTask (-1)], none⟩

/-- The pending reply behind a token; an empty stack is one that is complete. -/
def Pending.perform (p : Pending) : Token → Option Pending
  | .obj o => match place p.rstack p.reply o, moveToNextTask p.rstack with
    | some reply, some rstack => some ⟨rstack, some reply⟩
    | _, _ => none
  | .header elements => match p.rstack with
    | [] => none
    | cur :: below => (place p.rstack p.reply (createArrayObject (int32 elements))).map fun reply =>
      ⟨newTask 0 :: { cur with elements := int32 elements } :: below, some reply⟩

/-- The reader between items: a reply that is complete is given. -/
def settle (rest : List UInt8) : Option Pending → Scanned UInt8 Pending RedisReply Refusal
  | none => .fail .undefined
  | some p => if p.rstack = [] then .item .start p.reply rest else .item p none rest

/-- An item behind its type. -/
def scanTyped (p : Pending) (type : ReplyType) (u : List UInt8) :
    Scanned UInt8 Pending RedisReply Refusal :=
  if type = .nil then .fail .undefined
  else if type = .array ∧ p.rstack.length = 9 then .fail (.error .protocol depthText)
  else match token type u with
    | none => .wait p u
    | some (t, rest) => settle rest (p.perform t)

/-- An item. -/
def scanItem (p : Pending) (u : List UInt8) : Scanned UInt8 Pending RedisReply Refusal :=
  match p.rstack with
  | [] => .fail .undefined
  | cur :: below => match cur.type with
    | some type => scanTyped p type u
    | none => match u with
      | [] => .wait p []
      | b :: u => match typeOfByte b with
        | none => .fail (.error .protocol (protocolByteText b))
        | some type => scanTyped { p with rstack := { cur with type := some type } :: below } type u

section laws

variable {p p' : Pending} {out : Option RedisReply} {e : Refusal}

/-- An item is settled without what follows it. -/
theorem settle_item {o : Option Pending} {rest : List UInt8}
    (h : settle rest o = .item p' out r) : r = rest ∧ ∀ v, settle v o = .item p' out v := by
  cases o with
  | none => cases h
  | some p =>
    unfold settle at h ⊢
    dsimp only at h ⊢
    split_ifs at h ⊢
    all_goals
      cases h
      exact ⟨rfl, fun _ => rfl⟩

/-- A failure is settled without what follows it. -/
theorem settle_fail {o : Option Pending} {rest : List UInt8} (h : settle rest o = .fail e) :
    ∀ v, settle v o = .fail e := by
  cases o with
  | none => exact fun _ => h
  | some p =>
    unfold settle at h
    dsimp only at h
    split_ifs at h

/-- What is settled does not wait. -/
theorem settle_ne_wait {o : Option Pending} {rest : List UInt8} : settle rest o ≠ .wait p' r := by
  intro h
  cases o with
  | none => cases h
  | some p =>
    unfold settle at h
    dsimp only at h
    split_ifs at h

/-- An item behind its type byte takes some of the input, whatever follows. -/
theorem scanTyped_item (h : scanTyped p type u = .item p' out r) :
    r.length < u.length ∧ ∀ v, scanTyped p type (u ++ v) = .item p' out (r ++ v) := by
  unfold scanTyped at h ⊢
  split_ifs at h ⊢ with hnil hdepth
  cases ht : token type u with
  | none => rw [ht] at h; cases h
  | some tr =>
    rw [ht] at h
    obtain ⟨rfl, hall⟩ := settle_item h
    refine ⟨token_length ht, fun v => ?_⟩
    rw [token_append ht v]
    exact hall _

/-- A failure behind the type byte is one whatever follows. -/
theorem scanTyped_fail (h : scanTyped p type u = .fail e) (v : List UInt8) :
    scanTyped p type (u ++ v) = .fail e := by
  unfold scanTyped at h ⊢
  split_ifs at h ⊢ with hnil hdepth
  · exact h
  · exact h
  · cases ht : token type u with
    | none => rw [ht] at h; cases h
    | some tr =>
      rw [ht] at h
      rw [token_append ht v]
      exact settle_fail h _

/-- A wait behind the type byte leaves everything as it was. -/
theorem scanTyped_wait (h : scanTyped p type u = .wait p' r) :
    p' = p ∧ r = u ∧ scanTyped p type [] = .wait p [] := by
  unfold scanTyped at h ⊢
  split_ifs at h ⊢ with hnil hdepth
  cases ht : token type u with
  | none =>
    rw [ht] at h
    cases h
    exact ⟨rfl, rfl, rfl⟩
  | some tr =>
    rw [ht] at h
    exact absurd h settle_ne_wait

/-- An item is scanned behind its type, or nothing has arrived, or it has no type. -/
theorem scanItem_cases (p : Pending) (u : List UInt8) :
    (∃ e, ∀ v, scanItem p (u ++ v) = .fail e) ∨ scanItem p u = .wait p u ∧ u = [] ∨
    ∃ q type w, (∃ skip : List UInt8, u = skip ++ w) ∧ (∀ v, scanItem q v = scanTyped q type v) ∧
      ∀ v, scanItem p (u ++ v) = scanTyped q type (w ++ v) := by
  unfold scanItem
  cases hstack : p.rstack with
  | nil => exact .inl ⟨_, fun _ => rfl⟩
  | cons cur below =>
    dsimp only
    cases htype : cur.type with
    | some type =>
      refine .inr (.inr ⟨p, type, u, ⟨[], rfl⟩, fun v => ?_, fun v => rfl⟩)
      rw [hstack]
      dsimp only
      rw [htype]
    | none =>
      dsimp only
      cases u with
      | nil => exact .inr (.inl ⟨rfl, rfl⟩)
      | cons b u =>
        dsimp only [List.cons_append]
        cases typeOfByte b with
        | none => exact .inl ⟨_, fun _ => rfl⟩
        | some type => exact .inr (.inr ⟨_, type, u, ⟨[b], rfl⟩, fun v => rfl, fun v => rfl⟩)

/-- An item takes some of the input, whatever follows. -/
theorem scanItem_item (h : scanItem p u = .item p' out r) :
    r.length < u.length ∧ ∀ v, scanItem p (u ++ v) = .item p' out (r ++ v) := by
  rcases scanItem_cases p u with ⟨e, hfail⟩ | ⟨hwait, -⟩ | ⟨q, type, w, ⟨skip, rfl⟩, -, hall⟩
  · have := hfail []
    rw [List.append_nil, h] at this
    cases this
  · rw [h] at hwait
    cases hwait
  · have hw := hall []
    rw [List.append_nil, List.append_nil, h] at hw
    obtain ⟨hlt, hmore⟩ := scanTyped_item hw.symm
    refine ⟨?_, fun v => (hall v).trans (hmore v)⟩
    rw [List.length_append]
    omega

/-- A failure is one whatever follows. -/
theorem scanItem_fail (h : scanItem p u = .fail e) (v : List UInt8) :
    scanItem p (u ++ v) = .fail e := by
  rcases scanItem_cases p u with ⟨e', hfail⟩ | ⟨hwait, -⟩ | ⟨q, type, w, -, -, hall⟩
  · have h0 := hfail []
    rw [List.append_nil, h] at h0
    exact (hfail v).trans h0.symm
  · rw [h] at hwait
    cases hwait
  · have hw := hall []
    rw [List.append_nil, List.append_nil, h] at hw
    exact (hall v).trans (scanTyped_fail hw.symm v)

/-- A wait is taken up again where it was. -/
theorem scanItem_wait (h : scanItem p u = .wait p' r) :
    scanItem p' [] = .wait p' [] ∧ ∀ v, scanItem p' (r ++ v) = scanItem p (u ++ v) := by
  rcases scanItem_cases p u with ⟨e, hfail⟩ | ⟨hwait, rfl⟩ | ⟨q, type, w, -, hq, hall⟩
  · have := hfail []
    rw [List.append_nil, h] at this
    cases this
  · rw [h] at hwait
    cases hwait
    exact ⟨h, fun v => rfl⟩
  · have hw := hall []
    rw [List.append_nil, List.append_nil, h] at hw
    obtain ⟨rfl, rfl, hnil⟩ := scanTyped_wait hw.symm
    exact ⟨(hq []).trans hnil, fun v => (hq _).trans (hall v).symm⟩

end laws

/-- The reader, as a scanner. -/
def scanner : Scanner UInt8 Pending RedisReply Refusal where
  scan := scanItem
  item_length h := (scanItem_item h).1
  item_append h := (scanItem_item h).2
  fail_append h := scanItem_fail h
  wait_append h := (scanItem_wait h).2

end ServerCom.Redis.Reader
