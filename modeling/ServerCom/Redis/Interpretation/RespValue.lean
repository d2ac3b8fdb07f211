import ServerCom.Redis.Interpretation.ReplyScanner
import ServerCom.Redis.Interpretation.Resp

/-!
# Values in RESP

The replies a server sends, and their texts. The reader makes its own object of each, unless
arrays are nested too deeply in it; then it stops at the first array that is too deep.
-/

namespace ServerCom.Redis

open Text

/-- What a server replies. -/
inductive Resp where
  /-- A simple error. -/
  | error (text : List UInt8)
  /-- A simple string. -/
  | status (text : List UInt8)
  /-- An integer. -/
  | integer (n : Int)
  /-- A bulk string. -/
  | bulk (bytes : Arg)
  /-- The bulk string that is null. -/
  | nullBulk
  /-- The array that is null. -/
  | nullArray
  /-- An array. -/
  | array (xs : List Resp)

namespace Resp

/-- An integer in decimal. -/
def decimalInt (n : Int) : List UInt8 :=
  if n < 0 then 45 :: decimal n.natAbs else decimal n.natAbs

/-- A line end. -/
def crlf : List UInt8 := [13, 10]

mutual

/-- The text of a value. -/
def encode : Resp → List UInt8
  | .error text => 45 :: (text ++ crlf)
  | .status text => 43 :: (text ++ crlf)
  | .integer n => 58 :: (decimalInt n ++ crlf)
  | .bulk bytes => 36 :: (decimal bytes.length ++ crlf ++ bytes ++ crlf)
  | .nullBulk => 36 :: (decimalInt (-1) ++ crlf)
  | .nullArray => 42 :: (decimalInt (-1) ++ crlf)
  | .array xs => 42 :: (decimal xs.length ++ crlf ++ encodeAll xs)

/-- The texts of some values behind each other. -/
def encodeAll : List Resp → List UInt8
  | [] => []
  | x :: xs => encode x ++ encodeAll xs

end

mutual

/-- How deeply arrays are nested in a value. -/
def levels : Resp → Nat
  | .nullArray => 1
  | .array xs => levelsAll xs + 1
  | _ => 0

/-- How deeply arrays are nested in some values. -/
def levelsAll : List Resp → Nat
  | [] => 0
  | x :: xs => max (levels x) (levelsAll xs)

end

mutual

/-- The object a reader makes of a value. -/
def toReply : Resp → RedisReply
  | .error text => .text .error text
  | .status text => .text .status text
  | .integer n => .integer n
  | .bulk bytes => .text .string bytes
  | .nullBulk => .nil
  | .nullArray => .nil
  | .array xs => .array xs.length (toReplies xs)

/-- The slots a reader fills with some values. -/
def toReplies : List Resp → List (Option RedisReply)
  | [] => []
  | x :: xs => some (toReply x) :: toReplies xs

end

/-- A value that has a text: simple strings hold no line end, and numbers are in range. -/
inductive Legal : Resp → Prop where
  /-- A simple error. -/
  | error {text : List UInt8} (h : ¬ crlf <:+: text) : Legal (.error text)
  /-- A simple string. -/
  | status {text : List UInt8} (h : ¬ crlf <:+: text) : Legal (.status text)
  /-- An integer. -/
  | integer {n : Int} (hlo : -2 ^ 63 < n) (hhi : n < 2 ^ 63) : Legal (.integer n)
  /-- A bulk string. -/
  | bulk {bytes : Arg} (h : bytes.length < 2 ^ 63) : Legal (.bulk bytes)
  /-- The bulk string that is null. -/
  | nullBulk : Legal .nullBulk
  /-- The array that is null. -/
  | nullArray : Legal .nullArray
  /-- An array. -/
  | array {xs : List Resp} (hlen : xs.length < 2 ^ 31) (h : ∀ x ∈ xs, Legal x) : Legal (.array xs)

/-- Values are nested no deeper than `n` when each of them is. -/
theorem levelsAll_le {xs : List Resp} {n : Nat} :
    levelsAll xs ≤ n ↔ ∀ x ∈ xs, x.levels ≤ n := by
  induction xs with
  | nil => exact iff_of_true (Nat.zero_le n) fun x hx => absurd hx List.not_mem_nil
  | cons x xs ih => rw [levelsAll, max_le_iff, ih, List.forall_mem_cons]

/-- The command of some arguments is the array of their bulk strings. -/
def command (args : List Arg) : Resp := .array (args.map .bulk)

/-- The text of a command is the encoding of its value. -/
theorem respArray_eq (args : List Arg) : respArray args = (command args).encode := by
  have hbulk : ∀ args : List Arg, args.flatMap Redis.bulk = encodeAll (args.map bulk) := by
    intro args
    induction args with
    | nil => rfl
    | cons arg args ih =>
      rw [List.flatMap_cons, List.map_cons, encodeAll, ih, encode]
      rfl
  rw [respArray, command, encode, hbulk, List.length_map]
  rfl

/-- The object a reader makes of a command. -/
theorem toReply_command (args : List Arg) : (command args).toReply =
    .array args.length (args.map fun arg => some (.text .string arg)) := by
  have hslots : toReplies (args.map bulk) = args.map fun arg => some (.text .string arg) := by
    induction args with
    | nil => rfl
    | cons arg args ih => rw [List.map_cons, toReplies, ih, toReply, List.map_cons]
  rw [command, toReply, hslots, List.length_map]

/-- Commands have no arrays in them. -/
theorem levels_command (args : List Arg) : (command args).levels = 1 := by
  have hflat : levelsAll (args.map bulk) ≤ 0 := by
    rw [levelsAll_le]
    intro x hx
    obtain ⟨arg, -, rfl⟩ := List.mem_map.mp hx
    exact Nat.le_refl 0
  rw [command, levels, Nat.le_zero.mp hflat]

end Resp

/-- The text of a command is the one of a legal value. -/
theorem text_eq {args : List Arg} {text : List UInt8}
    (h : redisFormatCommandArgv args = some text) :
    text = (Resp.command args).encode ∧ (Resp.command args).Legal := by
  rw [redisFormatCommandArgv_eq] at h
  split_ifs at h with hlen
  cases h
  have hargs : ∀ arg ∈ args, arg.length < 2 ^ 31 := by
    intro arg harg
    have hbulk : bulk arg ∈ args.map bulk := List.mem_map_of_mem harg
    have hle := (List.sublist_flatten_of_mem hbulk).length_le
    rw [← List.flatMap_def, length_bulk, bulklen] at hle
    rw [respArray, List.length_append] at hlen
    omega
  refine ⟨Resp.respArray_eq args, .array ?_ ?_⟩
  · have hle := length_le_flatMap args
    rw [respArray, List.length_append] at hlen
    rw [List.length_map]
    omega
  · intro x hx
    obtain ⟨arg, harg, rfl⟩ := List.mem_map.mp hx
    have := hargs arg harg
    exact .bulk (by omega)

/-- The texts of some commands, one behind the other. -/
theorem texts_eq {argss : List (List Arg)} {texts : List (List UInt8)}
    (h : argss.map redisFormatCommandArgv = texts.map some) :
    texts.flatten = Resp.encodeAll (argss.map Resp.command) ∧
      ∀ x ∈ argss.map Resp.command, x.Legal := by
  induction argss generalizing texts with
  | nil =>
    cases texts with
    | nil => exact ⟨rfl, fun x hx => absurd hx List.not_mem_nil⟩
    | cons text texts => cases h
  | cons args argss ih =>
    cases texts with
    | nil => cases h
    | cons text texts =>
      obtain ⟨hfirst, hrest⟩ := List.cons.inj h
      obtain ⟨htext, hlegal⟩ := text_eq hfirst
      obtain ⟨hflat, hlegals⟩ := ih hrest
      refine ⟨?_, List.forall_mem_cons.mpr ⟨hlegal, hlegals⟩⟩
      rw [List.flatten_cons, hflat, htext]
      rfl

/-! ## Tokens of values -/

namespace Reader

open Resp

/-- A text without line ends ends at the first one. -/
theorem findNewline_line {text : List UInt8} (h : ¬ crlf <:+: text) (rest : List UInt8) :
    findNewline (text ++ crlf ++ rest) = some text.length := by
  induction text with
  | nil => rfl
  | cons c text ih =>
    have htail : ¬ crlf <:+: text := fun hin => h (hin.trans (List.suffix_cons c text).isInfix)
    rw [List.cons_append, List.cons_append, findNewline, ih htail, if_neg]
    · rfl
    · rintro ⟨rfl, hd⟩
      cases text with
      | nil => cases hd
      | cons d text =>
        rw [List.cons_append, List.cons_append, List.head?_cons, Option.some.injEq] at hd
        rw [hd] at h
        exact h ⟨[], text, rfl⟩

/-- What holds no carriage return is a line. -/
theorem findNewline_of_notMem {text : List UInt8} (h : 13 ∉ text) (rest : List UInt8) :
    findNewline (text ++ crlf ++ rest) = some text.length :=
  findNewline_line (fun hin => h (hin.subset (List.mem_cons_self ..))) rest

/-- A number in range is kept. -/
theorem int64_eq_self {x : Int} (hlo : -2 ^ 63 ≤ x) (hhi : x < 2 ^ 63) : int64 x = x :=
  Int.bmod_eq_of_le (by omega) (by omega)

/-- Digits are read as the number they denote while it is in range. -/
theorem readDigits_digits (ds : List UInt8) (hall : ∀ c ∈ ds, isDigit c = true) {v : Nat}
    (hv : ds.foldl (fun v c => 10 * v + (c.toNat - 48)) v < 2 ^ 63) (rest : List UInt8) :
    readDigits v (ds ++ 13 :: rest) =
      some (ds.foldl (fun v c => 10 * v + (c.toNat - 48)) v : Nat) := by
  induction ds generalizing v with
  | nil => rfl
  | cons c ds ih =>
    obtain ⟨hc, hds⟩ := List.forall_mem_cons.mp hall
    have hgrow : ∀ (ds : List UInt8) (v : Nat),
        v ≤ ds.foldl (fun v c => 10 * v + (c.toNat - 48)) v := by
      intro ds
      induction ds with
      | nil => exact fun v => Nat.le_refl v
      | cons d ds ih =>
        intro v
        have hmore : v ≤ 10 * v + (d.toNat - 48) := by omega
        exact Nat.le_trans hmore (ih _)
    have hne : c ≠ 13 := by
      rintro rfl
      cases hc
    have hdigit : 48 ≤ c.toNat := by
      rw [isDigit, Bool.and_eq_true, decide_eq_true_eq] at hc
      exact UInt8.le_iff_toNat_le.mp hc.1
    rw [List.foldl_cons] at hv ⊢
    have hnext := hgrow ds (10 * v + (c.toNat - 48))
    have hten : int64 ((v : Int) * 10) = v * 10 := int64_eq_self (by omega) (by omega)
    have hstep : int64 (int64 ((v : Int) * 10) + ((c.toNat : Int) - 48)) =
        ((10 * v + (c.toNat - 48) : Nat) : Int) := by
      rw [hten, int64_eq_self (by omega) (by omega)]
      omega
    rw [List.cons_append, readDigits, if_neg hne, if_pos hc, hstep, ih hds hv]

/-- A number is read back from its digits. -/
theorem readLongLong_decimal {n : Nat} (hn : n < 2 ^ 63) (rest : List UInt8) :
    readLongLong (decimal n ++ 13 :: rest) = n := by
  have hread : readDigits 0 (decimal n ++ 13 :: rest) = some (n : Int) := by
    have h := readDigits_digits (decimal n) (v := 0)
      (fun c hc => isDigit_of_mem_decimal hc) (by
        rw [← digitsValue, digitsValue_decimal]
        exact hn) rest
    rw [← digitsValue, digitsValue_decimal] at h
    exact h
  obtain ⟨c, cs, hcs⟩ := List.exists_cons_of_ne_nil (decimal_ne_nil n)
  have hc : isDigit c = true := isDigit_of_mem_decimal (hcs ▸ List.mem_cons_self ..)
  have hminus : some c ≠ some 45 := by
    rintro ⟨⟩
    cases hc
  have hplus : some c ≠ some 43 := by
    rintro ⟨⟩
    cases hc
  have hhead : (decimal n ++ 13 :: rest).head? = some c := by rw [hcs]; rfl
  rw [readLongLong, hhead, if_neg hminus, if_neg (by simp [hminus, hplus]), hread]
  dsimp only
  rw [one_mul, int64_eq_self (by omega) (by omega)]

/-- An integer is read back from its text. -/
theorem readLongLong_decimalInt {n : Int} (hlo : -2 ^ 63 < n) (hhi : n < 2 ^ 63)
    (rest : List UInt8) : readLongLong (decimalInt n ++ 13 :: rest) = n := by
  unfold decimalInt
  split_ifs with hneg
  · have hread : readDigits 0 (decimal n.natAbs ++ 13 :: rest) = some (n.natAbs : Int) := by
      have h := readDigits_digits (decimal n.natAbs) (v := 0)
        (fun c hc => isDigit_of_mem_decimal hc) (by
          rw [← digitsValue, digitsValue_decimal]
          omega) rest
      rw [← digitsValue, digitsValue_decimal] at h
      exact h
    rw [readLongLong, List.cons_append, List.head?_cons, if_pos rfl, if_pos (Or.inl rfl),
      List.tail_cons, hread]
    dsimp only
    rw [int64_eq_self (by omega) (by omega)]
    omega
  · rw [readLongLong_decimal (by omega)]
    omega

/-- No carriage return is in a number. -/
theorem notMem_decimal (n : Nat) : 13 ∉ decimal n :=
  fun h => absurd (isDigit_of_mem_decimal h) (by decide)

/-- No carriage return is in a number with its sign. -/
theorem notMem_decimalInt (n : Int) : 13 ∉ decimalInt n := by
  unfold decimalInt
  split_ifs
  · rw [List.mem_cons, not_or]
    exact ⟨by decide, notMem_decimal _⟩
  · exact notMem_decimal _

/-- The token of a line of an error or a status. -/
theorem token_line {type : ReplyType} (htype : type = .error ∨ type = .status)
    {text : List UInt8} (h : ¬ crlf <:+: text) (rest : List UInt8) :
    token type (text ++ crlf ++ rest) = some (.obj (.text type text), rest) := by
  have hdrop : (text ++ crlf ++ rest).drop (text.length + 2) = rest :=
    List.drop_left' (by rw [List.length_append]; rfl)
  have htake : (text ++ crlf ++ rest).take text.length = text := by
    rw [List.append_assoc, List.take_left]
  rw [token, findNewline_line h]
  rcases htype with rfl | rfl
  all_goals
    dsimp only
    rw [hdrop, lineObject, if_neg (by decide), htake]

/-- An encoded integer is read as it. -/
theorem token_integer {n : Int} (hlo : -2 ^ 63 < n) (hhi : n < 2 ^ 63) (rest : List UInt8) :
    token .integer (decimalInt n ++ crlf ++ rest) = some (.obj (.integer n), rest) := by
  have hdrop : (decimalInt n ++ crlf ++ rest).drop ((decimalInt n).length + 2) = rest :=
    List.drop_left' (by rw [List.length_append]; rfl)
  have hread : readLongLong (decimalInt n ++ crlf ++ rest) = n := by
    rw [List.append_assoc]
    exact readLongLong_decimalInt hlo hhi _
  rw [token, findNewline_of_notMem (notMem_decimalInt n)]
  dsimp only
  rw [hdrop, lineObject, if_pos rfl, hread]

/-- The bulk of length `-1` is read as `nil`. -/
theorem token_nullBulk (rest : List UInt8) :
    token .string (decimalInt (-1) ++ crlf ++ rest) = some (.obj .nil, rest) := by
  have hdrop : (decimalInt (-1) ++ crlf ++ rest).drop ((decimalInt (-1)).length + 2) = rest :=
    List.drop_left' (by rw [List.length_append]; rfl)
  have hread : readLongLong (decimalInt (-1) ++ crlf ++ rest) = -1 := by
    rw [List.append_assoc]
    exact readLongLong_decimalInt (by decide) (by decide) _
  rw [token, findNewline_of_notMem (notMem_decimalInt _)]
  dsimp only
  rw [hread, if_pos (by decide), hdrop]

/-- An encoded bulk is read as it, with any bytes inside. -/
theorem token_bulk {bytes : List UInt8} (h : bytes.length < 2 ^ 63) (rest : List UInt8) :
    token .string (decimal bytes.length ++ crlf ++ bytes ++ crlf ++ rest) =
      some (.obj (.text .string bytes), rest) := by
  have hread : readLongLong (decimal bytes.length ++ crlf ++ (bytes ++ (crlf ++ rest))) =
      bytes.length := by
    rw [List.append_assoc]
    exact readLongLong_decimal h _
  have hhead : (decimal bytes.length ++ crlf).length = (decimal bytes.length).length + 2 := by
    rw [List.length_append]
    rfl
  have hdrop : (decimal bytes.length ++ crlf ++ (bytes ++ (crlf ++ rest))).drop
      ((decimal bytes.length).length + 2) = bytes ++ (crlf ++ rest) :=
    List.drop_left' hhead
  have hcrlf : crlf.length = 2 := rfl
  rw [List.append_assoc, List.append_assoc, token, findNewline_of_notMem (notMem_decimal _)]
  dsimp only
  rw [hread, if_neg (by omega), Int.toNat_natCast, if_pos, hdrop, List.take_left]
  · rw [Nat.add_assoc _ bytes.length 2, ← List.drop_drop, hdrop, ← List.append_assoc,
      List.drop_left' (by rw [List.length_append, hcrlf])]
  · simp only [List.length_append, hcrlf]
    omega

/-- The head of an array is read as its length. -/
theorem token_array (elements : Int) (hlo : -2 ^ 63 < elements) (hhi : elements < 2 ^ 63)
    (rest : List UInt8) :
    token .array (decimalInt elements ++ crlf ++ rest) = some (arrayToken elements, rest) := by
  have hdrop : (decimalInt elements ++ crlf ++ rest).drop ((decimalInt elements).length + 2) =
      rest := List.drop_left' (by rw [List.length_append]; rfl)
  have hread : readLongLong (decimalInt elements ++ crlf ++ rest) = elements := by
    rw [List.append_assoc]
    exact readLongLong_decimalInt hlo hhi _
  rw [token, findNewline_of_notMem (notMem_decimalInt _)]
  dsimp only
  rw [hread, hdrop]

end Reader

end ServerCom.Redis
