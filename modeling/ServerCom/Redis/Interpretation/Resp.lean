import ServerCom.Redis.Native.Outgoing

/-!
# Commands in RESP

The text of a command is an array of bulk strings, of the size that is counted for it, and
the arguments are read back from it. A command that is sent as text does to the connection
what it does as a list of arguments.
-/

namespace ServerCom.Redis

open Text

/-- A bulk string: its length and its bytes, each ended by a line end. -/
def bulk (arg : Arg) : List UInt8 :=
  literal "$" ++ decimal arg.length ++ literal "\r\n" ++ arg ++ literal "\r\n"

/-- The RESP encoding of a command: an array of bulk strings. -/
def respArray (args : List Arg) : List UInt8 :=
  literal "*" ++ decimal args.length ++ literal "\r\n" ++ args.flatMap bulk

/-- The text of a command is an array of bulks. -/
theorem commandText_eq (args : List Arg) : commandText args = respArray args := by
  have hloop : ∀ cmd, args.foldl (fun cmd arg =>
      cmd ++ (literal "$" ++ decimal arg.length ++ literal "\r\n") ++ arg ++ literal "\r\n") cmd =
      cmd ++ args.flatMap bulk := by
    induction args with
    | nil => exact fun cmd => (List.append_nil cmd).symm
    | cons arg args ih =>
      intro cmd
      rw [List.foldl_cons, ih, List.flatMap_cons, bulk]
      simp only [List.append_assoc]
  rw [commandText, hloop, respArray]

/-- `bulklen` is the length of a bulk. -/
theorem length_bulk (arg : Arg) : (bulk arg).length = bulklen arg.length := by
  have hlead : (literal "$").length = 1 := rfl
  have hend : (literal "\r\n").length = 2 := rfl
  simp only [bulk, bulklen, intlen, List.length_append, hlead, hend]

/-- The size that is counted for a text is its size, as both loops assert. -/
theorem length_respArray (args : List Arg) : (respArray args).length = totlen args := by
  have hlead : (literal "*").length = 1 := rfl
  have hend : (literal "\r\n").length = 2 := rfl
  simp only [respArray, totlen, intlen, List.length_append, List.length_flatMap, hlead, hend,
    length_bulk]

/-- A command is formatted when an `int` can count its text. -/
theorem redisFormatCommandArgv_eq (args : List Arg) : redisFormatCommandArgv args =
    if (respArray args).length + 1 < 2 ^ 31 then some (respArray args) else none := by
  rw [redisFormatCommandArgv, commandText_eq, length_respArray]

/-! ## Reading the arguments back -/

/-- An argument is read back from its bulk string. -/
theorem nextArgument_bulk (arg : Arg) (rest : List UInt8) :
    nextArgument (bulk arg ++ rest) = some (arg, rest) := by
  have hbulk : bulk arg ++ rest =
      36 :: (decimal arg.length ++ 13 :: 10 :: (arg ++ 13 :: 10 :: rest)) := by
    have hlead : literal "$" = [36] := rfl
    have hend : literal "\r\n" = [13, 10] := rfl
    simp only [bulk, hlead, hend, List.append_assoc, List.cons_append, List.nil_append]
  have hdigits : (decimal arg.length ++ 13 :: 10 :: (arg ++ 13 :: 10 :: rest)).takeWhile isDigit =
      decimal arg.length :=
    (span_digits (fun c hc => isDigit_of_mem_decimal hc) (by simp [isDigit])).1
  have hline : ∀ c ∈ decimal arg.length, decide (c ≠ 13) = true := by
    intro c hc
    refine decide_eq_true fun he => ?_
    rw [he] at hc
    exact absurd (isDigit_of_mem_decimal hc) (by decide)
  have hdollar : (36 :: (decimal arg.length ++ 13 :: 10 :: (arg ++ 13 :: 10 :: rest))).dropWhile
      (· ≠ 36) = 36 :: (decimal arg.length ++ 13 :: 10 :: (arg ++ 13 :: 10 :: rest)) :=
    List.dropWhile_cons_of_neg (by simp)
  have hstr : (decimal arg.length ++ 13 :: 10 :: (arg ++ 13 :: 10 :: rest)).dropWhile (· ≠ 13) =
      13 :: 10 :: (arg ++ 13 :: 10 :: rest) := by
    rw [List.dropWhile_append_of_pos hline, List.dropWhile_cons_of_neg (by simp)]
  rw [hbulk, nextArgument, hdollar]
  dsimp only
  rw [hdigits, hstr, digitsValue_decimal]
  simp

/-- What holds no dollar sign is skipped. -/
theorem nextArgument_skip {lead : List UInt8} (h : 36 ∉ lead) (s : List UInt8) :
    nextArgument (lead ++ s) = nextArgument s := by
  have hlead : ∀ c ∈ lead, decide (c ≠ 36) = true :=
    fun c hc => decide_eq_true (ne_of_mem_of_not_mem hc h)
  rw [nextArgument, nextArgument, List.dropWhile_append_of_pos hlead]

/-- The arguments are read back from their bulks. -/
theorem argumentsUpTo_flatMap {args : List Arg} {n : Nat} (h : args.length ≤ n) :
    argumentsUpTo n (args.flatMap bulk) = args := by
  induction args generalizing n with
  | nil => cases n <;> rfl
  | cons arg args ih =>
    cases n with
    | zero => cases h
    | succ n =>
      rw [List.flatMap_cons, argumentsUpTo, nextArgument_bulk]
      exact congrArg (arg :: ·) (ih (Nat.le_of_succ_le_succ h))

/-- There are no more arguments than bytes. -/
theorem length_le_flatMap (args : List Arg) : args.length ≤ (args.flatMap bulk).length := by
  induction args with
  | nil => exact Nat.le_refl _
  | cons arg args ih =>
    rw [List.flatMap_cons, List.length_append, List.length_cons, length_bulk, bulklen]
    omega

/-- The arguments are read back from the text of a command. -/
theorem arguments_respArray (args : List Arg) : arguments (respArray args) = args := by
  have hcount : 36 ∉ literal "*" ++ decimal args.length ++ literal "\r\n" := by
    have hdigits : 36 ∉ decimal args.length :=
      fun h => absurd (isDigit_of_mem_decimal h) (by decide)
    simp only [List.mem_append, not_or]
    exact ⟨⟨by decide, hdigits⟩, by decide⟩
  have hlen : args.length ≤ (respArray args).length := by
    rw [respArray, List.length_append]
    exact Nat.le_trans (length_le_flatMap args) (Nat.le_add_left _ _)
  rw [arguments]
  generalize (respArray args).length = n at hlen
  cases n with
  | zero =>
    rw [List.eq_nil_of_length_eq_zero (Nat.le_zero.mp hlen)]
    rfl
  | succ n =>
    have hskip : argumentsUpTo (n + 1) (respArray args) =
        argumentsUpTo (n + 1) (args.flatMap bulk) := by
      rw [argumentsUpTo, argumentsUpTo, respArray, nextArgument_skip hcount]
    rw [hskip, argumentsUpTo_flatMap hlen]

/-! ## Commands as text and as lists of arguments -/

namespace Outgoing

variable {o o' : Outgoing} {cbData : Option OptPtr} {args : List Arg}

/-- Sending the text of a command is sending the command. -/
theorem world_asyncCommandText (o : Outgoing) (c : ContextPtr) (cbData : Option OptPtr)
    (args : List Arg) : (o.asyncCommandText c cbData (respArray args)).world =
      o.world.redisAsyncCommand c cbData args := by
  rw [asyncCommandText, World.redisAsyncCommand, arguments_respArray]
  cases o.world.contexts c with
  | none => rfl
  | some ac =>
    dsimp only
    cases ac.command cbData args <;> rfl

/-- A vector that is sent as text does to the connection what it does as a list. -/
theorem world_redisAsyncCmdArgv (h : o.redisAsyncCmdArgv cbData args = some o') :
    o'.world = o.world.redisAsyncCmdArgv cbData args := by
  rw [redisAsyncCmdArgv] at h
  rw [World.redisAsyncCmdArgv]
  cases hptr : o.world.conn.aeContext with
  | none =>
    rw [hptr] at h
    cases h
    rfl
  | some c =>
    rw [hptr] at h
    dsimp only at h ⊢
    split_ifs at h ⊢
    · cases h
      rfl
    · rw [redisAsyncCommandArgv, redisFormatCommandArgv_eq] at h
      split_ifs at h
      · cases h
        exact world_asyncCommandText o.clearNewOpt c cbData args
      · cases h

end Outgoing

end ServerCom.Redis
