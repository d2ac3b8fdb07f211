import ServerCom.Redis.Interpretation.Resp

/-!
# A format and a vector

A command can be sent as a format with its arguments or as a vector. `RedisAsyncCmd` hands
its `va_list` to the variadic function of hiredis, which takes the list itself for the first
argument: the two agree on the formats without any argument.
-/

namespace ServerCom.Redis

open Text

variable {platform : Spec → VarArg → Option (List UInt8)}

/-! ## Formats without arguments -/

/-- Each directive of a format is `%%`; a percent sign at the end is none. -/
def argumentFree : List UInt8 → Bool
  | [] => true
  | [_] => true
  | c :: d :: cs => if c = percent then d == percent && argumentFree cs else argumentFree (d :: cs)

/-- Where `printf` itself needs an argument, it cannot take a `va_list` for it. -/
theorem printfDirective_vaList {s : List UInt8} {ap : List VarArg}
    {r : List UInt8 × List VarArg × Nat} (h : printfDirective platform s ap = .ok r) :
    printfDirective platform s [.vaList] = .error .undefined := by
  rw [printfDirective] at h ⊢
  cases hkind : conversionKind (skipFlags s) with
  | none =>
    rw [hkind] at h
    cases h
  | some kind =>
    have hskip : kind.1.skip [.vaList] = none := by
      cases kind.1 <;> rfl
    dsimp only
    rw [hskip]

/-- A directive with an argument cannot take a `va_list` for it. -/
theorem directive_vaList {s : List UInt8} {ap : List VarArg}
    {r : List UInt8 × List VarArg × Nat} (hs : s.head? ≠ some percent)
    (h : directive platform s ap = .ok r) :
    directive platform s [.vaList] = .error .undefined := by
  rw [directive.eq_def] at h ⊢
  by_cases hstring : s.head? = some 115
  · rw [if_pos hstring]
  by_cases hbinary : s.head? = some 98
  · rw [if_neg hstring, if_pos hbinary]
  rw [if_neg hstring, if_neg hbinary, if_neg hs] at h ⊢
  exact printfDirective_vaList h

/-- Two percent signs stand for one and take no argument. -/
theorem directive_percent (cs : List UInt8) (ap : List VarArg) :
    directive platform (percent :: cs) ap = .ok ([percent], ap, 1) := by
  rw [directive.eq_def, if_neg (by simp [percent]), if_neg (by simp [percent]),
    if_pos List.head?_cons]

namespace Scan

/-- The arguments a scan has not read. -/
def withArgs (st : Scan) (ap : List VarArg) : Scan := { st with ap := ap }

/-- The end of the scan looks at no argument. -/
theorem finish_withArgs (st : Scan) (ap : List VarArg) :
    (st.withArgs ap).finish = st.finish.withArgs ap := by
  rw [finish, finish, withArgs]
  dsimp only
  split_ifs <;> rfl

/-- A literal character looks at no argument. -/
theorem literal_withArgs (st : Scan) (c : UInt8) (ap : List VarArg) :
    (st.withArgs ap).literal c = (st.literal c).withArgs ap := by
  rw [literal, literal]
  split_ifs
  · exact finish_withArgs st ap
  · rfl

/-- A format without arguments is read alike whatever stands in their place, and another one
that had a meaning has none with a `va_list` there. -/
theorem run_vaList {format : List UInt8} {st st' : Scan}
    (h : run platform 0 format st = .ok st') :
    run platform 0 format (st.withArgs [.vaList]) =
      if argumentFree format then .ok (st'.withArgs [.vaList]) else .error .undefined := by
  induction format using argumentFree.induct generalizing st with
  | case1 =>
    cases h
    rfl
  | case2 c =>
    rw [run, if_pos (Or.inr rfl)] at h ⊢
    cases h
    rw [literal_withArgs]
    rfl
  | case3 d cs ih =>
    have hlead : ¬ (percent ≠ percent ∨ d :: cs = []) := by simp
    rw [run, if_neg hlead] at h ⊢
    by_cases hd : d = percent
    · rw [hd, directive_percent] at h ⊢
      rw [argumentFree, if_pos rfl, beq_self_eq_true, Bool.true_and]
      exact ih h
    · have hfree : argumentFree (percent :: d :: cs) = false := by
        rw [argumentFree, if_pos rfl, beq_eq_false_iff_ne.mpr hd, Bool.false_and]
      rw [hfree]
      cases hdirective : directive platform (d :: cs) st.ap with
      | error stop =>
        rw [hdirective] at h
        cases h
      | ok r =>
        have hhead : (d :: cs).head? ≠ some percent := fun he => hd (Option.some.inj he)
        have hlost := directive_vaList hhead hdirective
        rw [withArgs, hlost]
        rfl
  | case4 c d cs hc ih =>
    rw [run, if_pos (Or.inl hc)] at h ⊢
    rw [argumentFree, if_neg hc, literal_withArgs]
    exact ih h

end Scan

/-- What a format gives when a `va_list` stands in the place of its arguments. -/
theorem redisvFormatCommand_vaList {format : CStr} {ap : List VarArg} {args : List Arg}
    (h : redisvFormatCommand platform format ap = .ok args) :
    redisvFormatCommand platform format [.vaList] =
      if argumentFree format.bytes then .ok args else .error .undefined := by
  rw [redisvFormatCommand] at h ⊢
  cases hrun : Scan.run platform 0 format.bytes (.start ap) with
  | error stop =>
    rw [hrun] at h
    cases h
  | ok st =>
    rw [hrun] at h
    cases h
    have hlost : Scan.run platform 0 format.bytes (.start [.vaList]) = _ := Scan.run_vaList hrun
    rw [hlost]
    split_ifs
    · rw [Except.map, Scan.finish_withArgs]
      rfl
    · rfl

/-! ## The two ways to send a command -/

namespace Outgoing

variable {o o' : Outgoing} {cbData : Option OptPtr} {args : List Arg}

/-- A call that returned has queued the encoding of the arguments behind what its context had,
or failed and queued nothing. -/
def Queued (o : Outgoing) (args : List Arg) (o' : Outgoing) : Prop :=
  o'.world.halted = none →
    (o'.world.status = true → ∃ c, o.world.conn.aeContext = some c ∧
      o'.obuf = Function.update o.obuf c (o.obuf c ++ respArray args)) ∧
    (o'.world.status = false → o'.obuf = o.obuf)

/-- A format and a vector do the same: they return the same, leave the same `m_new_opt` and
queue the same bytes. -/
def Agree (platform : Spec → VarArg → Option (List UInt8)) (o : Outgoing) (cbData : Option OptPtr)
    (format : CStr) (ap : List VarArg) (args : List Arg) : Prop :=
  ∃ o', o.redisAsyncCmd platform cbData format ap = some o' ∧
    o.redisAsyncCmdArgv cbData args = some o' ∧ o.Queued args o'

/-- Clearing the new option commutes with sending a text. -/
theorem asyncCommandText_clearNewOpt (o : Outgoing) (c : ContextPtr) (cbData : Option OptPtr)
    (cmd : List UInt8) : o.clearNewOpt.asyncCommandText c cbData cmd =
      (o.asyncCommandText c cbData cmd).clearNewOpt := by
  rw [asyncCommandText, asyncCommandText, clearNewOpt]
  dsimp only
  cases o.world.contexts c with
  | none => rfl
  | some ac =>
    dsimp only
    cases ac.command cbData (arguments cmd) <;> rfl

/-- Behind `halt` there is always a reason to have halted. -/
theorem halted_halt (w : World) (h : Halt) : (w.halt h).halted ≠ none := by
  rw [World.halt]
  cases w.halted <;> exact Option.some_ne_none _

/-- The text of a command is appended and its callback goes to the end of the queue. -/
theorem queued_asyncCommandText {c : ContextPtr} (hptr : o.world.conn.aeContext = some c)
    (cbData : Option OptPtr) (args : List Arg) :
    o.Queued args (o.asyncCommandText c cbData (respArray args)).clearNewOpt := by
  intro hhalted
  rw [asyncCommandText, arguments_respArray] at hhalted ⊢
  cases hc : o.world.contexts c with
  | none =>
    rw [hc] at hhalted
    exact absurd hhalted (halted_halt o.world .dangling)
  | some ac =>
    rw [hc] at hhalted
    dsimp only at hhalted ⊢
    cases hcommand : ac.command cbData args with
    | ok ac' => exact ⟨fun _ => ⟨c, hptr, rfl⟩, fun hfail => by cases hfail⟩
    | err => exact ⟨fun hok => (by cases hok), fun _ => rfl⟩
    | assertion =>
      rw [hcommand] at hhalted
      exact absurd hhalted (halted_halt o.world .assertion)

/-- A refused call queues nothing. -/
theorem queued_ret (o : Outgoing) (args : List Arg) : o.Queued args (o.ret false) :=
  fun _ => ⟨fun hok => (by cases hok), fun _ => rfl⟩

/-- For an attached context, a command is sent only if its format takes no argument. -/
theorem redisAsyncCmd_eq {c : ContextPtr} (hptr : o.world.conn.aeContext = some c)
    (hopt : cbData = o.world.conn.newOpt) {format : CStr} {ap : List VarArg}
    (h : redisvFormatCommand platform format ap = .ok args) :
    o.redisAsyncCmd platform cbData format ap =
      if argumentFree format.bytes then
        (redisFormatCommandArgv args).map fun cmd => (o.asyncCommandText c cbData cmd).clearNewOpt
      else none := by
  rw [redisAsyncCmd, hptr]
  dsimp only
  rw [if_neg (not_not.mpr hopt), redisAsyncCommand, redisvAsyncCommand,
    redisvFormatCommand_vaList h]
  split_ifs
  · exact Option.map_map clearNewOpt (o.asyncCommandText c cbData) (redisFormatCommandArgv args)
  · rfl

/-- For an attached context, a command given by its arguments is sent as their text. -/
theorem redisAsyncCmdArgv_eq {c : ContextPtr} (hptr : o.world.conn.aeContext = some c)
    (hopt : cbData = o.world.conn.newOpt) : o.redisAsyncCmdArgv cbData args =
      (redisFormatCommandArgv args).map fun cmd =>
        (o.asyncCommandText c cbData cmd).clearNewOpt := by
  rw [redisAsyncCmdArgv, hptr]
  dsimp only
  rw [if_neg (not_not.mpr hopt), redisAsyncCommandArgv]
  exact congrArg (Option.map · _) (funext (asyncCommandText_clearNewOpt o c cbData))

/-- Both ways refuse alike. -/
theorem agree_of_refused (platform : Spec → VarArg → Option (List UInt8)) (format : CStr)
    (ap : List VarArg) (args : List Arg)
    (h : o.world.conn.aeContext = none ∨ cbData ≠ o.world.conn.newOpt) :
    o.Agree platform cbData format ap args := by
  refine ⟨o.ret false, ?_, ?_, queued_ret o args⟩
  · rw [redisAsyncCmd]
    split
    · rfl
    · rename_i c hptr
      exact if_pos (h.resolve_left (hptr ▸ Option.some_ne_none c))
  · rw [redisAsyncCmdArgv]
    split
    · rfl
    · rename_i c hptr
      exact if_pos (h.resolve_left (hptr ▸ Option.some_ne_none c))

/-- A format that is sent agrees with the vector when it has no arguments and its text fits. -/
theorem agree_sent_iff {c : ContextPtr} (hptr : o.world.conn.aeContext = some c)
    (hopt : cbData = o.world.conn.newOpt) {format : CStr} {ap : List VarArg}
    (h : redisvFormatCommand platform format ap = .ok args) :
    o.Agree platform cbData format ap args ↔
      argumentFree format.bytes ∧ (respArray args).length + 1 < 2 ^ 31 := by
  rw [Agree, redisAsyncCmd_eq hptr hopt h, redisAsyncCmdArgv_eq hptr hopt,
    redisFormatCommandArgv_eq]
  by_cases hfree : argumentFree format.bytes = true
  · rw [if_pos hfree, and_iff_right hfree]
    by_cases hsize : (respArray args).length + 1 < 2 ^ 31
    · rw [if_pos hsize]
      exact iff_of_true ⟨_, rfl, rfl, queued_asyncCommandText hptr cbData args⟩ hsize
    · rw [if_neg hsize]
      refine iff_of_false ?_ hsize
      rintro ⟨o', hnone, -⟩
      cases hnone
  · rw [if_neg hfree]
    refine iff_of_false ?_ fun hboth => hfree hboth.1
    rintro ⟨o', hnone, -⟩
    cases hnone

/-- The two ways agree exactly where the call is refused, and on the formats without arguments
whose text has a size that is an `int`. -/
theorem agree_iff (platform : Spec → VarArg → Option (List UInt8)) (o : Outgoing)
    (cbData : Option OptPtr) (format : CStr) (ap : List VarArg) (args : List Arg)
    (h : redisvFormatCommand platform format ap = .ok args) :
    o.Agree platform cbData format ap args ↔
      o.world.conn.aeContext = none ∨ cbData ≠ o.world.conn.newOpt ∨
        argumentFree format.bytes ∧ (respArray args).length + 1 < 2 ^ 31 := by
  rw [← or_assoc]
  by_cases hrefused : o.world.conn.aeContext = none ∨ cbData ≠ o.world.conn.newOpt
  · exact iff_of_true (agree_of_refused platform format ap args hrefused) (Or.inl hrefused)
  · obtain ⟨hptr, hopt⟩ := not_or.mp hrefused
    obtain ⟨c, hptr⟩ := Option.ne_none_iff_exists'.mp hptr
    rw [agree_sent_iff hptr (not_not.mp hopt) h, or_iff_right hrefused]

/-- A connection whose object is created, and nothing else. -/
def readyOutgoing : Outgoing where
  world := (World.create.init (literal "127.0.0.1") 6379 .good).createOpt
  obuf := fun _ => []

/-- A command without arguments is sent alike. -/
theorem agree_set : readyOutgoing.Agree (fun _ _ => none) (some 0)
    ⟨literal "SET t1 1", by decide⟩ [] [literal "SET", literal "t1", literal "1"] :=
  (agree_iff _ _ _ _ _ _ (by decide)).mpr (Or.inr (Or.inr (by decide)))

/-- With one `%s` the vector is sent, and the format reads a `va_list` as a string. -/
theorem not_agree_setString :
    redisvFormatCommand (fun _ _ => none) ⟨literal "SET t1 %s", by decide⟩
        [.pointer 4096 (literal "1" ++ [0])] = .ok [literal "SET", literal "t1", literal "1"] ∧
      (readyOutgoing.redisAsyncCmdArgv (some 0)
        [literal "SET", literal "t1", literal "1"]).isSome ∧
      (readyOutgoing.redisAsyncCmd (fun _ _ => none) (some 0) ⟨literal "SET t1 %s", by decide⟩
        [.pointer 4096 (literal "1" ++ [0])]).isNone ∧
      ¬ readyOutgoing.Agree (fun _ _ => none) (some 0) ⟨literal "SET t1 %s", by decide⟩
        [.pointer 4096 (literal "1" ++ [0])] [literal "SET", literal "t1", literal "1"] := by
  have hformat : (readyOutgoing.redisAsyncCmd (fun _ _ => none) (some 0)
      ⟨literal "SET t1 %s", by decide⟩ [.pointer 4096 (literal "1" ++ [0])]).isNone := by
    decide
  refine ⟨by decide, by decide, hformat, ?_⟩
  rintro ⟨o', hsome, -⟩
  rw [hsome] at hformat
  cases hformat

end Outgoing

end ServerCom.Redis
