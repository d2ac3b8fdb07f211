import ServerCom.RedeemCode.Native.Code
import ServerCom.RedeemCode.Native.History

/-!
# The code tool

`RedeemCodeTool::run` reads the history, generates codes with the next serials,
writes them to a file named after the time, and rewrites the history. What it does to
the disk is a list of file steps, so that a run can be looked at between any two.
-/

namespace ServerCom.RedeemCode

open Text

/-- The fields of `tm` the tool prints, with the year and the month as they are printed. -/
structure Tm where
  /-- `tm_year + 1900`. -/
  year : Nat
  /-- `tm_mon + 1`. -/
  mon : Nat
  /-- `tm_mday`. -/
  mday : Nat
  /-- `tm_hour`. -/
  hour : Nat
  /-- `tm_min`. -/
  min : Nat
  /-- `tm_sec`. -/
  sec : Nat
  deriving DecidableEq, Repr, Inhabited

/-- `GetTimeStr` at a local time; `snprintf` keeps at most 49 characters. -/
def getTimeStr (tm : Tm) : List UInt8 :=
  (decimalPadded 4 tm.year ++ 45 :: decimalPadded 2 tm.mon ++ 45 :: decimalPadded 2 tm.mday ++
    58 :: decimalPadded 2 tm.hour ++ 45 :: decimalPadded 2 tm.min ++
    45 :: decimalPadded 2 tm.sec).take 49

/-- The name of the code file. -/
def codeFileName (tm : Tm) : List UInt8 :=
  "code_".toList.map Char.toUInt8 ++ getTimeStr tm ++ ".txt".toList.map Char.toUInt8

/-- A call of `run` with what the system answers during it. -/
structure Call where
  /-- `fun_id`. -/
  funId : UInt32
  /-- `create_num`. -/
  createNum : UInt32
  /-- Opening the history for reading succeeds. -/
  historyOpens : Bool
  /-- Opening the code file succeeds. -/
  codeOpens : Bool
  /-- Opening the history for writing succeeds. -/
  historyReopens : Bool
  /-- The local time when the code file is named. -/
  tm : Tm
  deriving DecidableEq, Repr

/-- One change of the disk. -/
inductive FileStep where
  /-- Open a code file for output, which empties it. -/
  | createCodeFile (name : List UInt8)
  /-- Write a line to a code file. -/
  | codeLine (name line : List UInt8)
  /-- Open the history with `ios::trunc`. -/
  | truncateHistory
  /-- Write a line to the history. -/
  | historyLine (line : List UInt8)
  deriving DecidableEq, Repr

/-- The files of the tool. -/
structure Disk where
  /-- `HISTORY_FILE`. -/
  history : List UInt8
  /-- The contents of the code files that exist. -/
  codeFiles : List UInt8 → Option (List UInt8)

namespace Disk

/-- An empty history and no code files. -/
def blank : Disk := ⟨[], fun _ => none⟩

/-- The disk after a file step. -/
def apply (d : Disk) : FileStep → Disk
  | .createCodeFile name =>
    { d with codeFiles := fun n => if n = name then some [] else d.codeFiles n }
  | .codeLine name line =>
    { d with
      codeFiles := fun n =>
        if n = name then some ((d.codeFiles name).getD [] ++ line ++ [newline]) else d.codeFiles n }
  | .truncateHistory => { d with history := [] }
  | .historyLine line => { d with history := d.history ++ line ++ [newline] }

end Disk

/-- What a run returns and does to the disk. -/
structure RunResult where
  /-- The result of `run`. -/
  returned : Bool
  /-- The file steps, in order. -/
  steps : List FileStep
  deriving DecidableEq, Repr

/-- The code a file step writes. -/
def FileStep.code? : FileStep → Option (List UInt8)
  | .codeLine _ line => some line
  | _ => none

/-- The codes a run has written. -/
def RunResult.codes (r : RunResult) : List (List UInt8) := r.steps.filterMap FileStep.code?

namespace RedeemCodeTool

variable (cfg : RedeemCodeCfg)

/-- The generating loop with `n` codes to go; `none` when a code cannot be created. -/
def createCodes (funId uinCodeIdx : UInt32) :
    (n : Nat) → (i : UInt32) → (vecStr : List (List UInt8)) → Option (List (List UInt8))
  | 0, _, vecStr => some vecStr
  | n + 1, i, vecStr =>
    let ret := createRedeemCode cfg funId (uinCodeIdx + i)
    if ret = [] then none else createCodes funId uinCodeIdx n (i + 1) (vecStr ++ [ret])

/-- `run(fun_id, create_num, uin_code_idx)`. -/
def runFrom (c : Call) (uinCodeIdx : UInt32) : RunResult :=
  match createCodes cfg c.funId uinCodeIdx c.createNum.toNat 0 [] with
  | none => ⟨false, []⟩
  | some vecStr =>
    if !c.codeOpens then ⟨false, []⟩
    else
      let fileName := codeFileName c.tm
      ⟨true, .createCodeFile fileName :: vecStr.map (.codeLine fileName)⟩

/-- `run(fun_id, create_num)` on the content of the history file. -/
def run (c : Call) (history : List UInt8) : RunResult :=
  if !c.historyOpens then ⟨false, []⟩
  else match readHistory c.funId history with
    | none => ⟨false, []⟩
    | some h =>
      let r := runFrom cfg c (h.lastIdx + 1)
      if !r.returned then ⟨false, r.steps⟩
      else if !c.historyReopens then ⟨false, r.steps⟩
      else
        let id2idx := h.id2idx.insert c.funId (h.lastIdx + c.createNum)
        ⟨true, r.steps ++ .truncateHistory :: (historyLines id2idx).map .historyLine⟩

/-- The disk after a call. -/
def step (d : Disk) (c : Call) : Disk := (run cfg c d.history).steps.foldl Disk.apply d

/-- The results of calls made one after another. -/
def results : Disk → List Call → List RunResult
  | _, [] => []
  | d, c :: cs => run cfg c d.history :: results (step cfg d c) cs

end RedeemCodeTool

end ServerCom.RedeemCode
