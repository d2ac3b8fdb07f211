import Mathlib.Algebra.GroupWithZero.Nat
import ServerCom.Core.Text.Printf
import ServerCom.Redis.Native.Hiredis

/-!
# Commands as text

How hiredis makes the text of a command, from a format with the arguments of a variadic call
or from a vector, and how it reads the arguments back from the text. Memory does not run
out. A format that is refused leaves no text, and neither do arguments of other types than
the format asks for, or a text whose size is no `int`.
-/

namespace ServerCom.Redis

open Text

/-! ## Directives -/

/-- Why a format gives no arguments. -/
inductive FormatStop where
  /-- It is refused. -/
  | err
  /-- It has no meaning. -/
  | undefined
  deriving DecidableEq, Repr

/-- The type a directive takes its argument by. -/
inductive ArgKind where
  /-- `int`. -/
  | int
  /-- `double`. -/
  | double
  /-- `long` or `long long`. -/
  | long
  deriving DecidableEq, Repr

/-- `va_arg`: the arguments behind one of this type. -/
def ArgKind.skip : ArgKind → List VarArg → Option (List VarArg)
  | .int, .int _ :: ap => some ap
  | .double, .double _ :: ap => some ap
  | .long, .long _ :: ap => some ap
  | _, _ => none

/-- `intfmts`. -/
def intfmts : List UInt8 := literal "diouxX"

/-- Step over a byte. -/
def skipByte (b : UInt8) : List UInt8 → List UInt8
  | c :: s => if c = b then s else c :: s
  | [] => []

/-- Step over a precision. -/
def skipPrecision : List UInt8 → List UInt8
  | 46 :: s => s.dropWhile isDigit
  | s => s

/-- `_p`, behind the flags, the field width and the precision. -/
def skipFlags (s : List UInt8) : List UInt8 :=
  -- the flags `#0- +`, each once and in this order
  let s := skipByte 43 (skipByte 32 (skipByte 45 (skipByte 48 (skipByte 35 s))))
  skipPrecision (s.dropWhile isDigit)

/-- An integer conversion behind a length modifier, which is this long. -/
def sizedKind (kind : ArgKind) (size : Nat) (s : List UInt8) : Option (ArgKind × Nat) :=
  match s with
  | [] => none
  | c :: _ => if c ∈ intfmts then some (kind, size + 1) else none

/-- The type a conversion takes, and its length. -/
def conversionKind (s : List UInt8) : Option (ArgKind × Nat) :=
  match s with
  -- `strchr` finds the NUL behind the format
  | [] => some (.int, 1)
  | c :: s =>
    if c ∈ intfmts then some (.int, 1)
    else if c ∈ literal "eEfFgGaA" then some (.double, 1)
    else if c = 104 then -- `h`
      match s with
      | 104 :: s => sizedKind .int 2 s
      | s => sizedKind .int 1 s
    else if c = 108 then -- `l`
      match s with
      | 108 :: s => sizedKind .long 2 s
      | s => sizedKind .long 1 s
    else none

/-- What a directive appends, the arguments behind its own, and how many bytes it has behind
the percent sign. -/
abbrev DirectiveResult := Except FormatStop (List UInt8 × List VarArg × Nat)

variable (platform : Spec → VarArg → Option (List UInt8))

/-- A directive of `printf`, from the text behind the percent sign. -/
def printfDirective (s : List UInt8) (ap : List VarArg) : DirectiveResult :=
  let p := skipFlags s
  match conversionKind p with
  | none => .error .err
  | some (kind, size) => match kind.skip ap with
    | none => .error .undefined
    | some rest =>
      let n := s.length - p.length + size
      -- `_l < sizeof(_format)-2`; a longer directive takes its argument and prints nothing
      if n + 1 < 14 then
        -- past its end the format is not read any more
        if s.length < n then .error .undefined
        else match vfprintf platform (percent :: s.take n) ap with
          | none => .error .undefined
          | some text => .ok (text, rest, n)
      else .ok ([], rest, 1)

/-- A directive, from the text behind the percent sign. -/
def directive (s : List UInt8) (ap : List VarArg) : DirectiveResult :=
  if s.head? = some 115 then -- `s`
    match ap with
    | .pointer _ mem :: ap => match cString mem with
      | some arg => .ok (arg, ap, 1)
      | none => .error .undefined
    | _ => .error .undefined
  else if s.head? = some 98 then -- `b`
    match ap with
    | .pointer _ mem :: .long size :: ap =>
      if size.toNat ≤ mem.length then .ok (mem.take size.toNat, ap, 1) else .error .undefined
    | _ => .error .undefined
  else if s.head? = some percent then .ok ([percent], ap, 1)
  else printfDirective platform s ap

/-! ## Formats -/

/-- The variables of `redisvFormatCommand`. -/
structure Scan where
  /-- `curarg`. -/
  curarg : Arg
  /-- `touched`. -/
  touched : Bool
  /-- `curargv`. -/
  curargv : List Arg
  /-- `ap`. -/
  ap : List VarArg
  deriving DecidableEq, Repr

namespace Scan

/-- Before the first byte. -/
def start (ap : List VarArg) : Scan := ⟨[], false, [], ap⟩

/-- Append to the current argument. -/
def append (st : Scan) (bytes : List UInt8) (ap : List VarArg) : Scan :=
  { st with curarg := st.curarg ++ bytes, touched := true, ap := ap }

/-- The current argument ends. -/
def finish (st : Scan) : Scan :=
  if st.touched then { st with
    curarg := [], touched := false, curargv := st.curargv ++ [st.curarg] }
  else st

/-- A byte that is no directive. -/
def literal (st : Scan) (c : UInt8) : Scan := if c = 32 then st.finish else st.append [c] st.ap

/-- The loop of `redisvFormatCommand`, on the rest of the format, whose first bytes may be
read already. -/
def run : (read : Nat) → List UInt8 → Scan → Except FormatStop Scan
  | _, [], st => .ok st
  | read + 1, _ :: cs, st => run read cs st
  | 0, c :: cs, st =>
    if c ≠ percent ∨ cs = [] then run 0 cs (st.literal c)
    else match directive platform cs st.ap with
      | .error stop => .error stop
      | .ok (bytes, ap, n) => run n cs (st.append bytes ap)

end Scan

/-- `redisvFormatCommand`, up to the arguments it finds. -/
def redisvFormatCommand (format : CStr) (ap : List VarArg) : Except FormatStop (List Arg) :=
  (Scan.run platform 0 format.bytes (.start ap)).map fun st => st.finish.curargv

/-! ## Texts -/

/-- `intlen`. -/
def intlen (i : Nat) : Nat := (decimal i).length

/-- `bulklen`. -/
def bulklen (len : Nat) : Nat := 1 + intlen len + 2 + len + 2

/-- `totlen`. -/
def totlen (args : List Arg) : Nat :=
  1 + intlen args.length + 2 + (args.map fun arg => bulklen arg.length).sum

/-- The text of a command, as `redisvFormatCommand` and `redisFormatCommandArgv` build it. -/
def commandText (args : List Arg) : List UInt8 :=
  args.foldl (fun cmd arg =>
      cmd ++ (literal "$" ++ decimal arg.length ++ literal "\r\n") ++ arg ++ literal "\r\n")
    (literal "*" ++ decimal args.length ++ literal "\r\n")

/-- `redisFormatCommandArgv`: its size and the NUL behind it are counted by an `int`. -/
def redisFormatCommandArgv (args : List Arg) : Option (List UInt8) :=
  if totlen args + 1 < 2 ^ 31 then some (commandText args) else none

/-- `nextArgument`, on the text of a command: an argument, and what stands behind it. -/
def nextArgument (start : List UInt8) : Option (Arg × List UInt8) :=
  match start.dropWhile (· ≠ 36) with -- up to a dollar sign
  | [] => none
  | _ :: p =>
    let len := digitsValue (p.takeWhile isDigit)
    let str := (p.dropWhile (· ≠ 13)).drop 2
    some (str.take len, str.drop (len + 2))

/-- The arguments in at most `n` bytes. -/
def argumentsUpTo : (n : Nat) → List UInt8 → List Arg
  | 0, _ => []
  | n + 1, p => match nextArgument p with
    | none => []
    | some (arg, p) => arg :: argumentsUpTo n p

/-- All arguments `nextArgument` finds. -/
def arguments (cmd : List UInt8) : List Arg := argumentsUpTo cmd.length cmd

end ServerCom.Redis
