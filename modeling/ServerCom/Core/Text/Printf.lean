import Mathlib.Algebra.Group.Int.Defs
import Mathlib.Algebra.Group.Nat.Defs
import ServerCom.Core.Text.CString
import ServerCom.Core.Text.Plain

/-!
# Formatted output

The formats of `printf` and the arguments of a variadic call. A format is cut into single
bytes and directives, each directive takes its arguments in turn, and the output is the text
of all pieces. What the C standard leaves undefined has no value here. The text of
floating-point numbers, of addresses and of wide characters is left to the platform.
-/

namespace ServerCom.Text

/-- An argument of a variadic call, by the type it is passed as. -/
inductive VarArg where
  /-- An `int`, or what is promoted to it. -/
  | int (v : UInt32)
  /-- A `long`, a `long long` or a `size_t`. -/
  | long (v : UInt64)
  /-- A `double`, by its bits. -/
  | double (bits : UInt64)
  /-- A pointer to bytes, and what lies there. -/
  | pointer (addr : UInt64) (mem : List UInt8)
  /-- A `va_list`. -/
  | vaList
  deriving DecidableEq, Repr

/-- A width or a precision. -/
inductive Amount where
  /-- A number. -/
  | given (n : Nat)
  /-- `*`, which takes an argument. -/
  | star
  deriving DecidableEq, Repr

/-- What stands behind a percent sign. -/
structure Directive where
  /-- The flags. -/
  flags : List UInt8
  /-- The minimum field width. -/
  width : Option Amount
  /-- The precision. -/
  precision : Option Amount
  /-- The length modifier. -/
  modifier : List UInt8
  /-- The conversion specifier. -/
  conversion : UInt8
  deriving DecidableEq, Repr

/-- A piece of a format. -/
inductive Piece where
  /-- A byte that is copied. -/
  | literal (c : UInt8)
  /-- A directive. -/
  | directive (d : Directive)
  deriving DecidableEq, Repr

/-- The percent sign. -/
def percent : UInt8 := 37

/-! ## Reading a format -/

/-- A flag: one of `-+ #0`. -/
def isFlag (c : UInt8) : Bool := c == 45 || c == 43 || c == 32 || c == 35 || c == 48

/-- A star or a number. -/
def scanAmount : List UInt8 → Option Amount × List UInt8
  | 42 :: s => (some .star, s)
  | s =>
    if s.takeWhile isDigit = [] then (none, s)
    else (some (.given (digitsValue (s.takeWhile isDigit))), s.dropWhile isDigit)

/-- A precision; a period alone stands for zero. -/
def scanPrecision : List UInt8 → Option Amount × List UInt8
  | 46 :: s => ((scanAmount s).1.or (some (.given 0)), (scanAmount s).2)
  | s => (none, s)

/-- A length modifier: one of `hh`, `h`, `ll`, `l`, `j`, `z`, `t` and `L`. -/
def scanModifier : List UInt8 → List UInt8 × List UInt8
  | 104 :: 104 :: s => ([104, 104], s)
  | 104 :: s => ([104], s)
  | 108 :: 108 :: s => ([108, 108], s)
  | 108 :: s => ([108], s)
  | 106 :: s => ([106], s)
  | 122 :: s => ([122], s)
  | 116 :: s => ([116], s)
  | 76 :: s => ([76], s)
  | s => ([], s)

/-- The directive behind a percent sign, and the rest of the format. -/
def scanDirective (s : List UInt8) : Option (Directive × List UInt8) :=
  let width := scanAmount (s.dropWhile isFlag)
  let precision := scanPrecision width.2
  let modifier := scanModifier precision.2
  match modifier.2 with
  | [] => none
  | c :: rest => some (⟨s.takeWhile isFlag, width.1, precision.1, modifier.1, c⟩, rest)

/-- The pieces of a format with at most `n` bytes. -/
def piecesUpTo : (n : Nat) → List UInt8 → Option (List Piece)
  | _, [] => some []
  | 0, _ :: _ => none
  | n + 1, c :: cs =>
    if c ≠ percent then (piecesUpTo n cs).map (.literal c :: ·)
    else match scanDirective cs with
      | none => none
      | some (d, rest) => (piecesUpTo n rest).map (.directive d :: ·)

/-- The pieces of a format. -/
def pieces (format : List UInt8) : Option (List Piece) := piecesUpTo format.length format

/-! ## The text of a directive -/

/-- A directive whose stars have taken their arguments. -/
structure Spec where
  /-- The flags. -/
  flags : List UInt8
  /-- The minimum field width. -/
  width : Nat
  /-- The precision. -/
  precision : Option Nat
  /-- The length modifier. -/
  modifier : List UInt8
  /-- The conversion specifier. -/
  conversion : UInt8
  deriving DecidableEq, Repr

/-- An `int` as a number. -/
def toInt (v : UInt32) : Int := v.toBitVec.toInt

/-- Take the argument of a star. -/
def takeAmount : Option Amount → List VarArg → Option (Option Int × List VarArg)
  | none, args => some (none, args)
  | some (.given n), args => some (some n, args)
  | some .star, .int v :: args => some (some (toInt v), args)
  | some .star, _ => none

/-- Take the arguments of the stars. A negative width is a flag and a width, and a negative
precision is none. -/
def Directive.resolve (d : Directive) (args : List VarArg) : Option (Spec × List VarArg) :=
  (takeAmount d.width args).bind fun (width, args) =>
    (takeAmount d.precision args).map fun (precision, args) =>
      ({ flags := if width.getD 0 < 0 then 45 :: d.flags else d.flags
         width := (width.getD 0).natAbs
         precision := precision.bind fun p => if p < 0 then none else some p.toNat
         modifier := d.modifier
         conversion := d.conversion }, args)

namespace Spec

/-- Fill a text up to the width, with zeros behind its lead or with blanks. -/
def fill (sp : Spec) (zeros : Bool) (lead body : List UInt8) : List UInt8 :=
  let n := sp.width - (lead.length + body.length)
  if 45 ∈ sp.flags then lead ++ body ++ List.replicate n 32
  else if zeros then lead ++ List.replicate n 48 ++ body
  else List.replicate n 32 ++ lead ++ body

/-- The digits of a number, as many as the precision asks for. -/
def digits (sp : Spec) (base n : Nat) : List UInt8 :=
  let ds := if n = 0 then [48] else (Nat.toDigits base n).map Char.toUInt8
  match sp.precision with
  | none => ds
  | some p => if n = 0 ∧ p = 0 then [] else List.replicate (p - ds.length) 48 ++ ds

/-- The text of a number behind its sign or its base. -/
def number (sp : Spec) (lead body : List UInt8) : List UInt8 :=
  sp.fill (decide (48 ∈ sp.flags) && sp.precision.isNone) lead body

/-- The text of a signed number. -/
def signed (sp : Spec) (v : Int) : List UInt8 :=
  let lead := if v < 0 then [45] else if 43 ∈ sp.flags then [43] else if 32 ∈ sp.flags then [32]
    else []
  sp.number lead (sp.digits 10 v.natAbs)

/-- `0x` in front of a number that is not zero, where it is asked for. -/
def hexLead (sp : Spec) (x : UInt8) (n : Nat) : List UInt8 :=
  if 35 ∈ sp.flags ∧ n ≠ 0 then [48, x] else []

/-- `toupper` of a hexadecimal digit. -/
def upper (c : UInt8) : UInt8 := if 97 ≤ c then c - 32 else c

/-- The text of an unsigned number. -/
def unsigned (sp : Spec) (n : Nat) : List UInt8 :=
  if sp.conversion = 111 then -- `o`
    let ds := sp.digits 8 n
    sp.number [] (if 35 ∈ sp.flags ∧ ds.head? ≠ some 48 then 48 :: ds else ds)
  else if sp.conversion = 120 then sp.number (sp.hexLead 120 n) (sp.digits 16 n) -- `x`
  else if sp.conversion = 88 then sp.number (sp.hexLead 88 n) ((sp.digits 16 n).map upper) -- `X`
  else sp.number [] (sp.digits 10 n)

/-- The width and the bits of an integer argument, by the length modifier. -/
def bits (sp : Spec) : VarArg → Option (Nat × Nat)
  | .int v =>
    if sp.modifier = [] then some (32, v.toNat)
    else if sp.modifier = [104] then some (16, v.toNat % 2 ^ 16)
    else if sp.modifier = [104, 104] then some (8, v.toNat % 2 ^ 8)
    else none
  | .long v =>
    if sp.modifier ∈ [[108], [108, 108], [106], [122], [116]] then some (64, v.toNat) else none
  | _ => none

/-- The string at a pointer, as far as the precision goes. -/
def string (sp : Spec) (mem : List UInt8) : Option (List UInt8) :=
  match sp.precision with
  | none => cString mem
  | some p => if p ≤ mem.length then some ((mem.take p).takeWhile (· ≠ 0)) else cString mem

end Spec

/-- The conversions that are left to the platform: `aAeEfFgG`, `p`, and `c` and `s` of wide
characters. -/
def platformConversions : List UInt8 := [97, 65, 101, 69, 102, 70, 103, 71, 112, 99, 115]

variable (platform : Spec → VarArg → Option (List UInt8))

/-- The text of a conversion. -/
def Spec.text (sp : Spec) (arg : VarArg) : Option (List UInt8) :=
  if sp.conversion ∈ [100, 105] then -- `d` and `i`
    (sp.bits arg).map fun (w, v) => sp.signed (if 2 ^ (w - 1) ≤ v then (v : Int) - 2 ^ w else v)
  else if sp.conversion ∈ [111, 117, 120, 88] then -- `o`, `u`, `x` and `X`
    (sp.bits arg).map fun (_, v) => sp.unsigned v
  else if sp.conversion = 99 ∧ sp.modifier = [] then -- `c`
    match arg with
    | .int v => some (sp.fill false [] [v.toUInt8])
    | _ => none
  else if sp.conversion = 115 ∧ sp.modifier = [] then -- `s`
    match arg with
    | .pointer _ mem => (sp.string mem).map (sp.fill false [])
    | _ => none
  else if sp.conversion = 110 then -- `n`, which prints nothing
    match arg with
    | .pointer .. => some []
    | _ => none
  else if sp.conversion ∈ platformConversions then platform sp arg
  else none

/-- The directive `%%`. -/
def Directive.percentSign : Directive := ⟨[], none, none, [], percent⟩

/-- The texts of the pieces of a format. -/
def texts : List Piece → List VarArg → Option (List (List UInt8))
  | [], _ => some []
  | .literal c :: ps, args => (texts ps args).map ([c] :: ·)
  | .directive d :: ps, args =>
    if d.conversion = percent then
      if d = .percentSign then (texts ps args).map ([percent] :: ·) else none
    else match d.resolve args with
      | some (sp, arg :: args) =>
        (sp.text platform arg).bind fun t => (texts ps args).map (t :: ·)
      | _ => none

/-- The texts a format gives with these arguments. -/
def formatTexts (format : List UInt8) (args : List VarArg) : Option (List (List UInt8)) :=
  (pieces format).bind fun ps => texts platform ps args

/-- What `vfprintf` writes. -/
def vfprintf (format : List UInt8) (args : List VarArg) : Option (List UInt8) :=
  (formatTexts platform format args).map List.flatten

/-- What `vsnprintf` leaves in a buffer of a size, in front of its NUL. -/
def vsnprintf (size : Nat) (format : List UInt8) (args : List VarArg) : Option (List UInt8) :=
  (vfprintf platform format args).map (·.take (size - 1))

end ServerCom.Text
