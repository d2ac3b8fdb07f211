import ServerCom.SimpleIni.Native.ConvertUtf

/-!
# Wide strings and the store

`SI_ConvertW` with the conversions above, where `wchar_t` has 32 bits and the store is UTF-8.
-/

namespace ServerCom.SimpleIni

/-- A string of `wchar_t` as a value. -/
structure WStr where
  /-- Its units, without the NUL behind them. -/
  units : List UInt32
  /-- There is no other NUL. -/
  nul_notMem : 0 ∉ units
  deriving DecidableEq, Repr

/-- `SizeFromStore`. -/
def sizeFromStore (inputData : List UInt8) : ℕ := inputData.length

/-- `ConvertFromStore`: whether all of the input was converted, and the output. -/
def convertFromStore (inputData : List UInt8) (outputDataSize : ℕ) : Bool × List UInt32 :=
  let conversion := convertUTF8toUTF32 inputData outputDataSize .lenientConversion
  (conversion.result = .conversionOK, conversion.target)

/-- `SizeToStore`. -/
def sizeToStore (inputData : WStr) : ℕ := 6 * inputData.units.length + 1

/-- `ConvertToStore`: whether all of the input was converted with its NUL, and the output. -/
def convertToStore (inputData : WStr) (outputDataSize : ℕ) : Bool × List UInt8 :=
  let conversion := convertUTF32toUTF8 (inputData.units ++ [0]) outputDataSize .lenientConversion
  (conversion.result = .conversionOK, conversion.target)

end ServerCom.SimpleIni
