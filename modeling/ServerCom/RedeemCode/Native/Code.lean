/-!
# Redeem codes

`RedeemCodeMgr` packs a masked function id, a masked unique code and a sign into one
number and writes it in base 32. The layout constants are derived from four numbers
as in `RedeemCodeCfg`, in 32-bit unsigned arithmetic. A `std::string` is the list of
its bytes.
-/

namespace ServerCom.RedeemCode

/-- The constants of `RedeemCodeCfg` the others are derived from. -/
structure RedeemCodeCfg where
  /-- `SIGN_XOR_KEY`. -/
  signXorKey : UInt32
  /-- `REDEEM_CODE_LEN`. -/
  redeemCodeLen : UInt32
  /-- `SIGN_BIT_LEN`. -/
  signBitLen : UInt32
  /-- `FUN_ID_BIT_LEN`. -/
  funIdBitLen : UInt32

namespace RedeemCodeCfg

/-- `REDEEM_CODE_BIT_LEN`. -/
def redeemCodeBitLen (cfg : RedeemCodeCfg) : UInt32 := cfg.redeemCodeLen * 5

/-- `UNIQUE_CODE_BIT_LEN`. -/
def uniqueCodeBitLen (cfg : RedeemCodeCfg) : UInt32 :=
  cfg.redeemCodeBitLen - cfg.signBitLen - cfg.funIdBitLen

/-- `FUN_ID_BIT_START_IDX`. -/
def funIdBitStartIdx (cfg : RedeemCodeCfg) : UInt32 := cfg.redeemCodeBitLen - cfg.funIdBitLen

/-- `UNIQUE_CODE_BIT_START_IDX`. -/
def uniqueCodeBitStartIdx (cfg : RedeemCodeCfg) : UInt32 :=
  cfg.funIdBitStartIdx - cfg.uniqueCodeBitLen

/-- `SIGN_BIT_START_IDX`. -/
def signBitStartIdx (cfg : RedeemCodeCfg) : UInt32 := cfg.uniqueCodeBitStartIdx - cfg.signBitLen

/-- `FUN_ID_MAX`. -/
def funIdMax (cfg : RedeemCodeCfg) : UInt32 := (1 <<< cfg.funIdBitLen) - 1

/-- `UNIQUE_CODE_MAX`. -/
def uniqueCodeMax (cfg : RedeemCodeCfg) : UInt32 := (1 <<< cfg.uniqueCodeBitLen) - 1

/-- `SIGN_MAX`. -/
def signMax (cfg : RedeemCodeCfg) : UInt32 := (1 <<< cfg.signBitLen) - 1

/-- The constants as shipped. -/
def shipped : RedeemCodeCfg := ⟨0x7f8a1231, 8, 10, 8⟩

end RedeemCodeCfg

/-- `ConvertBase32CharToNum`. -/
def convertBase32CharToNum (c : UInt8) : UInt64 :=
  match Char.ofNat c.toNat with
  | 'A' => 0
  | 'B' => 1
  | 'C' => 2
  | 'D' => 3
  | 'E' => 4
  | 'F' => 5
  | 'G' => 6
  | 'H' => 7
  | 'J' => 8
  | 'K' => 9
  | 'L' => 10
  | 'M' => 11
  | 'N' => 12
  | 'P' => 13
  | 'Q' => 14
  | 'R' => 15
  | 'S' => 16
  | 'T' => 17
  | 'U' => 18
  | 'V' => 19
  | 'W' => 20
  | 'X' => 21
  | 'Y' => 22
  | 'Z' => 23
  | '2' => 24
  | '3' => 25
  | '4' => 26
  | '5' => 27
  | '6' => 28
  | '7' => 29
  | '8' => 30
  | '9' => 31
  | _ => 999

/-- `Base32Alphabet`. -/
def base32Alphabet : List UInt8 :=
  "ABCDEFGHJKLMNPQRSTUVWXYZ23456789".toList.map Char.toUInt8

/-- `UNIQUE_CODE_XOR_KEY`. -/
def uniqueCodeXorKey : List UInt32 := [0x7f8a4233, 0xba563e73, 0xaffa32ce, 0x5f8a3dd2]

variable (cfg : RedeemCodeCfg)

/-- The shift for the character at index `i`, in both directions. -/
def charShift (i : UInt32) : UInt32 := cfg.redeemCodeBitLen - 5 - i * 5

/-- The loop of `CodeToUint64` with `n` characters to go. An illegal character returns
`false`, that is zero, and an index behind the string reads its terminator. -/
def codeLoop (code : List UInt8) : (n : Nat) → (i : UInt32) → (src : UInt64) → UInt64
  | 0, _, src => src
  | n + 1, i, src =>
    let originNum := convertBase32CharToNum (code.getD i.toNat 0)
    if 32 ≤ originNum then 0
    else codeLoop code n (i + 1) (src + (originNum <<< (charShift cfg i).toUInt64))

/-- `CodeToUint64`. -/
def codeToUint64 (code : List UInt8) : UInt64 := codeLoop cfg code cfg.redeemCodeLen.toNat 0 0

/-- `GetSign`. -/
def getSign (src : UInt32) : UInt32 := (src ^^^ cfg.signXorKey) &&& cfg.signMax

/-- `CheckCodeValid`. -/
def checkCodeValid (code : List UInt8) : Bool :=
  if code.length ≠ cfg.redeemCodeLen.toNat then false
  else
    let src := codeToUint64 cfg code
    let signSrc := src >>> cfg.signBitLen.toUInt64
    let sign := (src &&& cfg.signMax.toUInt64).toUInt32
    let checkSign := getSign cfg signSrc.toUInt32
    sign == checkSign

/-- The loop of `Uint64ToCode` with `n` characters to go. -/
def uint64Loop (longRandValue : UInt64) : (n : Nat) → (i : UInt32) → (ret : List UInt8) → List UInt8
  | 0, _, ret => ret
  | n + 1, i, ret =>
    let idx := ((longRandValue >>> (charShift cfg i).toUInt64) &&& 0x1F).toUInt32
    uint64Loop longRandValue n (i + 1) (ret ++ [base32Alphabet.getD idx.toNat 0])

/-- `Uint64ToCode`. -/
def uint64ToCode (longRandValue : UInt64) : List UInt8 :=
  uint64Loop cfg longRandValue cfg.redeemCodeLen.toNat 0 []

/-- `unique_code` as it is packed into a code. -/
def maskUniqueCode (uniqueCode : UInt32) : UInt32 :=
  (uniqueCode ^^^ uniqueCodeXorKey.getD (uniqueCode % 4).toNat 0) &&& cfg.uniqueCodeMax

/-- The number `CreateRedeemCode` writes for arguments in range. -/
def packCode (funId uniqueCode : UInt32) : UInt64 :=
  let uniqueCode := maskUniqueCode cfg uniqueCode
  let funId := (uniqueCode ^^^ funId) &&& cfg.funIdMax
  let funIdSeg := funId.toUInt64 <<< cfg.funIdBitStartIdx.toUInt64
  let uniqueCodeSeg := uniqueCode.toUInt64 <<< cfg.uniqueCodeBitStartIdx.toUInt64
  let signSrcSeg := funIdSeg ||| uniqueCodeSeg
  let signSrc := signSrcSeg >>> cfg.signBitLen.toUInt64
  let sign := getSign cfg signSrc.toUInt32
  signSrcSeg ||| sign.toUInt64

/-- `CreateRedeemCode`; the empty string for an argument out of range. -/
def createRedeemCode (funId uniqueCode : UInt32) : List UInt8 :=
  if cfg.funIdMax < funId then []
  else if cfg.uniqueCodeMax < uniqueCode then []
  else uint64ToCode cfg (packCode cfg funId uniqueCode)

/-- `GetFunId`. -/
def getFunId (code : List UInt8) : UInt32 :=
  let src := codeToUint64 cfg code
  let uniqueCode := (src >>> cfg.uniqueCodeBitStartIdx.toUInt64).toUInt32 &&& cfg.uniqueCodeMax
  let funId := (src >>> cfg.funIdBitStartIdx.toUInt64).toUInt32 &&& cfg.funIdMax
  (uniqueCode ^^^ funId) &&& cfg.funIdMax

/-- `CheckCfg`. -/
def checkCfg : Bool :=
  if cfg.redeemCodeBitLen < cfg.signBitLen * 2 then false
  else if 64 < cfg.redeemCodeBitLen then false
  else if cfg.signBitStartIdx ≠ 0 then false
  else true

end ServerCom.RedeemCode
