import ServerCom.Core.Text.Printf

/-!
# The debug log

`DebugLog::printf` puts the time, the prefix, the level and the position around a pattern and
expands the whole as one format. With `m_is_std_out` the line is expanded into a buffer first,
and the buffer is then used as a format for the file and for the screen. The file is open.
-/

namespace ServerCom.Log

open Text

/-- `DebugLogLv`. -/
inductive DebugLogLv where
  /-- `LOG_LV_FATAL`. -/
  | fatal
  /-- `LOG_LV_ERROR`. -/
  | error
  /-- `LOG_LV_WARN`. -/
  | warn
  /-- `LOG_LV_DEBUG`. -/
  | debug
  /-- `LOG_LV_INFO`. -/
  | info
  /-- `LOG_LV_ANY`. -/
  | any
  deriving DecidableEq, Repr

/-- The number of a level. -/
def DebugLogLv.value : DebugLogLv → Nat
  | .fatal => 0
  | .error => 1
  | .warn => 2
  | .debug => 3
  | .info => 4
  | .any => 5

/-- `GetLogLevelStr`. -/
def getLogLevelStr : DebugLogLv → List UInt8
  | .fatal => literal "<fatal> "
  | .error => literal "<error> "
  | .warn => literal "<warn>  "
  | .debug => literal "<debug> "
  | .info => literal "<info>  "
  | .any => literal "<any>   "

/-- `DebugLog`. -/
structure DebugLog where
  /-- `m_log_lv`. -/
  logLv : DebugLogLv
  /-- `m_is_std_out`. -/
  isStdOut : Bool
  /-- `m_prefix_name`. -/
  prefixName : List UInt8
  deriving DecidableEq, Repr

/-- The fields of `tm` that are printed, with the year and the month as they are printed. -/
structure LocalTime where
  /-- `tm_year + 1900`. -/
  year : UInt32
  /-- `tm_mon + 1`. -/
  mon : UInt32
  /-- `tm_mday`. -/
  mday : UInt32
  /-- `tm_hour`. -/
  hour : UInt32
  /-- `tm_min`. -/
  min : UInt32
  /-- `tm_sec`. -/
  sec : UInt32
  deriving DecidableEq, Repr

/-- A call of `printf`, and the time it is made at. -/
structure LogCall where
  /-- `lv`. -/
  lv : DebugLogLv
  /-- `file`. -/
  file : CStr
  /-- `line`. -/
  line : UInt32
  /-- `pFun`. -/
  pFun : CStr
  /-- `pattern`. -/
  pattern : CStr
  /-- The variadic arguments. -/
  args : List VarArg
  /-- `localtime`. -/
  now : LocalTime
  deriving DecidableEq, Repr

namespace DebugLog

variable (platform : Spec → VarArg → Option (List UInt8))

/-- `time_str`. -/
def timeStr (now : LocalTime) : Option (List UInt8) :=
  vsnprintf platform 1000 (literal "[%04d-%02d-%02d %02d:%02d:%02d] ")
    [.int now.year, .int now.mon, .int now.mday, .int now.hour, .int now.min, .int now.sec]

/-- `line_str`. -/
def lineStr (line : UInt32) : Option (List UInt8) :=
  vsnprintf platform 10 (literal "%d") [.int line]

/-- `s`, the line as a format. -/
def lineFormat (log : DebugLog) (call : LogCall) : Option (List UInt8) :=
  (timeStr platform call.now).bind fun time =>
    (lineStr platform call.line).map fun line =>
      let position := if call.lv.value ≤ DebugLogLv.debug.value then
        literal "  --" ++ call.file.bytes ++ literal ":" ++ line ++ literal " " ++ call.pFun.bytes
        else []
      time ++ log.prefixName.takeWhile (· ≠ 0) ++ literal " " ++ getLogLevelStr call.lv ++
        call.pattern.bytes ++ position ++ [newline]

/-- `printf`, as the text it writes to the file. -/
def printf (log : DebugLog) (call : LogCall) : Option (List UInt8) :=
  if log.logLv.value < call.lv.value then some []
  else (log.lineFormat platform call).bind fun s =>
    if log.isStdOut then
      (vsnprintf platform 1000 s call.args).bind fun outStr =>
        vfprintf platform (outStr.takeWhile (· ≠ 0)) []
    else vfprintf platform s call.args

end DebugLog

end ServerCom.Log
