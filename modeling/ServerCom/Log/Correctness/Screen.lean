import Mathlib.Algebra.GroupWithZero.Nat
import Mathlib.Data.List.TakeWhile
import ServerCom.Core.Text.Expansion
import ServerCom.Log.Native.DebugLog

/-!
# Logging to the screen

With `m_is_std_out` a line is expanded twice, and only its first 999 bytes. The file gets the
same text as without exactly when the line is short, and nothing in it can be taken for a
directive or for its end.
-/

namespace ServerCom.Log

open Text

namespace DebugLog

variable {platform : Spec → VarArg → Option (List UInt8)}

/-- A text goes through the buffer and a second expansion unchanged exactly when it has
neither a percent sign nor a NUL and fits the buffer. -/
theorem vfprintf_buffer_iff {text : List UInt8} :
    vfprintf platform ((text.take 999).takeWhile (· ≠ 0)) [] = some text ↔
      Inert text ∧ text.length < 1000 := by
  have hpre : (text.take 999).takeWhile (· ≠ 0) <+: text :=
    (List.takeWhile_prefix _).trans (List.take_prefix 999 text)
  have hnul := zero_notMem_takeWhile (text.take 999)
  have hbuf : ((text.take 999).takeWhile (· ≠ 0)).length ≤ 999 :=
    Nat.le_trans (List.takeWhile_prefix _).length_le (List.length_take_le 999 text)
  rw [inert_iff]
  constructor
  · intro h
    obtain ⟨hle, hself⟩ := vfprintf_nil h
    -- nothing was cut off, or the text would be longer than its format
    have heq := hpre.eq_of_length (Nat.le_antisymm hpre.length_le hle)
    rw [heq] at hself hnul hbuf
    exact ⟨⟨hself.mp rfl, hnul⟩, Nat.lt_succ_of_le hbuf⟩
  · rintro ⟨⟨hpercent, hnul⟩, hlen⟩
    have hall : ∀ c ∈ text, decide (c ≠ 0) = true :=
      fun c hc => decide_eq_true (ne_of_mem_of_not_mem hc hnul)
    rw [List.take_of_length_le (Nat.le_of_lt_succ hlen), List.takeWhile_eq_self_iff.mpr hall,
      vfprintf_of_notMem hpercent]

/-- A line is plain when no piece of it prints a percent sign or a NUL, and it has less than a
thousand bytes. A line that is filtered out is plain, and one without a meaning too. -/
def Plain (platform : Spec → VarArg → Option (List UInt8)) (log : DebugLog) (call : LogCall) :
    Prop :=
  call.lv.value ≤ log.logLv.value →
    ∀ s ps ts, log.lineFormat platform call = some s → pieces s = some ps →
      texts platform ps call.args = some ts →
        PrintInert platform ps call.args ∧ (ts.map List.length).sum < 1000

/-- A call whose level is logged prints on the screen. -/
theorem printf_stdOut (log : DebugLog) (call : LogCall)
    (hlv : call.lv.value ≤ log.logLv.value) :
    { log with isStdOut := true }.printf platform call =
      ({ log with isStdOut := false }.printf platform call).bind fun text =>
        vfprintf platform ((text.take 999).takeWhile (· ≠ 0)) [] := by
  have hformat : ∀ b, { log with isStdOut := b }.lineFormat platform call =
      log.lineFormat platform call := fun _ => rfl
  simp only [printf, hformat, if_neg (Nat.not_lt.mpr hlv), if_true, Bool.false_eq_true, if_false,
    vsnprintf, Option.bind_assoc, Option.bind_map]
  rfl

/-- What a call whose level is logged writes to a file. -/
theorem printf_file_eq_some {log : DebugLog} {call : LogCall}
    (hlv : call.lv.value ≤ log.logLv.value) {text : List UInt8} :
    { log with isStdOut := false }.printf platform call = some text ↔
      ∃ s ps ts, log.lineFormat platform call = some s ∧ pieces s = some ps ∧
        texts platform ps call.args = some ts ∧ ts.flatten = text := by
  have hformat : { log with isStdOut := false }.lineFormat platform call =
      log.lineFormat platform call := rfl
  simp only [printf, hformat, if_neg (Nat.not_lt.mpr hlv), Bool.false_eq_true, if_false, vfprintf,
    formatTexts, Option.bind_eq_some_iff, Option.map_eq_some_iff]
  constructor
  · rintro ⟨s, hs, ts, ⟨ps, hps, hts⟩, htext⟩
    exact ⟨s, ps, ts, hs, hps, hts, htext⟩
  · rintro ⟨s, ps, ts, hs, hps, hts, htext⟩
    exact ⟨s, hs, ts, ⟨ps, hps, hts⟩, htext⟩

/-- The file gets the same text with and without the screen exactly for plain lines. -/
theorem printf_stdOut_iff (platform : Spec → VarArg → Option (List UInt8)) (log : DebugLog)
    (call : LogCall) :
    { log with isStdOut := true }.printf platform call =
        { log with isStdOut := false }.printf platform call ↔ log.Plain platform call := by
  rw [Plain]
  by_cases hlv : call.lv.value ≤ log.logLv.value
  · rw [forall_prop_of_true hlv, printf_stdOut log call hlv]
    cases htext : { log with isStdOut := false }.printf platform call with
    | none =>
      refine iff_of_true rfl fun s ps ts hs hps hts => ?_
      have hsome := (printf_file_eq_some hlv).mpr ⟨s, ps, ts, hs, hps, hts, rfl⟩
      rw [htext] at hsome
      cases hsome
    | some text =>
      obtain ⟨s, ps, ts, hs, hps, hts, rfl⟩ := (printf_file_eq_some hlv).mp htext
      rw [Option.bind_some, vfprintf_buffer_iff, inert_texts_iff hts, List.length_flatten]
      constructor
      · rintro h s' ps' ts' hs' hps' hts'
        obtain rfl := Option.some.inj (hs.symm.trans hs')
        obtain rfl := Option.some.inj (hps.symm.trans hps')
        obtain rfl := Option.some.inj (hts.symm.trans hts')
        exact h
      · intro h
        exact h s ps ts hs hps hts
  · refine iff_of_true ?_ fun h => absurd h hlv
    rw [printf, printf, if_pos (Nat.not_le.mp hlv), if_pos (Nat.not_le.mp hlv)]

/-- A message with two percent signs, on the first of January. -/
def percentCall : LogCall where
  lv := .info
  file := ⟨literal "a.cpp", by decide⟩
  line := 17
  pFun := ⟨literal "OnRecv", by decide⟩
  pattern := ⟨literal "OnRecv %s", by decide⟩
  args := [.pointer 4096 (literal "100%%" ++ [0])]
  now := ⟨2024, 1, 1, 12, 0, 0⟩

/-- The second expansion takes the two percent signs of the message for a directive. -/
theorem printf_percentCall :
    DebugLog.printf (fun _ _ => none) ⟨.any, false, []⟩ percentCall =
        some (literal "[2024-01-01 12:00:00]  <info>  OnRecv 100%%" ++ [newline]) ∧
      DebugLog.printf (fun _ _ => none) ⟨.any, true, []⟩ percentCall =
        some (literal "[2024-01-01 12:00:00]  <info>  OnRecv 100%" ++ [newline]) ∧
      DebugLog.printf (fun _ _ => none) ⟨.any, true, []⟩ percentCall ≠
        DebugLog.printf (fun _ _ => none) ⟨.any, false, []⟩ percentCall := by
  decide +kernel

end DebugLog

end ServerCom.Log
