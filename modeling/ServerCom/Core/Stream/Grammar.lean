import ServerCom.Core.Stream.Framing

/-!
# The grammar of a framed stream

`Starts` says which frames a stream starts with, by putting frames in front of a
rest and not by taking a stream apart. A frame with an empty body counts only when
something follows it. `parse` finds the longest of these readings, and its rest is
illegal exactly when a rejected header with a symbol behind it comes next.
-/

namespace ServerCom.Framing

variable {α : Type*} {F : Framing α} {B R : List α} {fs : List (List α)}

/-- The stream consists of frames with these bodies and a rest. -/
inductive Starts (F : Framing α) : List α → List (List α) → List α → Prop where
  /-- No frame is counted. -/
  | rest (B : List α) : Starts F B [] B
  /-- A frame stands before a stream, which is not empty if the body is. -/
  | frame {head body B : List α} {fs : List (List α)} {R : List α}
    (hhead : head.length = F.headLen) (hbody : F.bodyLen head = some body.length)
    (hmore : body = [] → B ≠ []) (h : Starts F B fs R) :
    Starts F (head ++ body ++ B) (body :: fs) R

/-- A reading with as many frames as any other. -/
structure Longest (F : Framing α) (B : List α) (fs : List (List α)) (R : List α) : Prop where
  /-- It is a reading of the stream. -/
  starts : F.Starts B fs R
  /-- No reading counts more frames. -/
  maximal : ∀ fs' R', F.Starts B fs' R' → fs'.length ≤ fs.length

/-- A rejected header comes first, with at least one symbol behind it. -/
def Rejects (F : Framing α) (R : List α) : Prop :=
  F.headLen < R.length ∧ F.bodyLen (R.take F.headLen) = none

/-- The symbols of a rest. -/
def Rest.symbols : Rest α → List α
  | .waiting R => R
  | .illegal R => R

/-- Parsing reads a stream. -/
theorem starts_parse (F : Framing α) (B : List α) :
    F.Starts B (F.parse B).1 (F.parse B).2.symbols := by
  induction B using F.parse_induct with
  | waiting B hB =>
    rw [hB]
    exact .rest B
  | illegal B hB hn =>
    rw [parse_illegal hB hn]
    exact .rest B
  | frame B n hB hn hl ih =>
    have hbody : ((B.drop F.headLen).take n).length = n := by
      rw [List.length_take, List.length_drop]
      omega
    have hsplit : B = B.take F.headLen ++ (B.drop F.headLen).take n ++ B.drop (F.headLen + n) := by
      rw [List.append_assoc, ← List.drop_drop, List.take_append_drop, List.take_append_drop]
    rw [parse_frame hB hn hl]
    nth_rewrite 1 [hsplit]
    apply Starts.frame
    · rw [List.length_take]
      omega
    · rw [hn, hbody]
    · intro hnil hrest
      rw [hnil, List.length_nil] at hbody
      have := List.drop_eq_nil_iff.mp hrest
      omega
    · exact ih

/-- Behind the frames of any reading the rest is parsed on. -/
theorem Starts.parse (h : F.Starts B fs R) :
    F.parse B = (fs ++ (F.parse R).1, (F.parse R).2) := by
  induction h with
  | rest B => rfl
  | @frame head body B fs R hhead hbody hmore h ih =>
    have htake : (head ++ body ++ B).take F.headLen = head := by
      rw [List.append_assoc, ← hhead, List.take_left]
    have hdrop : (head ++ body ++ B).drop F.headLen = body ++ B := by
      rw [List.append_assoc, ← hhead, List.drop_left]
    have hlong : F.headLen < (head ++ body ++ B).length := by
      rw [List.length_append, List.length_append, hhead]
      by_cases hb : body = []
      · have := List.length_pos_iff.mpr (hmore hb)
        omega
      · have := List.length_pos_iff.mpr hb
        omega
    have hrest : (head ++ body ++ B).drop (F.headLen + body.length) = B := by
      rw [← List.drop_drop, hdrop, List.drop_left]
    rw [parse_frame hlong (htake.symm ▸ hbody) (by simp [hhead]), hdrop, hrest, List.take_left, ih,
      List.cons_append]

/-- The longest reading is the parse. -/
theorem longest_parse (F : Framing α) (B : List α) :
    F.Longest B (F.parse B).1 (F.parse B).2.symbols where
  starts := F.starts_parse B
  maximal fs' R' h := by
    rw [h.parse, List.length_append]
    exact Nat.le_add_right ..

/-- There is nothing left to parse behind a longest reading. -/
theorem Longest.parse_nil (h : F.Longest B fs R) : (F.parse R).1 = [] := by
  have hle := h.maximal _ _ (F.starts_parse B)
  rw [h.starts.parse, List.length_append] at hle
  apply List.eq_nil_of_length_eq_zero
  omega

/-- The parse of a stream gives the frames of its longest reading, and goes on with the rest. -/
theorem Longest.parse (h : F.Longest B fs R) : F.parse B = (fs, (F.parse R).2) := by
  rw [h.starts.parse, h.parse_nil, List.append_nil]

/-- Behind a longest reading the parse stops at a rejected header. -/
theorem Longest.parse_rejects (h : F.Longest B fs R) (hR : F.Rejects R) :
    F.parse B = (fs, .illegal R) := by
  rw [h.parse, parse_illegal hR.1 hR.2]

/-- Behind a longest reading without a rejected header the rest is waiting. -/
theorem Longest.parse_waiting (h : F.Longest B fs R) (hR : ¬ F.Rejects R) :
    F.parse B = (fs, .waiting R) := by
  have hnil := h.parse_nil
  rw [h.parse]
  clear h
  cases R using F.parse_induct with
  | waiting R hwait => rw [hwait]
  | illegal R hl hn => exact absurd ⟨hl, hn⟩ hR
  | frame R n hl hn hle ih =>
    rw [parse_frame hl hn hle] at hnil
    exact absurd hnil (List.cons_ne_nil _ _)

end ServerCom.Framing
