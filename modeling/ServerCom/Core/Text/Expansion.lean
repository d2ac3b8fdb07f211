import ServerCom.Core.Text.Printf

/-!
# Expanding a text again

A text without a percent sign is its own expansion, and any other text changes when it is
expanded without arguments, if that has a meaning at all. Numbers print no percent sign;
only characters, strings and what is left to the platform can.
-/

namespace ServerCom.Text

variable {platform : Spec → VarArg → Option (List UInt8)} {s rest : List UInt8} {n : Nat}

/-- A text without a percent sign is cut into its characters. -/
theorem piecesUpTo_of_notMem (h : percent ∉ s) (hn : s.length ≤ n) :
    piecesUpTo n s = some (s.map .literal) := by
  induction s generalizing n with
  | nil => cases n <;> rfl
  | cons c s ih =>
    obtain ⟨hc, hs⟩ := not_or.mp (mt List.mem_cons.mpr h)
    cases n with
    | zero => exact absurd hn (by simp)
    | succ n =>
      rw [piecesUpTo, if_pos (Ne.symm hc), ih hs (Nat.le_of_succ_le_succ hn)]
      rfl

/-- Literal characters stand for themselves. -/
theorem texts_literal (s : List UInt8) (args : List VarArg) :
    texts platform (s.map .literal) args = some (s.map ([·])) := by
  induction s with
  | nil => rfl
  | cons c s ih => rw [List.map_cons, texts, ih]; rfl

/-- A text without a percent sign is its own expansion. -/
theorem vfprintf_of_notMem (h : percent ∉ s) (args : List VarArg) :
    vfprintf platform s args = some s := by
  have hflat : (s.map ([·])).flatten = s := by
    induction s with
    | nil => rfl
    | cons c s ih =>
      rw [List.map_cons, List.flatten_cons, ih (mt (List.mem_cons_of_mem c) h)]
      rfl
  rw [vfprintf, formatTexts, pieces, piecesUpTo_of_notMem h (Nat.le_refl _), Option.bind_some,
    texts_literal, Option.map_some, hflat]

/-- An amount is taken off the front. -/
theorem length_scanAmount (s : List UInt8) : (scanAmount s).2.length ≤ s.length := by
  rw [scanAmount.eq_def]
  split
  · exact Nat.le_succ _
  · split_ifs
    · exact Nat.le_refl _
    · exact (List.dropWhile_sublist isDigit).length_le

/-- A precision is taken off the front. -/
theorem length_scanPrecision (s : List UInt8) : (scanPrecision s).2.length ≤ s.length := by
  rw [scanPrecision.eq_def]
  split
  · exact Nat.le_succ_of_le (length_scanAmount _)
  · exact Nat.le_refl _

/-- A modifier is taken off the front. -/
theorem length_scanModifier (s : List UInt8) : (scanModifier s).2.length ≤ s.length := by
  rw [scanModifier.eq_def]
  split <;> simp only [List.length_cons] <;> omega

/-- A directive is not empty. -/
theorem length_scanDirective {d : Directive} (h : scanDirective s = some (d, rest)) :
    rest.length < s.length := by
  have hflags := (List.dropWhile_sublist (l := s) isFlag).length_le
  have hwidth := length_scanAmount (s.dropWhile isFlag)
  have hprecision := length_scanPrecision (scanAmount (s.dropWhile isFlag)).2
  have hmodifier := length_scanModifier (scanPrecision (scanAmount (s.dropWhile isFlag)).2).2
  rw [scanDirective] at h
  split at h
  · cases h
  · rename_i hc
    cases h
    rw [hc, List.length_cons] at hmodifier
    omega

/-- Without arguments an amount takes none. -/
theorem takeAmount_nil {a : Option Amount} {v : Option Int} {args : List VarArg}
    (h : takeAmount a [] = some (v, args)) : args = [] := by
  rcases a with _ | (n | _)
  · cases h
    rfl
  · cases h
    rfl
  · cases h

/-- Without arguments a directive takes none. -/
theorem Directive.resolve_nil {d : Directive} {sp : Spec} {args : List VarArg}
    (h : d.resolve [] = some (sp, args)) : args = [] := by
  rw [Directive.resolve, Option.bind_eq_some_iff] at h
  obtain ⟨⟨width, args'⟩, hwidth, h⟩ := h
  obtain rfl := takeAmount_nil hwidth
  rw [Option.map_eq_some_iff] at h
  obtain ⟨⟨precision, args''⟩, hprecision, h⟩ := h
  obtain rfl := takeAmount_nil hprecision
  cases h
  rfl

/-- Without arguments a directive is `%%`. -/
theorem texts_directive_nil {d : Directive} {ps : List Piece} {ts : List (List UInt8)}
    (h : texts platform (.directive d :: ps) [] = some ts) :
    ∃ ts', texts platform ps [] = some ts' ∧ ts = [percent] :: ts' := by
  rw [texts] at h
  split_ifs at h
  · obtain ⟨ts', hts', rfl⟩ := Option.map_eq_some_iff.mp h
    exact ⟨ts', hts', rfl⟩
  · split at h
    · rename_i hres
      exact absurd (Directive.resolve_nil hres) (List.cons_ne_nil _ _)
    · cases h

/-- Without arguments an expansion is not longer than its format, and shorter where the format
has a percent sign. -/
theorem length_texts_nil {ps : List Piece} {ts : List (List UInt8)}
    (hps : piecesUpTo n s = some ps) (hts : texts platform ps [] = some ts) :
    ts.flatten.length ≤ s.length ∧ (percent ∈ s → ts.flatten.length < s.length) := by
  induction n, s using piecesUpTo.induct generalizing ps ts with
  | case1 n =>
    rw [piecesUpTo] at hps
    cases hps
    cases hts
    exact ⟨Nat.le_refl _, fun h => absurd h List.not_mem_nil⟩
  | case2 c cs => cases hps
  | case3 n c cs hc ih =>
    rw [piecesUpTo, if_pos hc] at hps
    obtain ⟨ps', hps', rfl⟩ := Option.map_eq_some_iff.mp hps
    rw [texts] at hts
    obtain ⟨ts', hts', rfl⟩ := Option.map_eq_some_iff.mp hts
    obtain ⟨hle, hlt⟩ := ih hps' hts'
    rw [List.flatten_cons, List.length_append, List.length_singleton, List.length_cons]
    refine ⟨by omega, fun hmem => ?_⟩
    have hrest := hlt ((List.mem_cons.mp hmem).resolve_left (Ne.symm hc))
    omega
  | case4 n c cs hc hd =>
    rw [piecesUpTo, if_neg hc, hd] at hps
    cases hps
  | case5 n c cs hc d rest hd ih =>
    rw [piecesUpTo, if_neg hc, hd] at hps
    obtain ⟨ps', hps', rfl⟩ := Option.map_eq_some_iff.mp hps
    obtain ⟨ts', hts', rfl⟩ := texts_directive_nil hts
    have hle := (ih hps' hts').1
    have hrest := length_scanDirective hd
    have hlt : ([percent] :: ts').flatten.length < (c :: cs).length := by
      rw [List.flatten_cons, List.length_append, List.length_singleton, List.length_cons]
      omega
    exact ⟨Nat.le_of_lt hlt, fun _ => hlt⟩

/-- A text expands without arguments to no longer text, and to itself exactly when it has no
percent sign. -/
theorem vfprintf_nil {t : List UInt8} (h : vfprintf platform s [] = some t) :
    t.length ≤ s.length ∧ (t = s ↔ percent ∉ s) := by
  obtain ⟨ts, hts, rfl⟩ := Option.map_eq_some_iff.mp h
  obtain ⟨ps, hps, hts⟩ := Option.bind_eq_some_iff.mp hts
  obtain ⟨hle, hlt⟩ := length_texts_nil hps hts
  refine ⟨hle, fun heq hmem => ?_, fun hmem => ?_⟩
  · have hless := hlt hmem
    rw [heq] at hless
    exact Nat.lt_irrefl _ hless
  · exact Option.some.inj (h.symm.trans (vfprintf_of_notMem hmem []))

/-! ## What prints no percent sign -/

/-- A text that a second expansion copies whole. -/
def Inert (t : List UInt8) : Prop := ∀ c ∈ t, c ≠ percent ∧ c ≠ 0

/-- A text is inert exactly when it has neither a percent sign nor a NUL. -/
theorem inert_iff {t : List UInt8} : Inert t ↔ percent ∉ t ∧ 0 ∉ t := by
  constructor
  · intro h
    exact ⟨fun hm => (h _ hm).1 rfl, fun hm => (h _ hm).2 rfl⟩
  · rintro ⟨hpercent, hnul⟩ c hc
    exact ⟨ne_of_mem_of_not_mem hc hpercent, ne_of_mem_of_not_mem hc hnul⟩

@[simp] theorem inert_nil : Inert [] := List.forall_mem_nil _

@[simp] theorem inert_cons {c : UInt8} {t : List UInt8} :
    Inert (c :: t) ↔ (c ≠ percent ∧ c ≠ 0) ∧ Inert t := List.forall_mem_cons

@[simp] theorem inert_append {t u : List UInt8} : Inert (t ++ u) ↔ Inert t ∧ Inert u :=
  List.forall_mem_append

/-- A row of one inert character is inert. -/
theorem inert_replicate {c : UInt8} (h : c ≠ percent ∧ c ≠ 0) (n : Nat) :
    Inert (List.replicate n c) :=
  fun _ hd => List.eq_of_mem_replicate hd ▸ h

namespace Spec

variable {sp : Spec}

/-- Blanks and zeros print nothing else. -/
theorem inert_fill {zeros : Bool} {lead body : List UInt8} :
    Inert (sp.fill zeros lead body) ↔ Inert lead ∧ Inert body := by
  have hblank := fun n => inert_replicate (c := 32) (by decide) n
  have hzero := fun n => inert_replicate (c := 48) (by decide) n
  rw [fill]
  split_ifs
  · simp only [inert_append, hblank, and_true]
  · simp only [inert_append, hzero, and_true]
  · simp only [inert_append, hblank, true_and]

/-- Digits are inert. -/
theorem digitChar_inert (h : n < 16) :
    n.digitChar.toUInt8 ≠ percent ∧ n.digitChar.toUInt8 ≠ 0 :=
  (by decide : ∀ m : Fin 16, m.val.digitChar.toUInt8 ≠ percent ∧ m.val.digitChar.toUInt8 ≠ 0)
    ⟨n, h⟩

/-- A number is written inertly, in every base up to 16. -/
theorem inert_toDigits {base : Nat} (hbase : 1 < base ∧ base ≤ 16) (n : Nat) :
    Inert ((Nat.toDigits base n).map Char.toUInt8) := by
  induction n using Nat.strongRecOn with
  | ind n ih =>
    rw [Nat.toDigits_eq_if hbase.1]
    split_ifs with hlt
    · exact inert_cons.mpr ⟨digitChar_inert (Nat.lt_of_lt_of_le hlt hbase.2), inert_nil⟩
    · have hrest := ih (n / base) (Nat.div_lt_self (by omega) hbase.1)
      have hlast : n % base < 16 := Nat.lt_of_lt_of_le (Nat.mod_lt n (by omega)) hbase.2
      rw [List.map_append, inert_append]
      exact ⟨hrest, inert_cons.mpr ⟨digitChar_inert hlast, inert_nil⟩⟩

/-- So is one with a precision. -/
theorem inert_digits {base : Nat} (hbase : 1 < base ∧ base ≤ 16) (n : Nat) :
    Inert (sp.digits base n) := by
  have hds : Inert (if n = 0 then [48] else (Nat.toDigits base n).map Char.toUInt8) := by
    split_ifs
    · exact inert_cons.mpr ⟨by decide, inert_nil⟩
    · exact inert_toDigits hbase n
  rw [digits.eq_def]
  generalize (if n = 0 then [48] else (Nat.toDigits base n).map Char.toUInt8) = ds at hds
  dsimp only
  split
  · exact hds
  · split
    · exact inert_nil
    · exact inert_append.mpr ⟨inert_replicate (by decide) _, hds⟩

/-- The upper case of an inert character is inert. -/
theorem upper_inert {c : UInt8} (h : c ≠ percent ∧ c ≠ 0) : upper c ≠ percent ∧ upper c ≠ 0 := by
  rw [upper]
  split_ifs with hc
  · have hnat : 97 ≤ c.toNat := UInt8.le_iff_toNat_le.mp hc
    have hsub : (c - 32).toNat = c.toNat - 32 := UInt8.toNat_sub_of_le _ _ (by
      rw [UInt8.le_iff_toNat_le]
      exact Nat.le_trans (by decide) hnat)
    constructor
    · intro he
      rw [he] at hsub
      exact absurd hsub (by rw [percent]; simp; omega)
    · intro he
      rw [he] at hsub
      exact absurd hsub (by simp; omega)
  · exact h

/-- What `%d` writes is inert. -/
theorem inert_signed (v : Int) : Inert (sp.signed v) := by
  rw [signed, number, inert_fill]
  refine ⟨?_, inert_digits (by decide) _⟩
  split_ifs <;> simp [percent]

/-- The `0x` in front of a number is inert. -/
theorem inert_hexLead {x : UInt8} (hx : x ≠ percent ∧ x ≠ 0) (n : Nat) :
    Inert (sp.hexLead x n) := by
  rw [hexLead]
  split_ifs
  · exact inert_cons.mpr ⟨by decide, inert_cons.mpr ⟨hx, inert_nil⟩⟩
  · exact inert_nil

/-- What `%u`, `%o` and `%x` write is inert. -/
theorem inert_unsigned (n : Nat) : Inert (sp.unsigned n) := by
  rw [unsigned]
  split_ifs with h8 hx hX
  · rw [number, inert_fill]
    refine ⟨inert_nil, ?_⟩
    split_ifs
    · exact inert_cons.mpr ⟨by decide, inert_digits (by decide) n⟩
    · exact inert_digits (by decide) n
  · rw [number, inert_fill]
    exact ⟨inert_hexLead (by decide) n, inert_digits (by decide) n⟩
  · rw [number, inert_fill]
    refine ⟨inert_hexLead (by decide) n, ?_⟩
    intro d hd
    obtain ⟨c, hc, rfl⟩ := List.mem_map.mp hd
    have hdigits : Inert (sp.digits 16 n) := inert_digits (by decide) n
    exact upper_inert (hdigits c hc)
  · rw [number, inert_fill]
    exact ⟨inert_nil, inert_digits (by decide) n⟩

/-- What `%s` writes has no NUL. -/
theorem zero_notMem_string {mem t : List UInt8} (h : sp.string mem = some t) : 0 ∉ t := by
  rw [string] at h
  split at h
  · exact (cString_eq_some.mp h).1
  · split at h
    · cases h
      exact zero_notMem_takeWhile _
    · exact (cString_eq_some.mp h).1

variable (platform) in
/-- What a conversion copies from its argument has neither a percent sign nor a NUL. -/
def PrintsInert (sp : Spec) (arg : VarArg) : Prop :=
  if sp.conversion = 99 ∧ sp.modifier = [] then
    ∀ v, arg = .int v → v.toUInt8 ≠ percent ∧ v.toUInt8 ≠ 0
  else if sp.conversion = 115 ∧ sp.modifier = [] then
    ∀ addr mem t, arg = .pointer addr mem → sp.string mem = some t → percent ∉ t
  else sp.conversion ∈ platformConversions → ∀ t, platform sp arg = some t → Inert t

/-- The other conversions copy nothing. -/
theorem printsInert_of_notMem {arg : VarArg} (h : sp.conversion ∉ platformConversions) :
    sp.PrintsInert platform arg := by
  have hchar : sp.conversion ≠ 99 := fun he => h (he ▸ by decide)
  have hstring : sp.conversion ≠ 115 := fun he => h (he ▸ by decide)
  rw [PrintsInert, if_neg fun hc => hchar hc.1, if_neg fun hc => hstring hc.1]
  exact fun hc => absurd hc h

/-- What a conversion prints: a number or nothing, a character, a string, or what the platform
gives. -/
theorem text_cases {arg : VarArg} {t : List UInt8} (h : sp.text platform arg = some t) :
    (sp.conversion ∉ platformConversions ∧ Inert t) ∨
    ((sp.conversion = 99 ∧ sp.modifier = []) ∧ ∃ v, arg = .int v ∧
      t = sp.fill false [] [v.toUInt8]) ∨
    ((sp.conversion = 115 ∧ sp.modifier = []) ∧ ∃ addr mem u, arg = .pointer addr mem ∧
      sp.string mem = some u ∧ t = sp.fill false [] u) ∨
    (¬ (sp.conversion = 99 ∧ sp.modifier = []) ∧ ¬ (sp.conversion = 115 ∧ sp.modifier = []) ∧
      sp.conversion ∈ platformConversions ∧ platform sp arg = some t) := by
  rw [text.eq_def] at h
  by_cases hsigned : sp.conversion ∈ [100, 105]
  · rw [if_pos hsigned] at h
    obtain ⟨_, -, rfl⟩ := Option.map_eq_some_iff.mp h
    have hcopy : ∀ c ∈ [100, 105], c ∉ platformConversions := by simp [platformConversions]
    exact .inl ⟨hcopy _ hsigned, inert_signed _⟩
  rw [if_neg hsigned] at h
  by_cases hunsigned : sp.conversion ∈ [111, 117, 120, 88]
  · rw [if_pos hunsigned] at h
    obtain ⟨_, -, rfl⟩ := Option.map_eq_some_iff.mp h
    have hcopy : ∀ c ∈ [111, 117, 120, 88], c ∉ platformConversions := by
      simp [platformConversions]
    exact .inl ⟨hcopy _ hunsigned, inert_unsigned _⟩
  rw [if_neg hunsigned] at h
  by_cases hchar : sp.conversion = 99 ∧ sp.modifier = []
  · rw [if_pos hchar] at h
    cases arg with
    | int v =>
      cases h
      exact .inr (.inl ⟨hchar, v, rfl, rfl⟩)
    | _ => cases h
  rw [if_neg hchar] at h
  by_cases hstring : sp.conversion = 115 ∧ sp.modifier = []
  · rw [if_pos hstring] at h
    cases arg with
    | pointer addr mem =>
      obtain ⟨u, hu, rfl⟩ := Option.map_eq_some_iff.mp h
      exact .inr (.inr (.inl ⟨hstring, addr, mem, u, rfl, hu, rfl⟩))
    | _ => cases h
  rw [if_neg hstring] at h
  by_cases hcount : sp.conversion = 110
  · rw [if_pos hcount] at h
    cases arg with
    | pointer addr mem =>
      cases h
      exact .inl ⟨by rw [hcount]; decide, inert_nil⟩
    | _ => cases h
  rw [if_neg hcount] at h
  by_cases hplatform : sp.conversion ∈ platformConversions
  · rw [if_pos hplatform] at h
    exact .inr (.inr (.inr ⟨hchar, hstring, hplatform, h⟩))
  · rw [if_neg hplatform] at h
    cases h

/-- The text of a conversion is inert exactly when what it copies is. -/
theorem inert_text_iff {arg : VarArg} {t : List UInt8} (h : sp.text platform arg = some t) :
    Inert t ↔ sp.PrintsInert platform arg := by
  obtain ⟨hcopy, ht⟩ | ⟨hchar, v, rfl, rfl⟩ | ⟨hstring, addr, mem, u, rfl, hu, rfl⟩ |
    ⟨hchar, hstring, hplatform, ht⟩ := text_cases h
  · exact iff_of_true ht (printsInert_of_notMem hcopy)
  · rw [PrintsInert, if_pos hchar, inert_fill, and_iff_right inert_nil, inert_cons,
      and_iff_left inert_nil]
    constructor
    · rintro hv _ ⟨⟩
      exact hv
    · intro hv
      exact hv v rfl
  · have hchar : ¬ (sp.conversion = 99 ∧ sp.modifier = []) := by
      rintro ⟨hc, -⟩
      exact absurd (hc.symm.trans hstring.1) (by decide)
    rw [PrintsInert, if_neg hchar, if_pos hstring, inert_fill, and_iff_right inert_nil, inert_iff]
    constructor
    · rintro ⟨hpercent, -⟩ _ _ _ ⟨⟩ hu'
      exact Option.some.inj (hu.symm.trans hu') ▸ hpercent
    · intro hpercent
      exact ⟨hpercent addr mem u rfl hu, zero_notMem_string hu⟩
  · rw [PrintsInert, if_neg hchar, if_neg hstring, forall_prop_of_true hplatform, ht]
    constructor
    · rintro hinert _ ⟨⟩
      exact hinert
    · intro hinert
      exact hinert t rfl

end Spec

variable (platform) in
/-- No piece prints a percent sign or a NUL. -/
def PrintInert : List Piece → List VarArg → Prop
  | [], _ => True
  | .literal c :: ps, args => (c ≠ percent ∧ c ≠ 0) ∧ PrintInert ps args
  | .directive d :: ps, args =>
    d.conversion ≠ percent ∧ match d.resolve args with
      | some (sp, arg :: args) => sp.PrintsInert platform arg ∧ PrintInert ps args
      | _ => True

/-- The texts of the pieces are inert exactly when no piece prints a percent sign or a NUL. -/
theorem inert_texts_iff {ps : List Piece} {args : List VarArg} {ts : List (List UInt8)}
    (h : texts platform ps args = some ts) : Inert ts.flatten ↔ PrintInert platform ps args := by
  induction ps generalizing args ts with
  | nil =>
    cases h
    exact iff_of_true inert_nil trivial
  | cons p ps ih =>
    cases p with
    | literal c =>
      rw [texts] at h
      obtain ⟨us, hus, rfl⟩ := Option.map_eq_some_iff.mp h
      rw [PrintInert, List.flatten_cons, inert_append, inert_cons, ih hus, and_iff_left inert_nil]
    | directive d =>
      rw [texts] at h
      rw [PrintInert]
      by_cases hpercent : d.conversion = percent
      · rw [if_pos hpercent] at h
        split_ifs at h
        obtain ⟨us, hus, rfl⟩ := Option.map_eq_some_iff.mp h
        refine iff_of_false (fun hi => ?_) fun hi => hi.1 hpercent
        exact (inert_cons.mp (inert_append.mp hi).1).1.1 rfl
      · rw [if_neg hpercent] at h
        rw [and_iff_right hpercent]
        cases hres : d.resolve args with
        | none =>
          rw [hres] at h
          cases h
        | some r =>
          obtain ⟨sp, _ | ⟨arg, args'⟩⟩ := r
          · rw [hres] at h
            cases h
          · rw [hres] at h
            obtain ⟨t, ht, h⟩ := Option.bind_eq_some_iff.mp h
            obtain ⟨us, hus, rfl⟩ := Option.map_eq_some_iff.mp h
            rw [List.flatten_cons, inert_append, Spec.inert_text_iff ht, ih hus]

end ServerCom.Text
