import ServerCom.Core.Text.CString
import ServerCom.Core.Text.Query
import ServerCom.Core.Text.Separator
import ServerCom.Http.Native.EtcdClient

/-!
# The URLs of etcd operations

Nothing in an argument is escaped. A server cuts what it is asked for at `?`, at every `&`
and at the first `=` of a parameter, so an argument with such a character, or with a NUL, is
read as something else. Two calls are read as what they are exactly when no argument of
theirs contains one. Arguments without NUL that contain no whole text between two arguments
are still told by their URL.
-/

namespace ServerCom.Http

open Text

namespace EtcdOp

/-- What an operation asks for: the key behind the prefix, and its parameters. -/
def target (preUrl : List UInt8) : EtcdOp → Target UInt8
  | .set key value => ⟨preUrl ++ key, [(literal "value", value)]⟩
  | .get key => ⟨preUrl ++ key, []⟩
  | .del key => ⟨preUrl ++ key, []⟩
  | .createQueue dirKey value => ⟨preUrl ++ dirKey, [(literal "value", value)]⟩
  | .watch key =>
    ⟨preUrl ++ key, [(literal "wait", literal "true"), (literal "recursive", literal "true")]⟩
  | .conditionSet key prevValue value =>
    ⟨preUrl ++ key, [(literal "prevValue", prevValue), (literal "value", value)]⟩

/-- `uri`, what `Request` sends for the URL of an operation. -/
def uri (preUrl : List UInt8) (hu : Uri) (op : EtcdOp) : List UInt8 :=
  if hu.path.getD [] = [] then [47] else op.urlRead preUrl

end EtcdOp

variable {preUrl : List UInt8} {op : EtcdOp} {hu : Uri}

/-- The exchange of an operation asks for its `uri`. -/
theorem request_uri {ans : RequestAnswer} {e : Exchange}
    (he : e ∈ (ClientWorld.create.request (op.requestCall preUrl ans)).inFlight) :
    ∃ hu, ans.parsed = some hu ∧ e.uri = op.uri preUrl hu := by
  obtain ⟨parsed, dnsCreated, connCreated, requestMade⟩ := ans
  -- every earlier exit of `Request` leaves nothing in flight
  cases parsed with
  | none => exact absurd he List.not_mem_nil
  | some hu =>
    obtain ⟨host, port, path⟩ := hu
    cases host with
    | none => exact absurd he List.not_mem_nil
    | some host =>
      cases dnsCreated with
      | false => exact absurd he List.not_mem_nil
      | true =>
        cases connCreated with
        | false => exact absurd he List.not_mem_nil
        | true =>
          cases requestMade with
          | false => exact absurd he List.not_mem_nil
          | true => exact ⟨_, rfl, congrArg Exchange.uri (List.mem_singleton.mp he)⟩

/-- A string is read to its end exactly when it has no NUL. -/
theorem takeWhile_ne_zero_eq_self_iff {s : List UInt8} :
    s.takeWhile (· ≠ 0) = s ↔ 0 ∉ s := by
  rw [List.takeWhile_eq_self_iff]
  exact ⟨fun h hz => absurd rfl (of_decide_eq_true (h 0 hz)),
    fun h c hc => decide_eq_true fun hz => h (hz ▸ hc)⟩

/-- The URL tells the key and the value of a call among all strings without NUL. -/
def TellsValue (op : List UInt8 → List UInt8 → EtcdOp) (preUrl key value : CStr) : Prop :=
  ∀ key' value' : CStr, (op key'.bytes value'.bytes).urlRead preUrl.bytes =
    (op key.bytes value.bytes).urlRead preUrl.bytes → key' = key ∧ value' = value

/-- The URL tells the key and both values of a call among all strings without NUL. -/
def TellsValues (op : List UInt8 → List UInt8 → List UInt8 → EtcdOp)
    (preUrl key prevValue value : CStr) : Prop :=
  ∀ key' prevValue' value' : CStr,
    (op key'.bytes prevValue'.bytes value'.bytes).urlRead preUrl.bytes =
      (op key.bytes prevValue.bytes value.bytes).urlRead preUrl.bytes →
    key' = key ∧ prevValue' = prevValue ∧ value' = value

/-- `?value=`. -/
def valueParam : Separator UInt8 := ⟨63, literal "value=", by decide⟩

/-- `?prevValue=`. -/
def prevValueParam : Separator UInt8 := ⟨63, literal "prevValue=", by decide⟩

/-- `&value=`. -/
def andValueParam : Separator UInt8 := ⟨38, literal "value=", by decide⟩

/-- A text without NUL is read to its end. -/
theorem urlRead_of_join {s : List UInt8} (hurl : op.url preUrl = preUrl ++ s)
    (hpre : 0 ∉ preUrl) (hs : 0 ∉ s) : op.urlRead preUrl = preUrl ++ s := by
  rw [EtcdOp.urlRead, hurl]
  exact takeWhile_ne_zero_eq_self_iff.mpr (mt List.mem_append.mp (not_or.mpr ⟨hpre, hs⟩))

/-- Parts joined by a separator without NUL are without NUL exactly when they are. -/
theorem zero_notMem_join {sep : Separator UInt8} (hsep : 0 ∉ sep.text) {a b : List UInt8} :
    0 ∉ sep.join a b ↔ 0 ∉ a ∧ 0 ∉ b := by
  simp only [Separator.join, List.mem_append, not_or]
  exact ⟨fun h => ⟨h.1.1, h.2⟩, fun h => ⟨⟨h.1, hsep⟩, h.2⟩⟩

/-- A key and one value are told exactly when neither contains `?value=`. -/
theorem tellsValue_iff {op : List UInt8 → List UInt8 → EtcdOp} {preUrl : CStr}
    (hurl : ∀ key value, (op key value).url preUrl.bytes =
      preUrl.bytes ++ valueParam.join key value) (key value : CStr) :
    TellsValue op preUrl key value ↔
      ¬ valueParam.text <:+: key.bytes ∧ ¬ valueParam.text <:+: value.bytes := by
  have hsep : 0 ∉ valueParam.text := by decide
  have hread : ∀ {a b : List UInt8}, 0 ∉ a → 0 ∉ b →
      (op a b).urlRead preUrl.bytes = preUrl.bytes ++ valueParam.join a b := fun ha hb =>
    urlRead_of_join (hurl _ _) preUrl.nul_notMem ((zero_notMem_join hsep).mpr ⟨ha, hb⟩)
  have hown := hread key.nul_notMem value.nul_notMem
  rw [← Separator.join_determined_iff]
  constructor
  · intro h a b he
    -- parts that are joined to the same text have no NUL either
    obtain ⟨ha, hb⟩ := (zero_notMem_join hsep).mp
      (he ▸ (zero_notMem_join hsep).mpr ⟨key.nul_notMem, value.nul_notMem⟩)
    obtain ⟨rfl, rfl⟩ := h ⟨a, ha⟩ ⟨b, hb⟩ (by rw [hread ha hb, hown, he])
    exact ⟨rfl, rfl⟩
  · intro h key' value' he
    rw [hread key'.nul_notMem value'.nul_notMem, hown] at he
    obtain ⟨hkey, hvalue⟩ := h _ _ (List.append_cancel_left he)
    exact ⟨CStr.ext hkey, CStr.ext hvalue⟩

/-- A key and two values are told exactly when none contains a separator that could be taken for
one beside it. -/
theorem tellsValues_iff {op : List UInt8 → List UInt8 → List UInt8 → EtcdOp} {preUrl : CStr}
    (hurl : ∀ key prevValue value, (op key prevValue value).url preUrl.bytes =
      preUrl.bytes ++ prevValueParam.join key (andValueParam.join prevValue value))
    (key prevValue value : CStr) :
    TellsValues op preUrl key prevValue value ↔
      ¬ prevValueParam.text <:+: key.bytes ∧ ¬ prevValueParam.text <:+: prevValue.bytes ∧
        ¬ andValueParam.text <:+: prevValue.bytes ∧ ¬ andValueParam.text <:+: value.bytes := by
  have hsep : 0 ∉ prevValueParam.text := by decide
  have hand : 0 ∉ andValueParam.text := by decide
  have hfree : ∀ {a b c : List UInt8},
      0 ∉ prevValueParam.join a (andValueParam.join b c) ↔ 0 ∉ a ∧ 0 ∉ b ∧ 0 ∉ c :=
    (zero_notMem_join hsep).trans (and_congr_right' (zero_notMem_join hand))
  have hread : ∀ {a b c : List UInt8}, 0 ∉ a ∧ 0 ∉ b ∧ 0 ∉ c → (op a b c).urlRead preUrl.bytes =
      preUrl.bytes ++ prevValueParam.join a (andValueParam.join b c) := fun h =>
    urlRead_of_join (hurl _ _ _) preUrl.nul_notMem (hfree.mpr h)
  have hnul := And.intro key.nul_notMem (And.intro prevValue.nul_notMem value.nul_notMem)
  have hown := hread hnul
  rw [← Separator.join_join_determined_iff]
  constructor
  · intro h a b c he
    have habc := hfree.mp (he ▸ hfree.mpr hnul)
    obtain ⟨rfl, rfl, rfl⟩ :=
      h ⟨a, habc.1⟩ ⟨b, habc.2.1⟩ ⟨c, habc.2.2⟩ (by rw [hread habc, hown, he])
    exact ⟨rfl, rfl, rfl⟩
  · intro h key' prevValue' value' he
    rw [hread ⟨key'.nul_notMem, prevValue'.nul_notMem, value'.nul_notMem⟩, hown] at he
    obtain ⟨hkey, hprevValue, hvalue⟩ := h _ _ _ (List.append_cancel_left he)
    exact ⟨CStr.ext hkey, CStr.ext hprevValue, CStr.ext hvalue⟩

/-- Among strings without NUL the URL of an operation tells its arguments exactly when none of
them contains a text that stands between the arguments and could be taken for it. -/
theorem etcdUrl_tells_iff (preUrl : CStr) :
    (∀ key value, TellsValue .set preUrl key value ↔
      ¬ literal "?value=" <:+: key.bytes ∧ ¬ literal "?value=" <:+: value.bytes) ∧
    (∀ dirKey value, TellsValue .createQueue preUrl dirKey value ↔
      ¬ literal "?value=" <:+: dirKey.bytes ∧ ¬ literal "?value=" <:+: value.bytes) ∧
    ∀ key prevValue value, TellsValues .conditionSet preUrl key prevValue value ↔
      ¬ literal "?prevValue=" <:+: key.bytes ∧ ¬ literal "?prevValue=" <:+: prevValue.bytes ∧
        ¬ literal "&value=" <:+: prevValue.bytes ∧ ¬ literal "&value=" <:+: value.bytes := by
  have hvalue : valueParam.text = literal "?value=" := rfl
  have hprevValue : prevValueParam.text = literal "?prevValue=" := rfl
  have handValue : andValueParam.text = literal "&value=" := rfl
  rw [← hvalue, ← hprevValue, ← handValue]
  refine ⟨tellsValue_iff fun key value => ?_, tellsValue_iff fun dirKey value => ?_,
    tellsValues_iff fun key prevValue value => ?_⟩
  · simp only [EtcdOp.url, Separator.join, hvalue, List.append_assoc]
  · simp only [EtcdOp.url, Separator.join, hvalue, List.append_assoc]
  · simp only [EtcdOp.url, Separator.join, hprevValue, handValue, List.append_assoc]

end ServerCom.Http
