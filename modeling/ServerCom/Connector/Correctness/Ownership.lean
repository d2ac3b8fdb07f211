import ServerCom.Connector.Native.BaseConnect
import ServerCom.Core.Machine.Guarded

/-!
# Ownership of bufferevents

A run is a sequence of operations on one object, each with the answers of the
system calls it makes. `Owns` says that the object's fields agree with the
bufferevents libevent keeps for it, and `Guard` is what an operation needs to keep
that agreement.
-/

namespace ServerCom.Connector

namespace Connection

/-- The fields agree with the bufferevents that are kept for the object. -/
structure Owns (c : Connection) : Prop where
  /-- Exactly `m_buf_e` is live. -/
  live : c.live = c.bufE.toList
  /-- `m_fd` is set exactly together with `m_buf_e`. -/
  fd : c.fd ≠ 0 ↔ c.bufE ≠ none
  /-- A connection has a bufferevent. -/
  connect : c.isConnect = true → c.bufE ≠ none

end Connection

/-- A connection attempt that ends with everything or nothing acquired. -/
def Outcome.Whole (o : Outcome) : Prop :=
  0 ≤ o.socket ∧ (o.newOk = true → o.socket ≠ 0 ∧ o.connectOk = true)

/-- What an operation needs to keep the agreement. -/
def Operation.Guard (c : Connection) : Operation → Prop
  | .connectInitIp ip port o => c.fd ≠ 0 ∨ ip = none ∨ htons port = 0 ∨ o.Whole
  | .connectInit svrAddr o => c.fd ≠ 0 ∨ svrAddr.sinPort = 0 ∨ o.Whole
  | .baseAcceptInit fd _ newOk => c.fd ≠ 0 ∨ (fd ≠ 0 ↔ newOk = true)
  | .tryReconnect o =>
    c.isConnect = true ∨ c.addr.sinPort = 0 ∨ if c.bufE = none then o.Whole else o.socket < 0
  | .disConnect => True
  | .event _ _ => True

namespace Connection

variable {c : Connection} {o : Outcome}

/-- A constructed object has no bufferevent, and its fields say so. -/
theorem construct_owns (msg : MsgPack) : (construct msg).Owns :=
  ⟨rfl, by simp [construct, BaseConnect.construct], by simp [construct, BaseConnect.construct]⟩

/-- Freeing releases the one live bufferevent. -/
theorem Owns.free (h : c.Owns) : c.free.Owns := by
  have hlive := h.live
  cases hb : c.bufE with
  | none =>
    rw [hb] at hlive
    exact ⟨by simpa [Connection.free, freeBufE, hb] using hlive,
      by simp [Connection.free, freeBufE, hb], by simp [Connection.free]⟩
  | some b =>
    rw [hb] at hlive
    exact ⟨by simp [Connection.free, freeBufE, hb, hlive],
      by simp [Connection.free, freeBufE, hb], by simp [Connection.free]⟩

/-- What an attempt leaves behind, by the answers it gets. -/
theorem owns_connectByAddr_iff (hp : c.addr.sinPort ≠ 0) :
    (c.connectByAddr o).1.Owns ↔
      if o.socket < 0 then c.live = c.bufE.toList ∧ c.bufE ≠ none
      else if o.newOk then c.live = [] ∧ o.socket ≠ 0 ∧ o.connectOk = true
      else c.live = [] ∧ c.isConnect = false := by
  split_ifs with hs hn
  · rw [connectByAddr_of_socket hp hs]
    exact ⟨fun h => ⟨h.live, h.fd.mp hs.ne⟩,
      fun h => ⟨h.1, iff_of_true hs.ne h.2, fun _ => h.2⟩⟩
  · rw [connectByAddr_of_new hp (not_lt.mp hs) hn]
    constructor
    · intro h
      have hfd : (if o.connectOk then o.socket else 0) ≠ 0 := h.fd.mpr (Option.some_ne_none _)
      have hc : o.connectOk = true := by
        by_contra hc
        exact hfd (if_neg hc)
      rw [if_pos hc] at hfd
      exact ⟨(List.cons.inj h.live).2, hfd, hc⟩
    · rintro ⟨hl, h0, hc⟩
      exact ⟨by simp [hl], by simp [hc, h0], by simp⟩
  · rw [connectByAddr_of_newFail hp (not_lt.mp hs) (by simpa using hn)]
    exact ⟨fun h => ⟨h.live, by simpa using h.connect⟩,
      fun h => ⟨h.1, by simp, by simp [h.2]⟩⟩

/-- An object that owns nothing stays consistent exactly through a whole attempt. -/
theorem Owns.connectByAddr_iff (h : c.Owns) (hb : c.bufE = none) :
    (c.connectByAddr o).1.Owns ↔ c.addr.sinPort = 0 ∨ o.Whole := by
  by_cases hp : c.addr.sinPort = 0
  · rw [connectByAddr_of_port hp]
    exact iff_of_true h (.inl hp)
  have hl : c.live = [] := by rw [h.live, hb, Option.toList_none]
  have hc : c.isConnect = false := Bool.eq_false_iff.mpr fun hc => h.connect hc hb
  rw [owns_connectByAddr_iff hp, or_iff_right hp, Outcome.Whole]
  split_ifs with hs hn
  · exact iff_of_false (fun h => h.2 hb) fun h => absurd hs (not_lt.mpr h.1)
  · exact ⟨fun h => ⟨not_lt.mp hs, fun _ => h.2⟩, fun h => ⟨hl, h.2 hn⟩⟩
  · exact iff_of_true ⟨hl, hc⟩ ⟨not_lt.mp hs, fun h => absurd h hn⟩

/-- An object that is still connecting stays consistent exactly when no socket is had. -/
theorem Owns.connectByAddr_iff_of_some (h : c.Owns) (hb : c.bufE ≠ none) :
    (c.connectByAddr o).1.Owns ↔ c.addr.sinPort = 0 ∨ o.socket < 0 := by
  by_cases hp : c.addr.sinPort = 0
  · rw [connectByAddr_of_port hp]
    exact iff_of_true h (.inl hp)
  have hl : c.live ≠ [] := by
    obtain ⟨b, hb⟩ := Option.ne_none_iff_exists'.mp hb
    rw [h.live, hb, Option.toList_some]
    exact List.cons_ne_nil _ _
  rw [owns_connectByAddr_iff hp, or_iff_right hp]
  split_ifs with hs hn
  · exact iff_of_true ⟨h.live, hb⟩ hs
  · exact iff_of_false (fun h => hl h.1) hs
  · exact iff_of_false (fun h => hl h.1) hs

/-- The address does not take part in the agreement. -/
theorem Owns.setAddr (h : c.Owns) (a : SockAddrIn) : { c with addr := a : Connection }.Owns :=
  ⟨h.live, h.fd, h.connect⟩

/-- Without a descriptor there is no bufferevent. -/
theorem Owns.bufE_eq_none (h : c.Owns) (hf : c.fd = 0) : c.bufE = none := by
  by_contra hb
  exact h.fd.mpr hb hf

/-- `BaseAcceptInit` stays consistent exactly when a descriptor and a bufferevent
come together. -/
theorem Owns.baseAcceptInit_iff (h : c.Owns) (fd : Int) (sa : SockAddrIn) (newOk : Bool) :
    (c.baseAcceptInit fd sa newOk).1.Owns ↔ c.fd ≠ 0 ∨ (fd ≠ 0 ↔ newOk = true) := by
  by_cases hf : c.fd = 0
  · have hb := h.bufE_eq_none hf
    have hl : c.live = [] := by rw [h.live, hb, Option.toList_none]
    have hc : c.isConnect = false := Bool.eq_false_iff.mpr fun hc => h.connect hc hb
    rw [baseAcceptInit, if_neg (not_not.mpr hf), or_iff_right (not_not.mpr hf)]
    cases newOk with
    | true =>
      exact ⟨fun h => iff_of_true (h.fd.mpr (Option.some_ne_none _)) rfl,
        fun h => ⟨congrArg (List.cons c.created) hl,
          iff_of_true (h.mpr rfl) (Option.some_ne_none _), fun _ => Option.some_ne_none _⟩⟩
    | false =>
      exact ⟨fun h => iff_of_false (fun hfd => h.fd.mp hfd rfl) Bool.false_ne_true,
        fun h => ⟨hl, iff_of_false (fun hfd => absurd (h.mp hfd) Bool.false_ne_true)
          (not_not.mpr rfl), fun hc' => absurd (hc.symm.trans hc') Bool.false_ne_true⟩⟩
  · rw [baseAcceptInit, if_pos hf]
    exact iff_of_true h (.inl hf)

/-- An operation keeps the agreement exactly when its guard holds. -/
theorem Owns.step_iff (h : c.Owns) (op : Operation) : (c.step op).Owns ↔ op.Guard c := by
  cases op with
  | connectInitIp ip port o =>
    rw [step, connectInitIp.eq_def, Operation.Guard]
    by_cases hf : c.fd = 0
    · rw [if_neg (not_not.mpr hf), or_iff_right (not_not.mpr hf)]
      cases ip with
      | none => exact iff_of_true h (.inl rfl)
      | some ip =>
        rw [or_iff_right (Option.some_ne_none _)]
        exact (h.setAddr ⟨afInet, htons port, ip⟩).connectByAddr_iff (h.bufE_eq_none hf)
    · rw [if_pos hf]
      exact iff_of_true h (.inl hf)
  | connectInit svrAddr o =>
    rw [step, connectInit, Operation.Guard]
    by_cases hf : c.fd = 0
    · rw [if_neg (not_not.mpr hf), or_iff_right (not_not.mpr hf)]
      exact (h.setAddr svrAddr).connectByAddr_iff (h.bufE_eq_none hf)
    · rw [if_pos hf]
      exact iff_of_true h (.inl hf)
  | baseAcceptInit fd sa newOk => exact h.baseAcceptInit_iff fd sa newOk
  | tryReconnect o =>
    rw [step, tryReconnect, Operation.Guard]
    by_cases hc : c.isConnect = true
    · rw [if_pos hc]
      exact iff_of_true h (.inl hc)
    · rw [if_neg hc, or_iff_right hc]
      by_cases hb : c.bufE = none
      · rw [if_pos hb]
        exact h.connectByAddr_iff hb
      · rw [if_neg hb]
        exact h.connectByAddr_iff_of_some hb
  | disConnect => exact iff_of_true h.free trivial
  | event bev events =>
    refine iff_of_true ?_ trivial
    rw [step]
    split_ifs with hm
    · rw [connEventCallback]
      split_ifs
      · refine ⟨h.live, h.fd, fun _ hb => ?_⟩
        rw [h.live, show c.bufE = none from hb] at hm
        exact List.not_mem_nil hm
      · exact h.free
    · exact h

end Connection

/-- Every state of a run agrees with the bufferevents kept for the object exactly when
every operation of the run meets its guard. -/
theorem owns_iff_guarded (msg : MsgPack) (ops : List Operation) :
    (∀ c ∈ ops.scanl Connection.step (.construct msg), c.Owns) ↔
      Machine.Along Connection.step (fun c op => op.Guard c) (.construct msg) ops :=
  Machine.forall_scanl_iff_along (fun _ op h => h.step_iff op) (Connection.construct_owns msg) ops

/-- Reconnecting before the first attempt is answered leaks its bufferevent. -/
theorem reconnect_while_connecting_leaks :
    ∃ c ∈ [Operation.connectInit ⟨afInet, 80, 1⟩ ⟨5, true, true⟩,
        .tryReconnect ⟨6, true, true⟩].scanl Connection.step (.construct default),
      c.bufE = some 1 ∧ c.live = [1, 0] ∧ ¬ c.Owns := by
  refine ⟨_, List.mem_cons_of_mem _ (List.mem_cons_of_mem _ (List.mem_cons_self ..)), rfl, rfl, ?_⟩
  intro h
  exact absurd h.live (by decide)

end ServerCom.Connector
