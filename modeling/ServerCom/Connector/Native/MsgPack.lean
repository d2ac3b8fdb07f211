import ServerCom.Core.Word.Int32

/-!
# Message packs

`MsgPack` is an `int` length followed by a fixed data array. The reader fills
both through one `char *`, so the object is carried as the bytes it occupies on
a little-endian host, and `len` and `data` are views of those bytes. A write is
only possible with a proof that its destination lies inside the object.
-/

namespace ServerCom.Connector

/-- `MAX_MSG_DATA_LEN`. -/
def maxMsgDataLen : Nat := 1024 * 4

/-- `HEAD_LEN = sizeof(MsgPack::len)`. -/
def headLen : Nat := 4

/-- The length field has bytes. -/
theorem headLen_pos : 0 < headLen := by decide

/-- `sizeof(MsgPack)`: the length field, then the data array, without padding. -/
def sizeofMsgPack : Nat := headLen + maxMsgDataLen

/-- A `MsgPack` object as the bytes it occupies. -/
structure MsgPack where
  /-- `int len`, then `char data[MAX_MSG_DATA_LEN]`. -/
  bytes : List UInt8
  /-- Exactly the storage of the object. -/
  size : bytes.length = sizeofMsgPack
  deriving DecidableEq

/-- Storage that happens to be zero. -/
instance : Inhabited MsgPack := ⟨⟨List.replicate sizeofMsgPack 0, List.length_replicate⟩⟩

/-- What a receiver is told about a message: its length and its valid bytes. -/
structure Message where
  /-- `msg.len`. -/
  len : Int
  /-- The first `len` bytes of `msg.data`. -/
  data : List UInt8
  deriving DecidableEq, Repr

namespace MsgPack

/-- The signed length field. -/
def len (m : MsgPack) : Int := intOfBytes (m.bytes.take headLen)

/-- The data array. -/
def data (m : MsgPack) : List UInt8 := m.bytes.drop headLen

/-- The valid part of a pack. -/
def message (m : MsgPack) : Message := ⟨m.len, m.data.take m.len.toNat⟩

/-- Assignment to the length field. -/
def setLen (m : MsgPack) (x : Int) : MsgPack where
  bytes := bytesOfInt x ++ m.data
  size := by simp [data, m.size, sizeofMsgPack]; rfl

/-- Copy bytes to `((char *)&msg) + off`. -/
def write (m : MsgPack) (off : Nat) (bs : List UInt8) (h : off + bs.length ≤ sizeofMsgPack) :
    MsgPack where
  bytes := m.bytes.take off ++ bs ++ m.bytes.drop (off + bs.length)
  size := by
    have := m.size
    simp only [List.length_append, List.length_take, List.length_drop]
    omega

/-- A message with this body, the rest of its storage zero. -/
def ofBody (body : List UInt8) (h : headLen + body.length ≤ sizeofMsgPack) : MsgPack :=
  ((default : MsgPack).write headLen body h).setLen body.length

/-- A message is its bytes. -/
@[ext] theorem ext {m n : MsgPack} (h : m.bytes = n.bytes) : m = n := by
  cases m; cases n; simp_all

@[simp] theorem length_data (m : MsgPack) : m.data.length = maxMsgDataLen := by
  simp [data, m.size, sizeofMsgPack]

/-- The length is an `int`. -/
theorem len_inInt32 (m : MsgPack) : InInt32 m.len := intOfBytes_inInt32 _

@[simp] theorem bytes_setLen (m : MsgPack) (x : Int) :
    (m.setLen x).bytes = bytesOfInt x ++ m.data := rfl

@[simp] theorem data_setLen (m : MsgPack) (x : Int) : (m.setLen x).data = m.data :=
  List.drop_left' (length_bytesOfInt x)

/-- The length field holds what was assigned to it. -/
theorem len_setLen (m : MsgPack) {x : Int} (h : InInt32 x) : (m.setLen x).len = x := by
  have ht : (bytesOfInt x ++ m.data).take headLen = bytesOfInt x :=
    List.take_left' (length_bytesOfInt x)
  rw [len, bytes_setLen, ht, intOfBytes_bytesOfInt h]

/-- A write changes the bytes from its offset on. -/
theorem bytes_write (m : MsgPack) {off : Nat} {bs : List UInt8}
    (h : off + bs.length ≤ sizeofMsgPack) :
    (m.write off bs h).bytes =
      m.bytes.take off ++ bs ++ m.bytes.drop (off + bs.length) := rfl

/-- The written bytes extend the prefix that was already there. -/
theorem take_write (m : MsgPack) {off : Nat} {bs : List UInt8}
    (h : off + bs.length ≤ sizeofMsgPack) :
    (m.write off bs h).bytes.take (off + bs.length) = m.bytes.take off ++ bs := by
  have hs := m.size
  exact List.take_left' (by simp; omega)

/-- Nothing before the destination changes. -/
theorem take_write_of_le (m : MsgPack) {off k : Nat} {bs : List UInt8}
    (h : off + bs.length ≤ sizeofMsgPack) (hk : k ≤ off) :
    (m.write off bs h).bytes.take k = m.bytes.take k := by
  have hs := m.size
  rw [bytes_write, List.append_assoc, List.take_append_of_le_length (by simp; omega),
    List.take_take,
    Nat.min_eq_left hk]

/-- A write behind the length field does not change the length. -/
theorem len_write (m : MsgPack) {off : Nat} {bs : List UInt8}
    (h : off + bs.length ≤ sizeofMsgPack) (ho : headLen ≤ off) :
    (m.write off bs h).len = m.len := by
  rw [len, len, take_write_of_le m h ho]

/-- The object is its length field followed by its data. -/
theorem bytes_eq (m : MsgPack) : m.bytes = bytesOfInt m.len ++ m.data := by
  have hs : (m.bytes.take headLen).length = 4 := by simp [m.size, sizeofMsgPack, headLen]
  rw [len, bytesOfInt_intOfBytes hs, data, List.take_append_drop]

/-- A message is its length and its data. -/
theorem ext_view {m n : MsgPack} (hl : m.len = n.len) (hd : m.data = n.data) : m = n := by
  apply ext
  rw [m.bytes_eq, n.bytes_eq, hl, hd]

/-- Assigning the field its own value changes nothing. -/
theorem setLen_len (m : MsgPack) : m.setLen m.len = m :=
  ext_view (len_setLen m m.len_inInt32) (data_setLen ..)

/-- The last length counts. -/
theorem setLen_setLen (m : MsgPack) (x y : Int) : (m.setLen x).setLen y = m.setLen y := by
  apply ext
  rw [bytes_setLen, bytes_setLen, data_setLen]

/-- The data behind a write that starts in the data array. -/
theorem data_write (m : MsgPack) {k : Nat} {bs : List UInt8}
    (h : headLen + k + bs.length ≤ sizeofMsgPack) :
    (m.write (headLen + k) bs h).data = m.data.take k ++ bs ++ m.data.drop (k + bs.length) := by
  have hs := m.size
  rw [data, bytes_write, List.append_assoc, List.drop_append_of_le_length (by simp; omega),
    List.drop_take, Nat.add_sub_cancel_left, ← List.append_assoc, data, List.drop_drop,
    Nat.add_assoc]

/-- Bytes written behind the header extend the data prefix. -/
theorem take_data_write (m : MsgPack) {k : Nat} {bs : List UInt8}
    (h : headLen + k + bs.length ≤ sizeofMsgPack) :
    (m.write (headLen + k) bs h).data.take (k + bs.length) = m.data.take k ++ bs := by
  rw [data_write]
  refine List.take_left' ?_
  have := m.length_data
  unfold sizeofMsgPack at h
  simp only [List.length_append, List.length_take]
  omega

/-- Writes behind the header do not interfere with the length field. -/
theorem write_setLen (m : MsgPack) {off : Nat} {bs : List UInt8} {x : Int} (hx : InInt32 x)
    (h : off + bs.length ≤ sizeofMsgPack) (ho : headLen ≤ off) :
    (m.setLen x).write off bs h = (m.write off bs h).setLen x := by
  obtain ⟨k, rfl⟩ := Nat.exists_eq_add_of_le ho
  apply ext_view
  · rw [len_write _ h ho, len_setLen m hx, len_setLen _ hx]
  · rw [data_write, data_setLen, data_setLen, data_write]

/-- A message is determined by its length field and the prefix it announces. -/
theorem message_eq {m : MsgPack} {body : List UInt8} (hl : m.len = body.length)
    (hd : m.data.take body.length = body) : m.message = ⟨body.length, body⟩ := by
  rw [message, hl, Int.toNat_natCast, hd]

end MsgPack

end ServerCom.Connector
