import ServerCom.Core.Word.Int32

/-!
# The hash table of hiredis

`dict.c`, for any type of keys with a hash function. A chain of entries is a list, and an
iterator points at an entry by its key, as no key is in a table twice. Keys and values are
copied and freed where nothing is seen of it. An operation gives nothing when an assertion
fails or when it has no meaning.
-/

namespace ServerCom.Redis

/-- `dictEntry`: its key and its value. -/
abbrev DictEntry (κ ν : Type*) := κ × ν

/-- `dict`. -/
structure Dict (κ ν : Type*) where
  /-- The chain in each slot. -/
  table : List (List (DictEntry κ ν))
  /-- The number of slots. -/
  size : ℕ
  /-- What is taken of a hash value. -/
  sizemask : ℕ
  /-- The number of entries. -/
  used : ℕ
  deriving DecidableEq, Repr

/-- `dictIterator`. -/
structure DictIterator (κ : Type*) where
  /-- The slot it is in. -/
  index : Int
  /-- The entry it has returned. -/
  entry : Option κ
  /-- The one behind it. -/
  nextEntry : Option κ
  deriving DecidableEq, Repr

namespace Dict

variable {κ ν : Type*}

/-- `dictCreate`. -/
def create : Dict κ ν := ⟨[], 0, 0, 0⟩

/-- The loop of `_dictNextPower`. -/
def nextPowerLoop : (fuel : ℕ) → (i size : ℕ) → ℕ
  | 0, i, _ => i
  | fuel + 1, i, size => if size ≤ i then i else nextPowerLoop fuel (i * 2) size

/-- `_dictNextPower`. A size below `LONG_MAX` is reached in 62 steps. -/
def nextPower (size : ℕ) : ℕ :=
  if 2 ^ 63 - 1 ≤ size then 2 ^ 63 - 1 else nextPowerLoop 62 4 size

variable [DecidableEq κ] (hash : κ → UInt32) (ht : Dict κ ν) (key : κ) (val : ν)

/-- The slot of a key. -/
def slot (sizemask : ℕ) (key : κ) : ℕ := (hash key).toNat &&& sizemask

/-- The chain in a slot. -/
def chain (h : ℕ) : List (DictEntry κ ν) := ht.table.getD h []

/-! ## Expansion -/

/-- The inner loop of `dictExpand`: the new table, and `used` of the old one. -/
def moveChain (sizemask : ℕ) : List (DictEntry κ ν) → List (List (DictEntry κ ν)) × ℕ →
    List (List (DictEntry κ ν)) × ℕ
  | [], acc => acc
  | he :: next, (table, used) =>
    moveChain sizemask next (table.modify (slot hash sizemask he.1) (he :: ·), used - 1)

/-- The outer loop of `dictExpand`. -/
def moveTable (sizemask : ℕ) : List (List (DictEntry κ ν)) → List (List (DictEntry κ ν)) × ℕ →
    List (List (DictEntry κ ν)) × ℕ
  | [], acc => acc
  | chain :: table, acc =>
    if 0 < acc.2 then moveTable sizemask table (moveChain hash sizemask chain acc) else acc

/-- `dictExpand`, and whether it returns `DICT_OK`. -/
def expand (size : ℕ) : Option (Bool × Dict κ ν) :=
  let realsize := nextPower size
  if size < ht.used then some (false, ht)
  else
    let (table, used) := moveTable hash (realsize - 1) ht.table (.replicate realsize [], ht.used)
    if used = 0 then some (true, ⟨table, realsize, realsize - 1, ht.used⟩) else none

/-- `_dictExpandIfNeeded`. -/
def expandIfNeeded : Option (Bool × Dict κ ν) :=
  if ht.size = 0 then ht.expand hash 4
  else if ht.used = ht.size then ht.expand hash (ht.size * 2)
  else some (true, ht)

/-! ## Operations -/

/-- `_dictKeyIndex`. -/
def keyIndex : Option (Int × Dict κ ν) :=
  match ht.expandIfNeeded hash with
  | none => none
  | some (false, ht) => some (-1, ht)
  | some (true, ht) =>
    let h := slot hash ht.sizemask key
    some (if (ht.chain h).any (·.1 = key) then -1 else int32 h, ht)

/-- `dictAdd`, and whether it returns `DICT_OK`. -/
def add : Option (Bool × Dict κ ν) :=
  match ht.keyIndex hash key with
  | none => none
  | some (index, ht) =>
    if index = -1 then some (false, ht)
    else if 0 ≤ index then
      some (true, { ht with
        table := ht.table.modify index.toNat ((key, val) :: ·), used := ht.used + 1 })
    else none

/-- `dictFind`. -/
def find : Option (DictEntry κ ν) :=
  if ht.size = 0 then none else (ht.chain (slot hash ht.sizemask key)).find? (·.1 = key)

/-- `dictSetHashVal` of the first entry of a key. -/
def setVal : List (DictEntry κ ν) → List (DictEntry κ ν)
  | [] => []
  | he :: next => if he.1 = key then (he.1, val) :: next else he :: setVal next

/-- `dictReplace`, and whether it returns 1. -/
def replace : Option (Bool × Dict κ ν) :=
  match ht.add hash key val with
  | none => none
  | some (true, ht) => some (true, ht)
  | some (false, ht) => match ht.find hash key with
    | none => none
    | some _ => some (false, { ht with
        table := ht.table.modify (slot hash ht.sizemask key) (setVal key val) })

/-- `dictDelete`, and whether it returns `DICT_OK`. -/
def delete : Bool × Dict κ ν :=
  if ht.size = 0 then (false, ht)
  else
    let h := slot hash ht.sizemask key
    if (ht.chain h).any (·.1 = key) then
      (true, { ht with
        table := ht.table.modify h (·.eraseP (·.1 = key)), used := ht.used - 1 })
    else (false, ht)

/-- The outer loop of `_dictClear`: the entries it frees, and `used`. -/
def clearTable : List (List (DictEntry κ ν)) → (used : ℕ) → List (DictEntry κ ν) × ℕ
  | [], used => ([], used)
  | chain :: table, used =>
    if 0 < used then
      let (freed, used) := clearTable table (used - chain.length)
      (chain ++ freed, used)
    else ([], used)

/-- `_dictClear`: the entries it frees, and the table behind it. -/
def clear : List (DictEntry κ ν) × Dict κ ν := ((clearTable ht.table ht.used).1, create)

/-! ## Iterators -/

/-- `dictGetIterator`. -/
def getIterator : DictIterator κ := ⟨-1, none, none⟩

/-- The loop of `dictNext`: the entry it returns, and the iterator. -/
def nextLoop : (fuel : ℕ) → DictIterator κ → Option (Option (DictEntry κ ν) × DictIterator κ)
  | 0, _ => none
  | fuel + 1, iter =>
    match iter.entry with
    | none =>
      let index := int32 (iter.index + 1)
      if int32 ht.size ≤ index then some (none, { iter with index })
      else if 0 ≤ index then match ht.chain index.toNat with
        | [] => nextLoop fuel { iter with index }
        | he :: next => some (some he, ⟨index, some he.1, next.head?.map Prod.fst⟩)
      else none
    | some _ => match iter.nextEntry with
      | none => nextLoop fuel { iter with entry := none }
      | some key => match (ht.chain (slot hash ht.sizemask key)).dropWhile (·.1 ≠ key) with
        | [] => none -- the entry was freed
        | he :: next => some (some he, { iter with
            entry := some he.1, nextEntry := next.head?.map Prod.fst })

/-- `dictNext`. It looks at each slot at most once. -/
def next (iter : DictIterator κ) : Option (Option (DictEntry κ ν) × DictIterator κ) :=
  ht.nextLoop hash (ht.size + 2) iter

/-- The loop over `dictNext`, as `__redisAsyncFree` has it, up to a number of entries: the
entries it visits. Its body may delete the entry it was given. -/
def walk (drop : DictEntry κ ν → Bool) :
    (fuel : ℕ) → Dict κ ν → DictIterator κ → Option (List (DictEntry κ ν) × Dict κ ν)
  | 0, _, _ => none
  | fuel + 1, ht, iter => match ht.next hash iter with
    | none => none
    | some (none, _) => some ([], ht)
    | some (some he, iter) =>
      let ht := if drop he then (ht.delete hash he.1).2 else ht
      (walk drop fuel ht iter).map fun res => (he :: res.1, res.2)

end Dict

end ServerCom.Redis
