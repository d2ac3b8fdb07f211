import ServerCom.Connector.Native.Send
import ServerCom.Core.Data.Cursor
import ServerCom.Listener.Native.World

/-!
# Going through the connectors

`ForeachConnector` is a range `for` over the `std::map`: the iterator stays at an entry
while the callback runs and is incremented behind it. The callback gets the connector and
may close connectors of the manager, this one included. Reading an entry that was erased,
or an object that was deleted, is a fault.
-/

namespace ServerCom.Listener

open Connector

/-- What a callback can do that may close a connector. -/
inductive VisitAct where
  /-- `CloseConnect` on the manager. -/
  | closeConnect (id : UInt64)
  /-- `FreeSelf` on the connector visited. -/
  | freeSelf
  /-- `send_data` on the connector visited, with `k` calls of `FreeSelf` in
  `onDisconnected` should it disconnect. -/
  | sendData (s : SendCall) (k : Nat)

namespace World

variable {Mgr : Type*} [DecidableEq Mgr]

/-- `send_data` on an object; above its limit it calls `DisConnect`. -/
def sendData (w : World Mgr) (p : ConnectorPtr) (s : SendCall) (k : Nat) : Option (World Mgr) :=
  (w.heap p).bind fun c =>
    if (c.base.sendData s).disConnected then w.disConnect p k else some w

/-- The world after one thing the callback does while it visits a connector. -/
def visitAct (m : Mgr) (p : ConnectorPtr) (w : World Mgr) : VisitAct → Option (World Mgr)
  | .closeConnect id => some (w.closeConnect m id).1
  | .freeSelf => (w.freeSelf p).map Prod.fst
  | .sendData s k => w.sendData p s k

/-- The world after a visit. -/
def visit (m : Mgr) (p : ConnectorPtr) (w : World Mgr) (acts : List VisitAct) :
    Option (World Mgr) := acts.foldlM (visitAct m p) w

end World

/-- The state of the loop between two visits. -/
structure Foreach (Mgr : Type*) where
  /-- The world. -/
  world : World Mgr
  /-- The key the iterator stands at, without a value for `end()`. -/
  it : Option UInt64
  /-- The entries whose connectors were passed to the callback. -/
  visited : List (UInt64 × ConnectorPtr)
  /-- The entries erased while the iterator had not come to them. -/
  early : List (UInt64 × ConnectorPtr)
  /-- An erased entry or a deleted object was read. -/
  fault : Bool

namespace Foreach

variable {Mgr : Type*} [DecidableEq Mgr]

/-- Before the first visit. -/
def begin (w : World Mgr) (m : Mgr) : Foreach Mgr := ⟨w, (w.tables m).first?, [], [], false⟩

/-- The increment behind the visit of an entry; it reads the entry. -/
def increment (m : Mgr) (f : Foreach Mgr) (k : UInt64) (p : ConnectorPtr) :
    Option (World Mgr) → Foreach Mgr
  | none => { f with fault := true }
  | some w =>
    { world := w
      it := (w.tables m).next? k
      visited := f.visited ++ [(k, p)]
      early := f.early ++ SortedMap.lost (f.world.tables m) (w.tables m) k
      fault := ((w.tables m).find? k).isNone }

/-- One round of the loop, with what the callback does in it. No entry has a null pointer,
since only connectors that were made are entered. -/
def step (m : Mgr) (f : Foreach Mgr) (acts : List VisitAct) : Foreach Mgr :=
  if f.fault then f
  else
    match f.it with
    | none => f
    | some k =>
      match (f.world.tables m).find? k with
      | none => { f with fault := true }
      | some p => f.increment m k p ((f.world.heap p).bind fun _ => f.world.visit m p acts)

end Foreach

end ServerCom.Listener
