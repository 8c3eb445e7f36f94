import DocQuery.Driver

/-
  A driver that keeps a record of the calls made to another one, and tells its connections apart
  by the order in which they were opened. The call that hands over the outcome of a run can be put
  on the same record.
-/

namespace DocQuery

/-- A call made in a run. Connections have the number of the connect call that opened them. -/
inductive Call where
  | connect (uri : String) (succeeded : Bool)
  | collection (connection : Nat) (name : String)
  | perform (connection : Nat) (request : Request)
  | close (connection : Nat)
  /-- The outcome of the run is handed over. -/
  | complete

/-- The state of a driver with the calls made so far, newest first. -/
structure Recorded (σ : Type) where
  inner : σ
  calls : List Call

namespace Call

def isConnect : Call → Bool
  | connect _ _ => true
  | _ => false

def isClose : Call → Bool
  | close _ => true
  | _ => false

def isCloseOf (n : Nat) : Call → Bool
  | close m => m == n
  | _ => false

def isComplete : Call → Bool
  | complete => true
  | _ => false

def request? : Call → Option Request
  | perform _ request => some request
  | _ => none

end Call

namespace Recorded

variable {σ : Type}

def start (s : σ) : Recorded σ := ⟨s, []⟩

def add (r : Recorded σ) (c : Call) (s : σ) : Recorded σ := ⟨s, c :: r.calls⟩

/-- Hands over an outcome and records that. -/
def completing {β ρ : Type} (hand : β → σ → ρ × σ) (outcome : β) (r : Recorded σ) :
    ρ × Recorded σ :=
  let (out, s) := hand outcome r.inner
  (out, r.add .complete s)

/-- How many connect calls were made, failed ones too. -/
def connects (r : Recorded σ) : Nat := r.calls.countP Call.isConnect

/-- How many close calls were made, failed ones too. -/
def closes (r : Recorded σ) : Nat := r.calls.countP Call.isClose

/-- The requests that were made, oldest first. -/
def requests (r : Recorded σ) : List Request := r.calls.reverse.filterMap Call.request?

end Recorded

/-- Records the calls of a driver. Connections and collections carry the number of the connect
call that they come from. -/
def Driver.recording {σ κ η : Type} (d : Driver σ κ η) :
    Driver (Recorded σ) (Nat × κ) (Nat × η) where
  connect uri r :=
    match d.connect uri r.inner with
    | (.ok c, s) => (.ok (r.connects, c), r.add (.connect uri true) s)
    | (.error e, s) => (.error e, r.add (.connect uri false) s)
  collection c name r :=
    let (result, s) := d.collection c.2 name r.inner
    (result.map fun h => (c.1, h), r.add (.collection c.1 name) s)
  perform h request r :=
    let (result, s) := d.perform h.2 request r.inner
    (result, r.add (.perform h.1 request) s)
  close c r :=
    let (result, s) := d.close c.2 r.inner
    (result, r.add (.close c.1) s)
  note record r := { r with inner := d.note record r.inner }

namespace Driver

variable {σ κ η : Type} (d : Driver σ κ η)

theorem recording_collection (c : Nat × κ) (name : String) (r : Recorded σ) :
    d.recording.collection c name r = ((d.collection c.2 name r.inner).1.map fun h => (c.1, h),
      r.add (.collection c.1 name) (d.collection c.2 name r.inner).2) := rfl

theorem recording_perform (h : Nat × η) (request : Request) (r : Recorded σ) :
    d.recording.perform h request r = ((d.perform h.2 request r.inner).1,
      r.add (.perform h.1 request) (d.perform h.2 request r.inner).2) := rfl

theorem recording_close (c : Nat × κ) (r : Recorded σ) :
    d.recording.close c r = ((d.close c.2 r.inner).1, r.add (.close c.1) (d.close c.2 r.inner).2) :=
  rfl

end Driver
end DocQuery
