import DocQuery.Driver

/-
  A driver with faults: each kind of call can be made to fail. A call that fails does not reach the
  driver behind, except that a connection is closed even if closing reports a failure.
-/

namespace DocQuery

/-- The errors that calls fail with, if they fail. -/
structure Faults where
  connect : Option StoreError
  collection : Option StoreError
  perform : Option StoreError
  close : Option StoreError

namespace Faults

def none : Faults := ⟨.none, .none, .none, .none⟩

end Faults

/-- Makes the calls of a driver fail. -/
def Driver.faulty {σ κ η : Type} (faults : Faults) (d : Driver σ κ η) : Driver σ κ η where
  connect uri s :=
    match faults.connect with
    | some e => (.error e, s)
    | .none => d.connect uri s
  collection c name s :=
    match faults.collection with
    | some e => (.error e, s)
    | .none => d.collection c name s
  perform h request s :=
    match faults.perform with
    | some e => (.error e, s)
    | .none => d.perform h request s
  close c s :=
    match d.close c s, faults.close with
    | (_, s), some e => (.error e, s)
    | (result, s), .none => (result, s)
  note := d.note

end DocQuery
