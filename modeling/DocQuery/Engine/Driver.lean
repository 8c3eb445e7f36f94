import DocQuery.Driver
import DocQuery.Engine

/-
  The document store as a driver.
-/

namespace DocQuery.Engine

/-- Answers a request. -/
def perform (h : Handle) (request : Request) (g : Engine) : Except StoreError Report × Engine :=
  match request with
  | .find filter => let (r, g) := g.find h filter; (r.map .documents, g)
  | .remove filter => let (r, g) := g.remove h filter; (r.map .deleted, g)
  | .update filter spec multi =>
    let (r, g) := g.update h filter spec multi
    (r.map fun (matched, modified) => .updated matched modified, g)
  | .insert d => let (r, g) := g.insert h d; (r.map .inserted, g)

/-- The store as a driver. -/
def driver : Driver Engine Nat Handle where
  connect := connect
  collection := collection
  perform := perform
  close := close
  note r g := g.note r.level r.target r.text

end DocQuery.Engine
