import DocQuery.Log.Record
import DocQuery.Store.Error

/-
  The seam between queries and stores. A driver opens connections, hands out collections, answers
  requests, closes connections and takes log records; each action reads and changes a state of the
  driver's own. Any of them but the log may fail.
-/

namespace DocQuery

/-- What is asked of a collection. -/
inductive Request where
  | find (filter : Document)
  | remove (filter : Document)
  | update (filter spec : Document) (multi : Bool)
  | insert (document : Document)

/-- What a collection answers. -/
inductive Report where
  | documents (docs : List Document)
  | deleted (count : Nat)
  | updated (matched modified : Nat)
  | inserted (id : Value)

/-- The actions of a store, with a state `σ`, connections `κ` and collections `η`. -/
structure Driver (σ κ η : Type) where
  connect : String → σ → Except StoreError κ × σ
  collection : κ → String → σ → Except StoreError η × σ
  perform : η → Request → σ → Except StoreError Report × σ
  close : κ → σ → Except StoreError Unit × σ
  note : Log.Record → σ → σ

end DocQuery
