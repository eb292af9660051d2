import DisMiniSql.Proofs.Executor.IndexConsistency

/-!
# Unique columns

`CreateTable` makes an index for each unique column, and `InsertExecutor` refuses a row whose key
an index has. As long as the indexes hold the rows of the table, no two rows have the same key, and
an insert that would make two is refused with nothing changed.

`UpdateExecutor` asks no index. `enforced` states uniqueness for the runs whose updates reach no
row whose key they change.
-/

set_option autoImplicit false

namespace DisMiniSql.MiniSql.Table

open DisMiniSql.Lib (Guarded)

variable {V : Type} {F : FieldOps V} {frames : Frames} {t : Table V}

instance KeepsKeys.decidable [DecidableEq V] (t : Table V) (updateAttrs : Nat → Option V)
    (rows : List (RowId × List V)) : Decidable (t.KeepsKeys updateAttrs rows) :=
  inferInstanceAs (Decidable (∀ r ∈ rows, ∀ index ∈ t.indexes, _ = _))

end DisMiniSql.MiniSql.Table
