import ByteDB.AlterTable

/-!
# A change of the database that fails

The tables in memory are put aside before the tables of the other database are
looked for.
-/

set_option autoImplicit false

namespace ByteDB.Engine
open Assoc Integers AlterTable

variable {V E Q : Type} [Codec V] (ev : Evaluator V E Q) (crc : Bytes → UInt32)

lemma loadTables_ok_iff (ds : DiskStore V) (list : List (TableCatalog V))
    (tables : Map String (TableData V E)) : (loadTables ev crc ds list tables).2 = .ok () ↔
      ∀ t ∈ list, ∃ td, buildTableData ev crc ds t = .ok td := by
  induction list generalizing tables with
  | nil => simp [loadTables]
  | cons t list ih =>
    rw [loadTables, List.forall_mem_cons]
    cases buildTableData ev crc ds t with
    | error err => simp
    | ok td => simp [ih]

/-- The database is current or in memory, or it is not there and no table is
in memory, or all its tables can be loaded. -/
def SwitchSafe (e : Engine V E) (ds : DiskStore V) (name : String) : Prop :=
  name = e.currentDb ∨ (e.dbTables.lookup name).isSome ∨ (name ∉ ds.registry ∧ e.tables = ∅) ∨
    name ∈ ds.registry ∧ ∀ t ∈ (ds.catalogs.lookup (sanitize name)).getD [], ∃ td,
      buildTableData ev crc { ds with
        currentDb := name, catalog := (ds.catalogs.lookup (sanitize name)).getD [] } t = .ok td

/-- The name of the database, the tables and the database of the disk store
are the same. -/
def SameDatabase (e e' : Engine V E) : Prop :=
  e'.currentDb = e.currentDb ∧ e'.tables = e.tables ∧
    e'.disk.map DiskStore.currentDb = e.disk.map DiskStore.currentDb

end ByteDB.Engine
