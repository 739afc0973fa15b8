import OverwatchTeams.ObjectStore.Group

/-!
# A group that is its view

The simplest core: a group that keeps what can be read from it, with the names of
its tables in a list. Its operations do just what `LawfulCore` asks for, so that the
laws have a model, with and without `sync`.
-/

namespace OverwatchTeams.ObjectStore

structure FileGroup (sync : Bool) where
  view : GroupView String
  names : List String
  nodup : names.Nodup
  mem_names : ∀ n, n ∈ names ↔ (view.table n).isSome

namespace FileGroup

variable {sync : Bool}

/-- A new file. -/
def empty : FileGroup sync where
  view := ⟨fun _ => none, .empty, none⟩
  names := []
  nodup := .nil
  mem_names := by simp

def put (g : FileGroup sync) (n : String) (t : Table String) : FileGroup sync where
  view := { g.view with table := Function.update g.view.table n (some t) }
  names := if n ∈ g.names then g.names else n :: g.names
  nodup := by
    split
    · exact g.nodup
    · next h => exact List.nodup_cons.2 ⟨h, g.nodup⟩
  mem_names m := by
    show _ ↔ (Function.update g.view.table n (some t) m).isSome
    rw [Function.update_apply]
    by_cases hm : m = n
    · split <;> simp_all
    · split <;> simp [hm, g.mem_names]

def withPkAndVersion (g : FileGroup sync) (pk : PrimaryKeys) (version : Option Nat) :
    FileGroup sync where
  view := { g.view with pk := pk, version := version }
  names := g.names
  nodup := g.nodup
  mem_names := g.mem_names

end FileGroup

instance (sync : Bool) : Core (FileGroup sync) String where
  enableSync := sync
  defaultValue _ := ""
  view := FileGroup.view
  tableNames := FileGroup.names
  getOrAddTable g n := g.put n ((g.view.table n).getD ⟨0, []⟩)
  createTableWithPrimaryKey g n type key nullable :=
    if (g.view.table n).isSome then g
    else
      (g.put n ⟨0, [⟨key, .value type nullable, true, fun _ => ""⟩]⟩).withPkAndVersion
        (g.view.pk.upsert (objectTypeForTableName n, key)) g.view.version
  edit g n e := (g.view.table n).elim g fun t => g.put n (t.edit (fun _ => "") e)
  setPk g pk := g.withPkAndVersion pk g.view.version
  setVersion g version := g.withPkAndVersion g.view.pk (some version)

instance (sync : Bool) : LawfulCore (FileGroup sync) where
  tableNames_nodup := FileGroup.nodup
  mem_tableNames := FileGroup.mem_names
  view_getOrAddTable _ _ := rfl
  view_createTableWithPrimaryKey g n type key nullable := by
    show (if (g.view.table n).isSome then g else _).view = _
    rw [apply_ite FileGroup.view]
    rfl
  view_edit g n e := by
    let edited (t : Table String) : Table String := t.edit (fun _ => "") e
    let tables := Function.update g.view.table n ((g.view.table n).map edited)
    show ((g.view.table n).elim g fun t => g.put n (edited t)).view =
      { g.view with table := tables }
    dsimp only [tables]
    cases h : g.view.table n with
    | none =>
      rw [Option.elim_none, Option.map_none, ← h, Function.update_eq_self]
    | some t => rfl
  view_setPk _ _ := rfl
  view_setVersion _ _ := rfl

end OverwatchTeams.ObjectStore
