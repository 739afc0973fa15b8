import OverwatchTeams.Lib.Keyed
import OverwatchTeams.Lib.ListEdits
import OverwatchTeams.ObjectStore.Verify

/-!
# Groups

A Realm file is a group of tables. The group itself belongs to core, which the
object store is built on: here it is a type with the operations that the object
store calls (`Core`), and `LawfulCore` says what these do to what can be read. A class
of the program is stored in the table with its name behind `class_`; its primary
key is a row of the table `pk`.

Under the operations stand the functions of the object store that read a schema
from a group (`schemaFromGroup`) and that insert, replace and convert columns.
-/

namespace OverwatchTeams.ObjectStore

/-! ## What can be read from a group -/

inductive DataType where
  | int | bool | float | double | string | binary | timestamp | mixed
  deriving DecidableEq, Repr

structure SubColumn where
  name : String
  type : DataType
  nullable : Bool
  deriving DecidableEq, Repr

inductive ColumnType where
  | value (type : DataType) (nullable : Bool)
  | link (target : String)
  | linkList (target : String)
  | table (subdescriptor : List SubColumn)
  deriving DecidableEq, Repr

/-- A column; `cells` is read up to the number of rows of its table. -/
structure Column (V : Type) where
  name : String
  type : ColumnType
  searchIndex : Bool
  cells : Nat → V

structure Table (V : Type) where
  size : Nat
  columns : List (Column V)

/-- The rows of the table `pk`: a class and the name of its primary key. -/
abbrev PrimaryKeys : Type := Keyed.Table (Prod.fst : String × String → String)

/-- All that is read from a group: tables by name, the table `pk`, and the version in the
table `metadata` if there is one. -/
structure GroupView (V : Type) where
  table : String → Option (Table V)
  pk : PrimaryKeys
  version : Option Nat

/-! ## Core -/

inductive Edit (V : Type) where
  | insertColumn (index : Nat) (name : String) (type : ColumnType)
  | removeColumn (index : Nat)
  | addSearchIndex (index : Nat)
  | removeSearchIndex (index : Nat)
  | setCell (index row : Nat) (value : V)

variable {G V : Type}

/-- What an edit does; a new column has its default value in all rows. -/
def Table.edit (defaultValue : ColumnType → V) (t : Table V) : Edit V → Table V
  | .insertColumn i name type =>
    { t with columns := t.columns.insertIdx i ⟨name, type, false, fun _ => defaultValue type⟩ }
  | .removeColumn i => { t with columns := t.columns.eraseIdx i }
  | .addSearchIndex i =>
    { t with columns := t.columns.modify i fun c => { c with searchIndex := true } }
  | .removeSearchIndex i =>
    { t with columns := t.columns.modify i fun c => { c with searchIndex := false } }
  | .setCell i row value =>
    { t with columns := t.columns.modify i fun c =>
        { c with cells := Function.update c.cells row value } }

/-- Core as the object store uses it. `enableSync` is the switch `REALM_ENABLE_SYNC` of the
build: with it the tables of classes are created by the functions of `sync`. -/
class Core (G : Type) (V : outParam Type) where
  enableSync : Bool
  defaultValue : ColumnType → V
  view : G → GroupView V
  tableNames : G → List String
  getOrAddTable : G → String → G
  /-- `sync::create_table_with_primary_key` -/
  createTableWithPrimaryKey : G → String → DataType → String → Bool → G
  edit : G → String → Edit V → G
  setPk : G → PrimaryKeys → G
  setVersion : G → Nat → G

def tableNameForObjectType (objectType : String) : String := "class_" ++ objectType

def objectTypeForTableName (tableName : String) : String :=
  if "class_".toList.isPrefixOf tableName.toList then
    String.ofList (tableName.toList.drop 6)
  else ""

/-- What the operations of core do to what is read. The functions of `sync` leave a table
alone that exists already. -/
class LawfulCore (G : Type) {V : Type} [Core G V] : Prop where
  tableNames_nodup : ∀ g : G, (Core.tableNames g).Nodup
  mem_tableNames : ∀ (g : G) (n : String),
    n ∈ Core.tableNames g ↔ ((Core.view g).table n).isSome
  view_getOrAddTable : ∀ (g : G) (n : String), Core.view (Core.getOrAddTable g n) =
    { Core.view g with
      table := Function.update (Core.view g).table n
        (some (((Core.view g).table n).getD ⟨0, []⟩)) }
  view_createTableWithPrimaryKey :
    ∀ (g : G) (n : String) (type : DataType) (key : String) (nullable : Bool),
      Core.view (Core.createTableWithPrimaryKey g n type key nullable) =
        if ((Core.view g).table n).isSome then Core.view g
        else
          { Core.view g with
            table := Function.update (Core.view g).table n
              (some ⟨0, [⟨key, .value type nullable, true, fun _ =>
                Core.defaultValue G (.value type nullable)⟩]⟩)
            pk := (Core.view g).pk.upsert (objectTypeForTableName n, key) }
  view_edit : ∀ (g : G) (n : String) (e : Edit V), Core.view (Core.edit g n e) =
    { Core.view g with
      table := Function.update (Core.view g).table n
        (((Core.view g).table n).map fun t => t.edit (Core.defaultValue G) e) }
  view_setPk : ∀ (g : G) (pk : PrimaryKeys),
    Core.view (Core.setPk g pk) = { Core.view g with pk := pk }
  view_setVersion : ∀ (g : G) (version : Nat),
    Core.view (Core.setVersion g version) = { Core.view g with version := some version }

/-! ## Names -/

theorem tableNameForObjectType_injective : Function.Injective tableNameForObjectType := by
  intro a b h
  have hlist := congrArg String.toList h
  simp only [tableNameForObjectType, String.toList_append] at hlist
  exact String.toList_inj.1 (List.append_cancel_left hlist)

@[simp] theorem objectTypeForTableName_tableName (objectType : String) :
    objectTypeForTableName (tableNameForObjectType objectType) = objectType := by
  have hprefix : "class_".toList.isPrefixOf (tableNameForObjectType objectType).toList := by
    rw [tableNameForObjectType, String.toList_append, List.isPrefixOf_iff_prefix]
    exact List.prefix_append _ _
  have hdrop : (tableNameForObjectType objectType).toList.drop 6 = objectType.toList := by
    rw [tableNameForObjectType, String.toList_append]
    exact List.drop_left' rfl
  rw [objectTypeForTableName, if_pos hprefix, hdrop, String.ofList_toList]

theorem tableName_of_objectType {n : String} (h : objectTypeForTableName n ≠ "") :
    tableNameForObjectType (objectTypeForTableName n) = n := by
  unfold objectTypeForTableName at h ⊢
  split at h
  · next hprefix =>
    rw [if_pos hprefix]
    obtain ⟨rest, hrest⟩ := List.isPrefixOf_iff_prefix.1 hprefix
    have hdrop : n.toList.drop 6 = rest := by
      rw [← hrest]
      exact List.drop_left' rfl
    rw [tableNameForObjectType, hdrop, ← String.toList_inj, ← hrest, String.toList_append]
    simp
  · exact absurd rfl h

/-! ## Reading a schema -/

section Reading

variable [Core G V]

def tableForObjectType (g : G) (objectType : String) : Option (Table V) :=
  (Core.view g).table (tableNameForObjectType objectType)

/-- `get_primary_key_for_object`; the empty string is "no primary key". -/
def getPrimaryKeyForObject (g : G) (objectType : String) : String :=
  ((Core.view g).pk.view objectType).elim "" Prod.snd

def notVersioned : Nat := 2 ^ 64 - 1

def getSchemaVersion (g : G) : Nat := (Core.view g).version.getD notVersioned

end Reading

def arrayColumnName : String := "!ARRAY_VALUE"

def baseOfDataType : DataType → BaseType
  | .int => .int
  | .float => .float
  | .double => .double
  | .bool => .bool
  | .string => .string
  | .binary => .data
  | .timestamp => .date
  | .mixed => .any

/-- `from_core_type`; a subtable is only read when it has a column. -/
def fromCoreType : ColumnType → Option PropertyType
  | .value type nullable => some ⟨baseOfDataType type, nullable, false⟩
  | .link _ => some ⟨.object, true, false⟩
  | .linkList _ => some ⟨.object, false, true⟩
  | .table [] => none
  | .table (c :: _) => some ⟨baseOfDataType c.type, c.nullable, true⟩

def ColumnType.isProperty : ColumnType → Bool
  | .table subdescriptor =>
    match subdescriptor with
    | [c] => c.name = arrayColumnName
    | _ => false
  | _ => true

def ColumnType.objectType : ColumnType → String
  | .link target | .linkList target => objectTypeForTableName target
  | _ => ""

def propertyForColumnIndex (column : Column V) (columnIndex : Nat) : Option Property :=
  if column.type.isProperty then
    (fromCoreType column.type).map fun type =>
      { name := column.name
        type := type
        objectType := column.type.objectType
        isIndexed := column.searchIndex
        tableColumn := columnIndex }
  else none

/-- `set_primary_key_property`: the first property with the name becomes the primary key. -/
def setPrimaryKeyProperty (primaryKey : String) : List Property → List Property
  | [] => []
  | p :: ps =>
    if primaryKey ≠ "" ∧ p.name = primaryKey then { p with isPrimary := true } :: ps
    else p :: setPrimaryKeyProperty primaryKey ps

/-- The constructor of `ObjectSchema` from the columns of a table. -/
def objectSchemaOf (objectType : String) (table : Table V) (primaryKey : String) :
    ObjectSchema where
  name := objectType
  persistedProperties := setPrimaryKeyProperty primaryKey
    (table.columns.zipIdx.filterMap fun c => propertyForColumnIndex c.1 c.2)
  primaryKey := primaryKey

def schemaFromGroup [Core G V] (g : G) : Schema :=
  .ofTypes <| (Core.tableNames g).filterMap fun n =>
    let objectType := objectTypeForTableName n
    if objectType = "" then none
    else (tableForObjectType g objectType).map fun table =>
      objectSchemaOf objectType table (getPrimaryKeyForObject g objectType)

theorem schemaFromGroup_distinct [Core G V] [LawfulCore G] (g : G) :
    (schemaFromGroup g).Distinct := by
  rw [schemaFromGroup, Schema.distinct_ofTypes, List.map_filterMap]
  refine (LawfulCore.tableNames_nodup g).filterMap ?_
  intro n n' o ho ho'
  have hname : ∀ n, o ∈ Option.map ObjectSchema.name
      (let objectType := objectTypeForTableName n
       if objectType = "" then none
       else (tableForObjectType g objectType).map fun table =>
        objectSchemaOf objectType table (getPrimaryKeyForObject g objectType)) →
      tableNameForObjectType o = n := by
    intro n h
    simp only [Option.mem_def, Option.map_eq_some_iff] at h
    obtain ⟨schema, h, hn⟩ := h
    split at h
    · cases h
    · next hne =>
      obtain ⟨table, -, rfl⟩ := Option.map_eq_some_iff.1 h
      rw [← hn]
      exact tableName_of_objectType hne
  rw [← hname n ho, ← hname n' ho']

/-- **The schema of a group**: the classes with a name whose table exists. -/
theorem find_schemaFromGroup [Core G V] [LawfulCore G] (g : G) {objectType : String}
    (h : objectType ≠ "") :
    (schemaFromGroup g).find objectType = (tableForObjectType g objectType).map fun table =>
      objectSchemaOf objectType table (getPrimaryKeyForObject g objectType) := by
  cases htable : tableForObjectType g objectType with
  | some table =>
    rw [Option.map_some, (schemaFromGroup_distinct g).find_eq_some_iff, schemaFromGroup,
      Schema.mem_ofTypes, List.mem_filterMap]
    refine ⟨⟨tableNameForObjectType objectType, ?_, ?_⟩, rfl⟩
    · rw [LawfulCore.mem_tableNames]
      exact Option.isSome_iff_exists.2 ⟨table, htable⟩
    · simp [h, htable]
  | none =>
    rw [Option.map_none, Schema.find_eq_none]
    intro o ho
    rw [schemaFromGroup, Schema.mem_ofTypes, List.mem_filterMap] at ho
    obtain ⟨n, -, hn⟩ := ho
    dsimp only at hn
    split at hn
    · cases hn
    · obtain ⟨table, ht, rfl⟩ := Option.map_eq_some_iff.1 hn
      intro hname
      have hn : objectTypeForTableName n = objectType := hname
      rw [← hn, ht] at htable
      cases htable

end OverwatchTeams.ObjectStore
