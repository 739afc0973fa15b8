import OverwatchTeams.ObjectStore.Group

/-!
# Applying changes to a group

The functions of the object store that change tables, and the visitor that
carries out one change (`applyChange`). What they do is read class by class
(`classView`): every call touches the table and the primary key of one class. A
column that is replaced is inserted in front of the old one, which then goes, so
that the other columns keep their positions; when only nullability changes its values
are copied over one by one (`copyPropertyValue_loop`).
-/

namespace OverwatchTeams.ObjectStore

variable {G V : Type} [Core G V]

/-! ## Tables and columns -/

def editTable (g : G) (objectType : String) (e : Edit V) : G :=
  Core.edit g (tableNameForObjectType objectType) e

def toCoreType : BaseType → Option DataType
  | .int => some .int
  | .bool => some .bool
  | .float => some .float
  | .double => some .double
  | .string => some .string
  | .date => some .timestamp
  | .data => some .binary
  | .object | .linkingObjects | .any => none

def insertColumn (g : G) (objectType : String) (property : Property) (colNdx : Nat) :
    Except SchemaException G :=
  if property.type.base = .linkingObjects then .error .assertion
  else if property.type.base = .object then
    let targetName := tableNameForObjectType property.objectType
    if (tableForObjectType g property.objectType).isSome then
      .ok (editTable g objectType (.insertColumn colNdx property.name
        (if property.type.array then .linkList targetName else .link targetName)))
    else .error .assertion
  else
    match toCoreType property.type.base with
    | none => .error .assertion
    | some type =>
      if property.type.array then
        .ok (editTable g objectType (.insertColumn colNdx property.name
          (.table [⟨arrayColumnName, type, property.type.nullable⟩])))
      else
        let g := editTable g objectType (.insertColumn colNdx property.name
          (.value type property.type.nullable))
        .ok (if property.requiresIndex then editTable g objectType (.addSearchIndex colNdx) else g)

def getColumnCount (g : G) (objectType : String) : Nat :=
  (tableForObjectType g objectType).elim 0 fun t => t.columns.length

def addColumn (g : G) (objectType : String) (property : Property) : Except SchemaException G :=
  insertColumn g objectType property (getColumnCount g objectType)

def replaceColumn (g : G) (objectType : String) (oldProperty newProperty : Property) :
    Except SchemaException G := do
  let g ← insertColumn g objectType newProperty oldProperty.tableColumn
  return editTable g objectType (.removeColumn (oldProperty.tableColumn + 1))

/-- `set_primary_key_for_object` in a file that has no history of `sync`. -/
def setPrimaryKeyForObject (g : G) (objectType primaryKey : String) : G :=
  Core.setPk g <|
    if primaryKey = "" then (Core.view g).pk.erase objectType
    else (Core.view g).pk.upsert (objectType, primaryKey)

def createTable (g : G) (objectSchema : ObjectSchema) : Except SchemaException G :=
  let name := tableNameForObjectType objectSchema.name
  if Core.enableSync G then
    match objectSchema.primaryKeyProperty with
    | some pk =>
      match toCoreType pk.type.base with
      | some type => .ok (Core.createTableWithPrimaryKey g name type pk.name pk.type.nullable)
      | none => .error .assertion
    | none => .ok (Core.getOrAddTable g name)
  else
    .ok (setPrimaryKeyForObject (Core.getOrAddTable g name) objectSchema.name
      objectSchema.primaryKey)

/-- The properties `add_initial_columns` adds: with `sync` the primary key is there already. -/
def initialProperties (sync : Bool) (objectSchema : ObjectSchema) : List Property :=
  objectSchema.persistedProperties.filter fun p => !(sync && p.isPrimary)

def addInitialColumns (g : G) (objectSchema : ObjectSchema) : Except SchemaException G :=
  if (tableForObjectType g objectSchema.name).isSome then
    (initialProperties (Core.enableSync G) objectSchema).foldlM
      (fun g p => addColumn g objectSchema.name p) g
  else .error .assertion

/-- A getter of core, which reads columns of values only. -/
def Table.get (t : Table V) (column row : Nat) : Option V :=
  match t.columns[column]? with
  | some c =>
    match c.type with
    | .value _ _ => some (c.cells row)
    | _ => none
  | none => none

/-- One round of the loop in `copy_property_values`. -/
def copyPropertyValue (objectType : String) (column : Nat) (g : G) (row : Nat) :
    Except SchemaException G :=
  match (tableForObjectType g objectType).bind fun t => t.get (column + 1) row with
  | some value => .ok (editTable g objectType (.setCell column row value))
  | none => .error .assertion

def copyPropertyValues (g : G) (objectType : String) (prop : Property) :
    Except SchemaException G :=
  match prop.type.base with
  | .int | .bool | .float | .double | .string | .data | .date =>
    (List.range ((tableForObjectType g objectType).elim 0 Table.size)).foldlM
      (copyPropertyValue objectType prop.tableColumn) g
  | .object | .linkingObjects | .any => .ok g

def Property.withNullable (p : Property) (nullable : Bool) : Property :=
  { p with type := { p.type with nullable := nullable } }

def makePropertyOptional (g : G) (objectType : String) (property : Property) :
    Except SchemaException G := do
  let property := property.withNullable true
  let g ← insertColumn g objectType property property.tableColumn
  let g ← copyPropertyValues g objectType property
  return editTable g objectType (.removeColumn (property.tableColumn + 1))

def makePropertyRequired (g : G) (objectType : String) (property : Property) :
    Except SchemaException G := do
  let property := property.withNullable false
  let g ← insertColumn g objectType property property.tableColumn
  return editTable g objectType (.removeColumn (property.tableColumn + 1))

/-- `TableHelper`: the table of the class has to exist. -/
def withTable (g : G) (objectSchema : ObjectSchema) (change : Except SchemaException G) :
    Except SchemaException G :=
  if (tableForObjectType g objectSchema.name).isSome then change else .error .assertion

/-- The `Applier` of `create_initial_tables`, which carries out every kind of change. -/
def applyChange (g : G) : SchemaChange → Except SchemaException G
  | .addTable object => createTable g object
  | .removeTable _ => .ok g
  | .addInitialProperties object => addInitialColumns g object
  | .addProperty object p => withTable g object (addColumn g object.name p)
  | .removeProperty object p =>
    withTable g object (.ok (editTable g object.name (.removeColumn p.tableColumn)))
  | .makePropertyNullable object p => withTable g object (makePropertyOptional g object.name p)
  | .makePropertyRequired object p => withTable g object (makePropertyRequired g object.name p)
  | .changePrimaryKey object p =>
    .ok (setPrimaryKeyForObject g object.name (p.elim "" Property.name))
  | .addIndex object p =>
    withTable g object (.ok (editTable g object.name (.addSearchIndex p.tableColumn)))
  | .removeIndex object p =>
    withTable g object (.ok (editTable g object.name (.removeSearchIndex p.tableColumn)))
  | .changePropertyType object old new => withTable g object (replaceColumn g object.name old new)

/-! ## Class by class -/

/-- What a group holds for one class. -/
structure ClassState (V : Type) where
  table : Option (Table V)
  primaryKey : String

def classView (g : G) (objectType : String) : ClassState V :=
  ⟨tableForObjectType g objectType, getPrimaryKeyForObject g objectType⟩

def ClassState.mapTable (s : ClassState V) (f : Table V → Table V) : ClassState V :=
  { s with table := s.table.map f }

def ClassState.mapColumns (s : ClassState V) (f : List (Column V) → List (Column V)) :
    ClassState V :=
  s.mapTable fun t => { t with columns := f t.columns }

section Laws

variable [LawfulCore G]

theorem classView_editTable (g : G) (objectType : String) (e : Edit V) :
    classView (editTable g objectType e) =
      Function.update (classView g) objectType
        ((classView g objectType).mapTable fun t => t.edit (Core.defaultValue G) e) := by
  funext n
  rw [Function.update_apply]
  unfold classView tableForObjectType getPrimaryKeyForObject editTable
  rw [LawfulCore.view_edit]
  simp only [Function.update_apply, tableNameForObjectType_injective.eq_iff]
  split
  · next h => subst h; rfl
  · rfl

theorem classView_getOrAddTable (g : G) (objectType : String) :
    classView (Core.getOrAddTable g (tableNameForObjectType objectType)) =
      Function.update (classView g) objectType
        { classView g objectType with
          table := some ((classView g objectType).table.getD ⟨0, []⟩) } := by
  funext n
  rw [Function.update_apply]
  unfold classView tableForObjectType getPrimaryKeyForObject
  rw [LawfulCore.view_getOrAddTable]
  simp only [Function.update_apply, tableNameForObjectType_injective.eq_iff]
  split
  · next h => subst h; rfl
  · rfl

theorem classView_createTableWithPrimaryKey (g : G) (objectType : String) (type : DataType)
    (key : String) (nullable : Bool) :
    classView (Core.createTableWithPrimaryKey g (tableNameForObjectType objectType) type key
        nullable) =
      Function.update (classView g) objectType
        (if (classView g objectType).table.isSome then classView g objectType
         else ⟨some ⟨0, [⟨key, .value type nullable, true, fun _ =>
          Core.defaultValue G (.value type nullable)⟩]⟩, key⟩) := by
  funext n
  rw [Function.update_apply]
  unfold classView tableForObjectType getPrimaryKeyForObject
  rw [LawfulCore.view_createTableWithPrimaryKey]
  by_cases hsome : ((Core.view g).table (tableNameForObjectType objectType)).isSome
  · rw [if_pos hsome, if_pos hsome]
    split
    · next h => rw [h]
    · rfl
  · rw [if_neg hsome, if_neg hsome]
    simp only [Function.update_apply, tableNameForObjectType_injective.eq_iff,
      Keyed.Table.view_upsert, objectTypeForTableName_tableName]
    split
    · rfl
    · rfl

theorem classView_setPrimaryKeyForObject (g : G) (objectType primaryKey : String) :
    classView (setPrimaryKeyForObject g objectType primaryKey) =
      Function.update (classView g) objectType
        { classView g objectType with primaryKey := primaryKey } := by
  funext n
  rw [Function.update_apply]
  unfold classView tableForObjectType getPrimaryKeyForObject setPrimaryKeyForObject
  rw [LawfulCore.view_setPk]
  by_cases hkey : primaryKey = ""
  · simp only [if_pos hkey, Keyed.Table.view_erase, Function.update_apply]
    split
    · next h => subst h hkey; rfl
    · rfl
  · simp only [if_neg hkey, Keyed.Table.view_upsert, Function.update_apply]
    split
    · next h => subst h; rfl
    · rfl

@[simp] theorem version_editTable (g : G) (objectType : String) (e : Edit V) :
    (Core.view (editTable g objectType e)).version = (Core.view g).version := by
  rw [editTable, LawfulCore.view_edit]

@[simp] theorem version_setPrimaryKeyForObject (g : G) (objectType primaryKey : String) :
    (Core.view (setPrimaryKeyForObject g objectType primaryKey)).version =
      (Core.view g).version := by
  rw [setPrimaryKeyForObject, LawfulCore.view_setPk]

@[simp] theorem version_getOrAddTable (g : G) (n : String) :
    (Core.view (Core.getOrAddTable g n)).version = (Core.view g).version := by
  rw [LawfulCore.view_getOrAddTable]

@[simp] theorem version_createTableWithPrimaryKey (g : G) (n : String) (type : DataType)
    (key : String) (nullable : Bool) :
    (Core.view (Core.createTableWithPrimaryKey g n type key nullable)).version =
      (Core.view g).version := by
  rw [LawfulCore.view_createTableWithPrimaryKey]
  split <;> rfl

end Laws

/-! ## New columns -/

def Property.columnType (p : Property) : Option ColumnType :=
  match p.type.base with
  | .linkingObjects => none
  | .object =>
    some (if p.type.array then .linkList (tableNameForObjectType p.objectType)
      else .link (tableNameForObjectType p.objectType))
  | base => (toCoreType base).map fun type =>
      if p.type.array then .table [⟨arrayColumnName, type, p.type.nullable⟩]
      else .value type p.type.nullable

def Property.createsIndex (p : Property) : Bool :=
  p.requiresIndex && p.type.base ≠ .object && !p.type.array

def Property.column (defaultValue : ColumnType → V) (p : Property) (type : ColumnType) : Column V :=
  ⟨p.name, type, p.createsIndex, fun _ => defaultValue type⟩

def Property.newColumn (defaultValue : ColumnType → V) (p : Property) : Column V :=
  p.column defaultValue (p.columnType.getD (.table []))

def Property.Insertable (L : String → Prop) (p : Property) : Prop :=
  p.columnType.isSome ∧ (p.type.base = .object → L p.objectType)

theorem Property.columnType_object {p : Property} (h : p.type.base = .object) :
    p.columnType = some (if p.type.array then .linkList (tableNameForObjectType p.objectType)
      else .link (tableNameForObjectType p.objectType)) := by
  simp only [columnType, h]

theorem Property.columnType_value {p : Property} {type : DataType}
    (h : toCoreType p.type.base = some type) :
    p.columnType = some (if p.type.array then .table [⟨arrayColumnName, type, p.type.nullable⟩]
      else .value type p.type.nullable) := by
  unfold columnType
  cases hbase : p.type.base <;> rw [hbase] at h <;> cases h <;> rfl

theorem Property.columnType_isSome {p : Property} (h : p.columnType.isSome) :
    p.type.base = .object ∨ ∃ type, toCoreType p.type.base = some type := by
  unfold columnType at h
  cases hbase : p.type.base <;> rw [hbase] at h <;> first
    | exact .inl rfl
    | exact .inr ⟨_, rfl⟩
    | cases h

section Insert

variable [LawfulCore G] {g : G} {objectType : String}

/-- **A column that can be created is inserted**, and nothing else changes. -/
theorem insertColumn_ok {p : Property} {i : Nat} {t : Table V} {L : String → Prop}
    (hp : p.Insertable L) (hL : ∀ o, L o → (tableForObjectType g o).isSome)
    (ht : tableForObjectType g objectType = some t) (hi : i ≤ t.columns.length) :
    ∃ g', insertColumn g objectType p i = .ok g' ∧
      (Core.view g').version = (Core.view g).version ∧
      classView g' = Function.update (classView g) objectType
        ((classView g objectType).mapColumns fun cs =>
          cs.insertIdx i (p.newColumn (Core.defaultValue G))) := by
  obtain ⟨hsome, hlink⟩ := hp
  have htable : (classView g objectType).table = some t := ht
  unfold insertColumn Property.newColumn Property.column Property.createsIndex
  rcases Property.columnType_isSome hsome with hobject | ⟨type, htype⟩
  · have hexists := hL _ (hlink hobject)
    have hlinking : p.type.base ≠ .linkingObjects := by rw [hobject]; simp
    rw [if_neg hlinking, if_pos hobject, if_pos hexists, Property.columnType_object hobject]
    refine ⟨_, rfl, version_editTable .., ?_⟩
    rw [classView_editTable]
    simp [ClassState.mapColumns, ClassState.mapTable, htable, Table.edit, hobject]
  · have hlinking : p.type.base ≠ .linkingObjects := by
      intro h
      rw [h] at htype
      cases htype
    have hobject : p.type.base ≠ .object := by
      intro h
      rw [h] at htype
      cases htype
    rw [if_neg hlinking, if_neg hobject, Property.columnType_value htype, htype]
    by_cases harray : p.type.array
    · simp only [harray, if_true]
      refine ⟨_, rfl, version_editTable .., ?_⟩
      rw [classView_editTable]
      simp [ClassState.mapColumns, ClassState.mapTable, htable, Table.edit]
    · by_cases hindex : p.requiresIndex
      · simp only [harray, hindex, if_true]
        refine ⟨_, rfl, by simp, ?_⟩
        rw [classView_editTable, classView_editTable, Function.update_idem, Function.update_self]
        simp only [ClassState.mapColumns, ClassState.mapTable, htable, Table.edit, Option.map_some]
        rw [ListEdits.modify_insertIdx hi]
        simp [hobject]
      · simp only [harray, hindex, Bool.false_eq_true, if_false]
        refine ⟨_, rfl, by simp, ?_⟩
        rw [classView_editTable]
        simp [ClassState.mapColumns, ClassState.mapTable, htable, Table.edit]

/-! ### Copying values -/

def copyCells (n : Nat) (source target : Nat → V) : Nat → V :=
  fun row => if row < n then source row else target row

theorem copyCells_succ (n : Nat) (source target : Nat → V) :
    Function.update (copyCells n source target) n (source n) =
      copyCells (n + 1) source target := by
  funext row
  rw [Function.update_apply]
  unfold copyCells
  rcases Nat.lt_trichotomy row n with h | h | h
  · rw [if_neg (by omega), if_pos h, if_pos (by omega)]
  · rw [if_pos h, if_pos (by omega), h]
  · rw [if_neg (by omega), if_neg (by omega), if_neg (by omega)]

theorem copyCells_zero (source target : Nat → V) : copyCells 0 source target = target := by
  funext row
  rw [copyCells, if_neg (by omega)]

/-- After `n` rounds of the loop the first `n` cells are those of the next column. -/
theorem copyPropertyValue_loop {i : Nat} {t : Table V} {old : Column V} {type : DataType}
    {nullable : Bool} (ht : tableForObjectType g objectType = some t)
    (hold : t.columns[i + 1]? = some old) (hvalue : old.type = .value type nullable) (n : Nat) :
    ∃ g', (List.range n).foldlM (copyPropertyValue objectType i) g = .ok g' ∧
      (Core.view g').version = (Core.view g).version ∧
      classView g' = Function.update (classView g) objectType
        ((classView g objectType).mapColumns fun cs =>
          cs.modify i fun c => { c with cells := copyCells n old.cells c.cells }) := by
  have htable : (classView g objectType).table = some t := ht
  induction n with
  | zero =>
    refine ⟨g, rfl, rfl, ?_⟩
    have hid : (fun c : Column V => { c with cells := copyCells 0 old.cells c.cells }) = id := by
      funext c
      rw [copyCells_zero]
      rfl
    rw [hid]
    have hsame : (classView g objectType).mapColumns (fun cs => cs.modify i id) =
        classView g objectType := by
      simp only [ClassState.mapColumns, ClassState.mapTable, htable, List.modify_id,
        Option.map_some]
      rw [← htable]
    rw [hsame, Function.update_eq_self]
  | succ n ih =>
    obtain ⟨g', hrun, hversion, hview⟩ := ih
    have ht' : tableForObjectType g' objectType = some { t with
        columns := t.columns.modify i fun c =>
          { c with cells := copyCells n old.cells c.cells } } := by
      have hself := congrFun hview objectType
      rw [Function.update_self] at hself
      have hmap := congrArg ClassState.table hself
      simpa [ClassState.mapColumns, ClassState.mapTable, ht, classView] using hmap
    have hget : Table.get { t with columns := t.columns.modify i fun c =>
        { c with cells := copyCells n old.cells c.cells } } (i + 1) n = some (old.cells n) := by
      unfold Table.get
      dsimp only
      rw [List.getElem?_modify_ne _ _ (Nat.ne_of_lt (Nat.lt_succ_self i)), hold]
      simp only [hvalue]
    have hround : copyPropertyValue objectType i g' n =
        .ok (editTable g' objectType (.setCell i n (old.cells n))) := by
      simp only [copyPropertyValue, ht', Option.bind_some, hget]
    refine ⟨editTable g' objectType (.setCell i n (old.cells n)), ?_, ?_, ?_⟩
    · rw [List.range_succ, List.foldlM_append, hrun]
      show List.foldlM (copyPropertyValue objectType i) g' [n] = _
      rw [List.foldlM_cons, hround]
      rfl
    · rw [version_editTable, hversion]
    · rw [classView_editTable, hview, Function.update_idem, Function.update_self]
      simp only [ClassState.mapColumns, ClassState.mapTable, htable, Table.edit, Option.map_some,
        List.modify_modify_eq]
      congr
      funext c
      simp only [Function.comp_apply, copyCells_succ]

theorem copyPropertyValues_ok {p : Property} {t : Table V} {old : Column V} {type type' : DataType}
    {nullable : Bool} (ht : tableForObjectType g objectType = some t)
    (hold : t.columns[p.tableColumn + 1]? = some old) (hvalue : old.type = .value type nullable)
    (hp : toCoreType p.type.base = some type') :
    ∃ g', copyPropertyValues g objectType p = .ok g' ∧
      (Core.view g').version = (Core.view g).version ∧
      classView g' = Function.update (classView g) objectType
        ((classView g objectType).mapColumns fun cs =>
          cs.modify p.tableColumn fun c =>
            { c with cells := copyCells t.size old.cells c.cells }) := by
  have hloop := copyPropertyValue_loop ht hold hvalue t.size
  have heq : copyPropertyValues g objectType p =
      (List.range t.size).foldlM (copyPropertyValue objectType p.tableColumn) g := by
    unfold copyPropertyValues
    rw [ht]
    cases hbase : p.type.base <;> rw [hbase] at hp <;> first
      | rfl
      | cases hp
  rwa [heq]

end Insert

end OverwatchTeams.ObjectStore
