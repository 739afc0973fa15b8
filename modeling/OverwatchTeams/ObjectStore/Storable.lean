import OverwatchTeams.ObjectStore.Effects

/-!
# Tables that hold a class

A table holds a class of the program when its columns are those of the persisted
properties, with their types, and the primary key is the one of the class
(`Table.Holds`); its indexes are a matter of their own (`Table.Indexed`). The schema
that is read from such a table is the class again: `compare` finds nothing
(`tableChanges_eq_nil_of_holds`).

What a class has to be for this is `ObjectSchema.Storable`: the names of its
properties differ and each property has a column type. A property is read back from
its column as it was (`fromCoreType_columnType`).
-/

namespace OverwatchTeams.ObjectStore

variable {G V : Type} [Core G V]

/-! ## Properties and columns -/

structure Property.Storable (L : String → Prop) (p : Property) : Prop where
  name_ne : p.name ≠ ""
  base : p.type.base ≠ .linkingObjects ∧ p.type.base ≠ .any
  link : p.type.base = .object → L p.objectType ∧ p.type.nullable = !p.type.array
  objectType : p.type.base ≠ .object → p.objectType = ""
  index : p.requiresIndex = true → p.typeIsIndexable = true ∧ p.type.array = false

theorem Property.Storable.toCoreType {L : String → Prop} {p : Property} (h : p.Storable L)
    (hobject : p.type.base ≠ .object) : (toCoreType p.type.base).isSome := by
  cases hbase : p.type.base <;> first
    | rfl
    | exact absurd hbase hobject
    | exact absurd hbase h.base.1
    | exact absurd hbase h.base.2

theorem Property.Storable.insertable {L : String → Prop} {p : Property} (h : p.Storable L) :
    p.Insertable L := by
  by_cases hobject : p.type.base = .object
  · exact ⟨by rw [columnType_object hobject]; rfl, fun _ => (h.link hobject).1⟩
  · obtain ⟨type, htype⟩ := Option.isSome_iff_exists.1 (h.toCoreType hobject)
    exact insertable_value htype

theorem Property.Storable.createsIndex {L : String → Prop} {p : Property} (h : p.Storable L) :
    p.createsIndex = p.requiresIndex := by
  unfold Property.createsIndex
  cases hindex : p.requiresIndex with
  | false => rfl
  | true =>
    obtain ⟨hindexable, harray⟩ := h.index hindex
    have hobject : p.type.base ≠ .object := by
      intro hobject
      simp [typeIsIndexable, hobject] at hindexable
    simp [hobject, harray]

theorem baseOfDataType_toCoreType {base : BaseType} {type : DataType}
    (h : toCoreType base = some type) : baseOfDataType type = base := by
  cases base <;> cases h <;> rfl

/-- **A property is read back from its column.** -/
theorem fromCoreType_columnType {L : String → Prop} {p : Property} (h : p.Storable L)
    {type : ColumnType} (htype : p.columnType = some type) :
    type.isProperty = true ∧ fromCoreType type = some p.type ∧ type.objectType = p.objectType := by
  have hp : p.type = ⟨p.type.base, p.type.nullable, p.type.array⟩ := rfl
  by_cases hobject : p.type.base = .object
  · rw [Property.columnType_object hobject, Option.some.injEq] at htype
    have hnullable := (h.link hobject).2
    by_cases harray : p.type.array
    · rw [if_pos harray] at htype
      subst htype
      refine ⟨rfl, ?_, objectTypeForTableName_tableName _⟩
      rw [hp, hobject, hnullable, harray]
      rfl
    · have hfalse : p.type.array = false := by simpa using harray
      rw [if_neg harray] at htype
      subst htype
      refine ⟨rfl, ?_, objectTypeForTableName_tableName _⟩
      rw [hp, hobject, hnullable, hfalse]
      rfl
  · obtain ⟨core, hcore⟩ := Option.isSome_iff_exists.1 (h.toCoreType hobject)
    rw [Property.columnType_value hcore, Option.some.injEq] at htype
    by_cases harray : p.type.array
    · rw [if_pos harray] at htype
      subst htype
      refine ⟨by simp [ColumnType.isProperty], ?_, (h.objectType hobject).symm⟩
      simp only [fromCoreType, baseOfDataType_toCoreType hcore]
      rw [hp, harray]
    · have hfalse : p.type.array = false := by simpa using harray
      rw [if_neg harray] at htype
      subst htype
      refine ⟨rfl, ?_, (h.objectType hobject).symm⟩
      simp only [fromCoreType, baseOfDataType_toCoreType hcore]
      rw [hp, hfalse]

structure Column.Stores (c : Column V) (p : Property) : Prop where
  name : c.name = p.name
  isProperty : c.type.isProperty = true
  type : fromCoreType c.type = some p.type
  objectType : c.type.objectType = p.objectType

/-- A new column stores its property, and every property that differs from it in the index
only. -/
theorem newColumn_stores {L : String → Prop} {p q : Property} (h : q.Storable L)
    (hname : p.name = q.name) (htype : p.type = q.type) (hobject : p.objectType = q.objectType)
    (defaultValue : ColumnType → V) : (p.newColumn defaultValue).Stores q := by
  obtain ⟨type, hcolumn⟩ := Option.isSome_iff_exists.1 h.insertable.1
  obtain ⟨h1, h2, h3⟩ := fromCoreType_columnType h hcolumn
  have hsame : p.columnType = some type := by
    rw [← hcolumn]
    simp only [Property.columnType, htype, hobject]
  unfold Property.newColumn
  rw [hsame]
  exact ⟨hname, h1, h2, h3⟩

/-! ## Reading a table -/

def Table.properties (t : Table V) : List Property :=
  t.columns.zipIdx.filterMap fun c => propertyForColumnIndex c.1 c.2

/-- A property differs from what is read from a column in the mark of the primary key only. -/
structure Column.ReadsAs (c : Column V) (p : Property) : Prop extends c.Stores p where
  isIndexed : p.isIndexed = c.searchIndex

theorem propertyForColumnIndex_eq_some {c : Column V} {i : Nat} {p : Property}
    (h : propertyForColumnIndex c i = some p) :
    c.ReadsAs p ∧ p.tableColumn = i ∧ p.isPrimary = false := by
  unfold propertyForColumnIndex at h
  split at h
  · next hproperty =>
    obtain ⟨type, htype, rfl⟩ := Option.map_eq_some_iff.1 h
    exact ⟨⟨⟨rfl, hproperty, htype, rfl⟩, rfl⟩, rfl, rfl⟩
  · cases h

theorem propertyForColumnIndex_isSome {c : Column V} (h : c.type.isProperty = true) (i : Nat) :
    ∃ p, propertyForColumnIndex c i = some p := by
  unfold propertyForColumnIndex
  rw [if_pos h]
  cases htype : c.type with
  | table subdescriptor =>
    rw [htype] at h
    cases subdescriptor with
    | nil => simp [ColumnType.isProperty] at h
    | cons sub subs => exact ⟨_, rfl⟩
  | _ => exact ⟨_, rfl⟩

theorem mem_setPrimaryKeyProperty {primaryKey : String} {ps : List Property} {p : Property}
    (h : p ∈ setPrimaryKeyProperty primaryKey ps) :
    p ∈ ps ∨ ∃ q ∈ ps, p = { q with isPrimary := true } ∧ q.name = primaryKey := by
  induction ps with
  | nil => cases h
  | cons q qs ih =>
    unfold setPrimaryKeyProperty at h
    split at h
    · next hq =>
      rcases List.mem_cons.1 h with rfl | h
      · exact .inr ⟨q, List.mem_cons_self, rfl, hq.2⟩
      · exact .inl (List.mem_cons_of_mem _ h)
    · rcases List.mem_cons.1 h with rfl | h
      · exact .inl List.mem_cons_self
      · rcases ih h with h | ⟨q', hq', h⟩
        · exact .inl (List.mem_cons_of_mem _ h)
        · exact .inr ⟨q', List.mem_cons_of_mem _ hq', h⟩

theorem map_setPrimaryKeyProperty {β : Type} {f : Property → β}
    (hf : ∀ p : Property, f { p with isPrimary := true } = f p) (primaryKey : String)
    (ps : List Property) : (setPrimaryKeyProperty primaryKey ps).map f = ps.map f := by
  induction ps with
  | nil => rfl
  | cons p ps ih =>
    unfold setPrimaryKeyProperty
    split
    · rw [List.map_cons, List.map_cons, hf]
    · rw [List.map_cons, List.map_cons, ih]

/-- **The properties of a class that is read**: one for each column of a property, in its place. -/
theorem mem_objectSchemaOf {n primaryKey : String} {t : Table V} {p : Property}
    (h : p ∈ (objectSchemaOf n t primaryKey).persistedProperties) :
    ∃ c, t.columns[p.tableColumn]? = some c ∧ c.ReadsAs p ∧
      (p.isPrimary = true → p.name = primaryKey) := by
  have hread : ∀ q ∈ t.properties, ∃ c, t.columns[q.tableColumn]? = some c ∧ c.ReadsAs q ∧
      q.isPrimary = false := by
    intro q hq
    obtain ⟨⟨c, i⟩, hmem, hq⟩ := List.mem_filterMap.1 hq
    obtain ⟨hreads, rfl, hprimary⟩ := propertyForColumnIndex_eq_some hq
    exact ⟨c, List.mem_zipIdx_iff_getElem?.1 hmem, hreads, hprimary⟩
  rcases mem_setPrimaryKeyProperty h with h | ⟨q, hq, rfl, hname⟩
  · obtain ⟨c, hc, hreads, hprimary⟩ := hread p h
    refine ⟨c, hc, hreads, fun hp => ?_⟩
    rw [hprimary] at hp
    cases hp
  · obtain ⟨c, hc, hreads, -⟩ := hread q hq
    exact ⟨c, hc, ⟨⟨hreads.name, hreads.isProperty, hreads.type, hreads.objectType⟩,
      hreads.isIndexed⟩, fun _ => hname⟩

theorem exists_mem_objectSchemaOf (n primaryKey : String) {t : Table V} {c : Column V} {i : Nat}
    (hc : t.columns[i]? = some c) (h : c.type.isProperty = true) :
    ∃ p ∈ (objectSchemaOf n t primaryKey).persistedProperties,
      p.name = c.name ∧ p.tableColumn = i := by
  obtain ⟨q, hq⟩ := propertyForColumnIndex_isSome h i
  have hmem : q ∈ t.properties :=
    List.mem_filterMap.2 ⟨(c, i), List.mem_zipIdx_iff_getElem?.2 hc, hq⟩
  obtain ⟨hreads, hcolumn, -⟩ := propertyForColumnIndex_eq_some hq
  have hmap := map_setPrimaryKeyProperty (f := fun p => (p.name, p.tableColumn)) (fun _ => rfl)
    primaryKey t.properties
  have hin : (q.name, q.tableColumn) ∈
      (setPrimaryKeyProperty primaryKey t.properties).map fun p => (p.name, p.tableColumn) := by
    rw [hmap]
    exact List.mem_map.2 ⟨q, hmem, rfl⟩
  obtain ⟨p, hp, heq⟩ := List.mem_map.1 hin
  obtain ⟨h1, h2⟩ := Prod.mk.inj heq
  exact ⟨p, hp, h1.trans hreads.name.symm, h2.trans hcolumn⟩

theorem sorted_objectSchemaOf (n primaryKey : String) (t : Table V) :
    MergeJoin.Sorted Property.tableColumn
      (objectSchemaOf n t primaryKey).persistedProperties := by
  have hsorted : (t.properties.map Property.tableColumn).Pairwise (· < ·) := by
    have hidx : t.columns.zipIdx.Pairwise fun a b => a.2 < b.2 := by
      have := List.pairwise_lt_range' (s := 0) (n := t.columns.length)
      rw [← List.zipIdx_map_snd 0 t.columns] at this
      exact List.pairwise_map.1 this
    rw [List.pairwise_map]
    refine List.Pairwise.filterMap _ (fun a a' hlt b hb b' hb' => ?_) hidx
    obtain ⟨-, h1, -⟩ := propertyForColumnIndex_eq_some hb
    obtain ⟨-, h2, -⟩ := propertyForColumnIndex_eq_some hb'
    rw [h1, h2]
    exact hlt
  have hmap := map_setPrimaryKeyProperty (f := Property.tableColumn) (fun _ => rfl)
    primaryKey t.properties
  rw [← hmap] at hsorted
  exact List.pairwise_map.1 hsorted

/-! ## Classes -/

structure ObjectSchema.Storable (L : String → Prop) (o : ObjectSchema) : Prop where
  name_ne : o.name ≠ ""
  names : ((o.persistedProperties ++ o.computedProperties).map Property.name).Nodup
  properties : ∀ p ∈ o.persistedProperties, p.Storable L
  computed : ∀ p ∈ o.computedProperties, p.name ≠ ""
  primary : ∀ p ∈ o.persistedProperties, p.isPrimary = true ↔ p.name = o.primaryKey
  primaryKey : o.primaryKey ≠ "" → ∃ p ∈ o.persistedProperties, p.name = o.primaryKey

namespace ObjectSchema.Storable

variable {L : String → Prop} {o : ObjectSchema}

theorem persisted_names (h : o.Storable L) : (o.persistedProperties.map Property.name).Nodup := by
  have := h.names
  rw [List.map_append] at this
  exact this.of_append_left

theorem propertyForName (h : o.Storable L) {p : Property} (hp : p ∈ o.persistedProperties) :
    o.propertyForName p.name = some p := by
  unfold ObjectSchema.propertyForName
  rw [(Keyed.mem_iff_find? h.persisted_names).1 hp, Option.some_or]

theorem propertyIsComputed (h : o.Storable L) {p : Property} (hp : p ∈ o.persistedProperties) :
    o.propertyIsComputed p = false := by
  unfold ObjectSchema.propertyIsComputed
  rw [List.any_eq_false]
  intro q hq hsame
  have hname := Property.name_eq_of_same hsame
  have hdisjoint := h.names
  rw [List.map_append] at hdisjoint
  exact List.disjoint_of_nodup_append hdisjoint (List.mem_map.2 ⟨p, hp, rfl⟩)
    (List.mem_map.2 ⟨q, hq, hname⟩)

/-- A column belongs to the persisted property with its name, if there is one. -/
theorem stores_iff (h : o.Storable L) {current p : Property} :
    o.Stores current p ↔ p ∈ o.persistedProperties ∧ p.name = current.name := by
  constructor
  · rintro ⟨hfind, hcomputed⟩
    obtain ⟨hname, hmem | hmem⟩ := ObjectSchema.mem_of_propertyForName hfind
    · exact ⟨hmem, hname⟩
    · unfold ObjectSchema.propertyIsComputed at hcomputed
      rw [List.any_eq_false] at hcomputed
      exact absurd (by simp [Property.same]) (hcomputed p hmem)
  · rintro ⟨hmem, hname⟩
    refine ⟨?_, h.propertyIsComputed hmem⟩
    rw [← hname]
    exact h.propertyForName hmem

theorem primaryKeyProperty (h : o.Storable L) :
    o.primaryKeyProperty.elim "" Property.name = o.primaryKey := by
  unfold ObjectSchema.primaryKeyProperty
  cases hfind : o.propertyForName o.primaryKey with
  | some p => exact (ObjectSchema.mem_of_propertyForName hfind).1
  | none =>
    by_contra hne
    obtain ⟨p, hp, hname⟩ := h.primaryKey (Ne.symm hne)
    rw [← hname, h.propertyForName hp] at hfind
    cases hfind

theorem mem_of_primaryKeyProperty (h : o.Storable L) {p : Property}
    (hp : o.primaryKeyProperty = some p) : p ∈ o.persistedProperties ∧ p.name = o.primaryKey := by
  obtain ⟨hname, hmem⟩ := ObjectSchema.mem_of_propertyForName hp
  have hne : p.name ≠ "" := by
    rcases hmem with hmem | hmem
    · exact (h.properties p hmem).name_ne
    · exact h.computed p hmem
  obtain ⟨q, hq, hqname⟩ := h.primaryKey (hname ▸ hne)
  have hfind : o.primaryKeyProperty = some q := by
    rw [ObjectSchema.primaryKeyProperty, ← hqname]
    exact h.propertyForName hq
  rw [hp, Option.some.injEq] at hfind
  exact ⟨hfind ▸ hq, hname⟩

end ObjectSchema.Storable

/-! ## Tables that hold a class -/

/-- The columns of the table are those of the persisted properties of the class. -/
structure Table.Holds (t : Table V) (primaryKey : String) (o : ObjectSchema) : Prop where
  columns : ∀ c ∈ t.columns, c.type.isProperty = true → ∃ p ∈ o.persistedProperties, c.Stores p
  complete : ∀ p ∈ o.persistedProperties, ∃ c ∈ t.columns, c.Stores p
  primaryKey : primaryKey = o.primaryKey

/-- All columns are those of properties, under different names. -/
structure Table.Plain (t : Table V) : Prop where
  properties : ∀ c ∈ t.columns, c.type.isProperty = true
  names : (t.columns.map Column.name).Nodup

def Table.Indexed (t : Table V) (o : ObjectSchema) : Prop :=
  ∀ c ∈ t.columns, ∀ p ∈ o.persistedProperties, c.Stores p → c.searchIndex = p.requiresIndex

theorem Column.Stores.sameStorage {c : Column V} {p q : Property} (hp : c.Stores p)
    (hq : c.Stores q) : p.SameStorage q :=
  ⟨Option.some.inj (hp.type.symm.trans hq.type), hp.objectType.symm.trans hq.objectType⟩

/-- The schema of a table that holds a class is the class, up to indexes. -/
theorem sameTable_of_holds {L : String → Prop} {o : ObjectSchema} (ho : o.Storable L)
    {t : Table V} {primaryKey : String} (h : t.Holds primaryKey o) (n : String) :
    SameTable (objectSchemaOf n t primaryKey) o := by
  refine ⟨fun current hcurrent => ?_, h.primaryKey, fun p hp => ?_⟩
  · obtain ⟨c, hc, hreads, -⟩ := mem_objectSchemaOf hcurrent
    obtain ⟨p, hp, hstores⟩ := h.columns c (List.mem_of_getElem? hc) hreads.isProperty
    exact ⟨p, ho.stores_iff.2 ⟨hp, hstores.name.symm.trans hreads.name⟩,
      hreads.toStores.sameStorage hstores⟩
  · obtain ⟨c, hc, hstores⟩ := h.complete p hp
    obtain ⟨i, hi⟩ := List.getElem?_of_mem hc
    obtain ⟨q, hq, hname, -⟩ := exists_mem_objectSchemaOf n primaryKey hi hstores.isProperty
    exact ObjectSchema.propertyForName_isSome.2 ⟨q, hname.trans hstores.name, .inl hq⟩

theorem holds_of_sameTable {L : String → Prop} {o : ObjectSchema} (ho : o.Storable L)
    {t : Table V} {primaryKey n : String} (h : SameTable (objectSchemaOf n t primaryKey) o) :
    t.Holds primaryKey o := by
  have hcolumn : ∀ current ∈ (objectSchemaOf n t primaryKey).persistedProperties,
      ∀ c : Column V, c.ReadsAs current →
        ∃ p ∈ o.persistedProperties, p.name = current.name ∧ c.Stores p := by
    intro current hcurrent c hreads
    obtain ⟨p, hp, hstorage⟩ := h.columns current hcurrent
    obtain ⟨hmem, hname⟩ := ho.stores_iff.1 hp
    exact ⟨p, hmem, hname, hreads.name.trans hname.symm, hreads.isProperty,
      hreads.type.trans (congrArg some hstorage.1), hreads.objectType.trans hstorage.2⟩
  refine ⟨fun c hc hproperty => ?_, fun p hp => ?_, h.primaryKey⟩
  · obtain ⟨i, hi⟩ := List.getElem?_of_mem hc
    obtain ⟨current, hcurrent, -, rfl⟩ := exists_mem_objectSchemaOf n primaryKey hi hproperty
    obtain ⟨c', hc', hreads, -⟩ := mem_objectSchemaOf hcurrent
    rw [hi, Option.some.injEq] at hc'
    subst hc'
    obtain ⟨p, hp, -, hstores⟩ := hcolumn current hcurrent c hreads
    exact ⟨p, hp, hstores⟩
  · obtain ⟨current, hname, hmem | hmem⟩ := ObjectSchema.propertyForName_isSome.1 (h.complete p hp)
    · obtain ⟨c, hc, hreads, -⟩ := mem_objectSchemaOf hmem
      obtain ⟨q, hq, hqname, hstores⟩ := hcolumn current hmem c hreads
      have hqp : some q = some p := by
        rw [← ho.propertyForName hq, ← ho.propertyForName hp, hqname, hname]
      exact ⟨c, List.mem_of_getElem? hc, Option.some.inj hqp ▸ hstores⟩
    · cases hmem

theorem sameIndexes_of_indexed {L : String → Prop} {o : ObjectSchema} (ho : o.Storable L)
    {t : Table V} {primaryKey : String} (h : t.Holds primaryKey o) (hindexed : t.Indexed o)
    (n : String) : SameIndexes (objectSchemaOf n t primaryKey) o := by
  intro current hcurrent p hp
  obtain ⟨hmem, hname⟩ := ho.stores_iff.1 hp
  obtain ⟨c, hc, hreads, hprimary⟩ := mem_objectSchemaOf hcurrent
  have hcolumn := List.mem_of_getElem? hc
  obtain ⟨q, hq, hstores⟩ := h.columns c hcolumn hreads.isProperty
  have hpq : p = q := by
    have hq' : o.Stores current q := ho.stores_iff.2 ⟨hq, hstores.name.symm.trans hreads.name⟩
    exact hp.unique hq'
  subst hpq
  have hindex := hindexed c hcolumn p hmem hstores
  unfold Property.SameIndex
  split
  · next hrequires => rw [hreads.isIndexed, hindex, hrequires]
  · next hrequires =>
    have hnot : p.requiresIndex = false := by simpa using hrequires
    unfold Property.requiresIndex
    rw [hreads.isIndexed, hindex, hnot, Bool.or_false]
    by_contra hcurrentPrimary
    have hkey := hprimary (by simpa using hcurrentPrimary)
    have hp' : p.isPrimary = true := by
      rw [ho.primary p hmem, hname, hkey, h.primaryKey]
    simp [Property.requiresIndex, hp'] at hnot

/-- **A table that holds a class asks for no change.** -/
theorem tableChanges_eq_nil_of_holds {L : String → Prop} {o : ObjectSchema} (ho : o.Storable L)
    {t : Table V} {primaryKey : String} (h : t.Holds primaryKey o) (hindexed : t.Indexed o)
    (n : String) : tableChanges (objectSchemaOf n t primaryKey) o = [] :=
  tableChanges_eq_nil_iff.2 ⟨sameTable_of_holds ho h n, sameIndexes_of_indexed ho h hindexed n⟩

end OverwatchTeams.ObjectStore
