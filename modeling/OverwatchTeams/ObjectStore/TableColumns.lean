import Mathlib.Data.List.Induction
import OverwatchTeams.ObjectStore.SchemaChanges

/-!
# The columns of a Realm

The accessors of a Realm find the value of a property by the position of its column. The
schema of the program knows no positions. They are looked up in the file after a
write (`setSchemaColumns`), or copied from the schema that has been read when there
is nothing to write (`copyTableColumnsFrom`). Either way every property points to the
column that stores it, and nothing but positions has changed
(`positioned_setSchemaColumns`, `positioned_copyTableColumnsFrom`).
-/

namespace OverwatchTeams.ObjectStore

open Schema

variable {G V : Type} [Core G V]

/-! ## The source -/

/-- One round of the loop of `copy_table_columns_from`: the first property with the name. -/
def setTableColumn (name : String) (column : Nat) : List Property → List Property
  | [] => []
  | p :: ps =>
    if p.name = name then { p with tableColumn := column } :: ps
    else p :: setTableColumn name column ps

def copyTableColumns (object other : ObjectSchema) : ObjectSchema :=
  other.persistedProperties.foldl (fun o p =>
    if o.persistedProperties.any fun q => q.name = p.name then
      { o with persistedProperties := setTableColumn p.name p.tableColumn o.persistedProperties }
    else
      { o with computedProperties := setTableColumn p.name p.tableColumn o.computedProperties })
    object

theorem copyTableColumns_name (object other : ObjectSchema) :
    (copyTableColumns object other).name = object.name := by
  unfold copyTableColumns
  induction other.persistedProperties generalizing object with
  | nil => rfl
  | cons p ps ih =>
    rw [List.foldl_cons, ih]
    split <;> rfl

def Schema.copyTableColumnsFrom (s other : Schema) : Schema where
  classes := (MergeJoin.lefts (zipMatching s other)).map fun v =>
    v.2.elim v.1 (copyTableColumns v.1)
  sorted := by
    have hname : ∀ v : ObjectSchema × Option ObjectSchema,
        (v.2.elim v.1 (copyTableColumns v.1)).name = v.1.name := by
      rintro ⟨o, none | other⟩
      · rfl
      · exact copyTableColumns_name o other
    have hsorted := s.sorted
    rw [← MergeJoin.map_fst_lefts_walk ObjectSchema.name ObjectSchema.name s.classes other.classes,
      List.pairwise_map] at hsorted
    rw [List.pairwise_map]
    simpa only [hname, zipMatching] using hsorted

/-! ## Positions -/

def Property.forgetColumn (p : Property) : Property := { p with tableColumn := 0 }

def ObjectSchema.forgetColumns (o : ObjectSchema) : ObjectSchema :=
  { o with
    persistedProperties := o.persistedProperties.map Property.forgetColumn
    computedProperties := o.computedProperties.map Property.forgetColumn }

@[simp] theorem Property.forgetColumn_name (p : Property) : p.forgetColumn.name = p.name := rfl

@[simp] theorem ObjectSchema.forgetColumns_name (o : ObjectSchema) :
    o.forgetColumns.name = o.name := rfl

@[simp] theorem ObjectSchema.forgetColumns_primaryKey (o : ObjectSchema) :
    o.forgetColumns.primaryKey = o.primaryKey := rfl

/-- A class that differs in positions only has the same properties under the same names. -/
theorem ObjectSchema.exists_of_forgetColumns {o o' : ObjectSchema}
    (h : o.forgetColumns = o'.forgetColumns) {p : Property} (hp : p ∈ o'.persistedProperties) :
    ∃ q ∈ o.persistedProperties, o.propertyForName p.name = some q ∧ q.name = p.name := by
  have hnames : o.persistedProperties.map Property.name =
      o'.persistedProperties.map Property.name := by
    have hmap := congrArg (fun o => o.persistedProperties.map Property.name) h
    have hname : Property.name ∘ Property.forgetColumn = Property.name := rfl
    simpa only [ObjectSchema.forgetColumns, List.map_map, hname] using hmap
  have hmem : p.name ∈ o.persistedProperties.map Property.name := by
    rw [hnames]
    exact List.mem_map_of_mem hp
  obtain ⟨q, hq, hqname⟩ := List.mem_map.1 hmem
  have hsome : (o.persistedProperties.find? fun q => q.name = p.name).isSome := by
    rw [List.find?_isSome]
    exact ⟨q, hq, by simpa using hqname⟩
  obtain ⟨r, hr⟩ := Option.isSome_iff_exists.1 hsome
  refine ⟨r, List.mem_of_find?_eq_some hr, ?_, by simpa using List.find?_some hr⟩
  rw [ObjectSchema.propertyForName, hr, Option.some_or]

def ObjectSchema.PointsInto (o : ObjectSchema) (T : Table V) : Prop :=
  ∀ p ∈ o.persistedProperties, ∃ c, T.columns[p.tableColumn]? = some c ∧ c.Stores p

/-- The schema `s` is that of the program with the positions of the columns of `g`. -/
structure Schema.Positioned (program s : Schema) (g : G) : Prop where
  classes : s.classes.map ObjectSchema.forgetColumns =
    program.classes.map ObjectSchema.forgetColumns
  points : ∀ o ∈ s.classes, ∃ T, tableForObjectType g o.name = some T ∧ o.PointsInto T

theorem Column.Stores.withColumn {c : Column V} {p : Property} (h : c.Stores p) (i : Nat) :
    c.Stores { p with tableColumn := i } :=
  ⟨h.name, h.isProperty, h.type, h.objectType⟩

theorem ObjectSchema.Storable.eq_of_name {L : String → Prop} {o : ObjectSchema} (h : o.Storable L)
    {p q : Property} (hp : p ∈ o.persistedProperties) (hq : q ∈ o.persistedProperties)
    (hname : p.name = q.name) : p = q := by
  have hfind := h.propertyForName hp
  rw [hname, h.propertyForName hq] at hfind
  exact (Option.some.inj hfind).symm

theorem Table.Holds.stores {L : String → Prop} {o : ObjectSchema} {T : Table V}
    {primaryKey : String} (h : T.Holds primaryKey o) (ho : o.Storable L) {c : Column V}
    (hc : c ∈ T.columns) (hproperty : c.type.isProperty = true) {p : Property}
    (hp : p ∈ o.persistedProperties) (hname : c.name = p.name) : c.Stores p := by
  obtain ⟨q, hq, hstores⟩ := h.columns c hc hproperty
  obtain rfl := ho.eq_of_name hq hp (hstores.name.symm.trans hname)
  exact hstores

/-- Every property has a column, and no other column has its name. -/
def Table.StoresAll (T : Table V) (o : ObjectSchema) : Prop :=
  ∀ p ∈ o.persistedProperties, (∃ c ∈ T.columns, c.Stores p) ∧
    ∀ c ∈ T.columns, c.type.isProperty = true → c.name = p.name → c.Stores p

theorem Table.Holds.storesAll {L : String → Prop} {o : ObjectSchema} {T : Table V}
    {primaryKey : String} (h : T.Holds primaryKey o) (ho : o.Storable L) : T.StoresAll o :=
  fun p hp => ⟨h.complete p hp, fun _ hc hproperty hname =>
    h.stores ho hc hproperty hp hname⟩

theorem exists_of_map_forgetColumn {ps ps' : List Property}
    (h : ps.map Property.forgetColumn = ps'.map Property.forgetColumn) {p : Property}
    (hp : p ∈ ps) : ∃ q ∈ ps', q.forgetColumn = p.forgetColumn := by
  have hmem := List.mem_map_of_mem (f := Property.forgetColumn) hp
  rw [h] at hmem
  exact List.mem_map.1 hmem

theorem exists_of_map_forgetColumns {s s' : Schema}
    (h : s.classes.map ObjectSchema.forgetColumns = s'.classes.map ObjectSchema.forgetColumns)
    {o : ObjectSchema} (ho : o ∈ s.classes) :
    ∃ t ∈ s'.classes, t.forgetColumns = o.forgetColumns := by
  have hmem := List.mem_map_of_mem (f := ObjectSchema.forgetColumns) ho
  rw [h] at hmem
  exact List.mem_map.1 hmem

theorem Column.Stores.of_forgetColumn {c : Column V} {p q : Property} (h : c.Stores p)
    (heq : p.forgetColumn = q.forgetColumn) : c.Stores q := by
  have hp : c.Stores p.forgetColumn := h.withColumn 0
  rw [heq] at hp
  exact ⟨hp.name, hp.isProperty, hp.type, hp.objectType⟩

theorem Table.StoresAll.of_forgetColumns {T : Table V} {o t : ObjectSchema} (h : T.StoresAll t)
    (heq : t.forgetColumns = o.forgetColumns) : T.StoresAll o := by
  intro p hp
  obtain ⟨q, hq, hqp⟩ := exists_of_map_forgetColumn
    (congrArg ObjectSchema.persistedProperties heq.symm) hp
  have hname : q.name = p.name := by simpa using congrArg Property.name hqp
  obtain ⟨⟨c, hc, hstores⟩, hunique⟩ := h q hq
  exact ⟨⟨c, hc, hstores.of_forgetColumn hqp⟩, fun c hc hproperty hcname =>
    (hunique c hc hproperty (hcname.trans hname.symm)).of_forgetColumn hqp⟩

/-! ## Looking positions up -/

section Lookup

variable [LawfulCore G] {g g₀ : G} {program : Schema}

omit [LawfulCore G] in
theorem forgetColumns_setObjectColumns (g : G) (o : ObjectSchema) :
    (setObjectColumns g o).forgetColumns = o.forgetColumns := by
  unfold setObjectColumns ObjectSchema.forgetColumns
  split
  · rfl
  · simp only [List.map_map]
    rfl

omit [LawfulCore G] in
/-- **After a write.** The first column with the name of a property stores it. -/
theorem positioned_setSchemaColumns (hs : program.Storable) (h : Migrated g₀ g program)
    (hplain : Plain g) : program.Positioned (setSchemaColumns g program) g := by
  refine ⟨?_, fun o ho => ?_⟩
  · rw [setSchemaColumns, List.map_map]
    exact List.map_congr_left fun o _ => forgetColumns_setObjectColumns g o
  · obtain ⟨t, ht, rfl⟩ := List.mem_map.1 ho
    obtain ⟨T, hT, hholds, -⟩ := (h.classes t ht).table
    have htable : tableForObjectType g t.name = some T := congrArg ClassState.table hT
    refine ⟨T, (setObjectColumns_name g t).symm ▸ htable, ?_⟩
    unfold setObjectColumns
    rw [htable]
    intro p hp
    obtain ⟨q, hq, rfl⟩ := List.mem_map.1 hp
    obtain ⟨c, hc, hstores⟩ := hholds.complete q hq
    cases hfind : T.columns.findIdx? fun c => c.name = q.name with
    | none =>
      rw [List.findIdx?_eq_none_iff] at hfind
      have := hfind c hc
      simp [hstores.name] at this
    | some i =>
      obtain ⟨hi, hname, -⟩ := List.findIdx?_eq_some_iff_getElem.1 hfind
      have hmem := List.getElem_mem hi
      refine ⟨T.columns[i], List.getElem?_eq_getElem hi, Column.Stores.withColumn ?_ i⟩
      exact hholds.stores (hs.classes t ht) hmem ((hplain _ T htable).properties _ hmem) hq
        (by simpa using hname)

end Lookup

/-! ## Copying positions -/

def Property.copyColumn (ps : List Property) (q : Property) : Property :=
  ps.foldl (fun q p => if p.name = q.name then { q with tableColumn := p.tableColumn } else q) q

theorem map_setTableColumn {β : Type} {f : Property → β}
    (hf : ∀ (p : Property) i, f { p with tableColumn := i } = f p) (name : String) (column : Nat)
    (ps : List Property) : (setTableColumn name column ps).map f = ps.map f := by
  induction ps with
  | nil => rfl
  | cons p ps ih =>
    unfold setTableColumn
    split
    · rw [List.map_cons, List.map_cons, hf]
    · rw [List.map_cons, List.map_cons, ih]

/-- With different names the first property with a name is the only one. -/
theorem setTableColumn_eq_map {name : String} {column : Nat} {ps : List Property}
    (h : (ps.map Property.name).Nodup) :
    setTableColumn name column ps =
      ps.map fun q => if name = q.name then { q with tableColumn := column } else q := by
  induction ps with
  | nil => rfl
  | cons p ps ih =>
    obtain ⟨hnot, hnodup⟩ := List.nodup_cons.1 h
    unfold setTableColumn
    rw [List.map_cons]
    by_cases hp : p.name = name
    · rw [if_pos hp, if_pos hp.symm]
      congr 1
      refine (List.map_id ps).symm.trans (List.map_congr_left fun q hq => ?_)
      rw [if_neg]
      · rfl
      · intro hname
        exact hnot (List.mem_map.2 ⟨q, hq, hname.symm.trans hp.symm⟩)
    · rw [if_neg hp, if_neg (Ne.symm hp), ih hnodup]

theorem persistedProperties_copyTableColumns {object other : ObjectSchema}
    (h : (object.persistedProperties.map Property.name).Nodup) :
    (copyTableColumns object other).persistedProperties =
      object.persistedProperties.map (Property.copyColumn other.persistedProperties) := by
  unfold copyTableColumns
  induction other.persistedProperties generalizing object with
  | nil => exact (List.map_id _).symm
  | cons p ps ih =>
    have hround : ∀ o : ObjectSchema, (o.persistedProperties.map Property.name).Nodup →
        (if o.persistedProperties.any fun q => q.name = p.name then
          { o with
            persistedProperties := setTableColumn p.name p.tableColumn o.persistedProperties }
        else
          { o with computedProperties :=
              setTableColumn p.name p.tableColumn o.computedProperties }).persistedProperties =
        o.persistedProperties.map fun q =>
          if p.name = q.name then { q with tableColumn := p.tableColumn } else q := by
      intro o ho
      split
      · exact setTableColumn_eq_map ho
      · next hnone =>
        refine (List.map_id _).symm.trans (List.map_congr_left fun q hq => ?_)
        rw [Bool.not_eq_true, List.any_eq_false] at hnone
        have := hnone q hq
        rw [if_neg (by simpa [eq_comm] using this)]
        rfl
    rw [List.foldl_cons, ih]
    · rw [hround object h, List.map_map]
      rfl
    · rw [hround object h, List.map_map]
      refine (congrArg List.Nodup (List.map_congr_left fun q _ => ?_)).mpr h
      show (if p.name = q.name then { q with tableColumn := p.tableColumn } else q).name = q.name
      split <;> rfl

theorem copyColumn_cases (ps : List Property) (q : Property) :
    (∃ p ∈ ps, p.name = q.name ∧ q.copyColumn ps = { q with tableColumn := p.tableColumn }) ∨
      (∀ p ∈ ps, p.name ≠ q.name) ∧ q.copyColumn ps = q := by
  induction ps using List.reverseRecOn with
  | nil => exact .inr ⟨by simp, rfl⟩
  | append_singleton ps p ih =>
    have hlast : q.copyColumn (ps ++ [p]) = if p.name = (q.copyColumn ps).name then
        { q.copyColumn ps with tableColumn := p.tableColumn } else q.copyColumn ps := by
      rw [Property.copyColumn, List.foldl_append]
      rfl
    have hname : (q.copyColumn ps).name = q.name := by
      rcases ih with ⟨p', -, -, h⟩ | ⟨-, h⟩ <;> rw [h]
    rw [hlast, hname]
    by_cases hp : p.name = q.name
    · refine .inl ⟨p, by simp, hp, ?_⟩
      rw [if_pos hp]
      rcases ih with ⟨p', -, -, h⟩ | ⟨-, h⟩ <;> rw [h]
    · rw [if_neg hp]
      rcases ih with ⟨p', hp', hname', h⟩ | ⟨hnone, h⟩
      · exact .inl ⟨p', List.mem_append_left _ hp', hname', h⟩
      · refine .inr ⟨fun p' hp' => ?_, h⟩
        rcases List.mem_append.1 hp' with hp' | hp'
        · exact hnone p' hp'
        · obtain rfl := List.mem_singleton.1 hp'
          exact hp

theorem forgetColumns_copyTableColumns (object other : ObjectSchema) :
    (copyTableColumns object other).forgetColumns = object.forgetColumns := by
  unfold copyTableColumns
  induction other.persistedProperties generalizing object with
  | nil => rfl
  | cons p ps ih =>
    rw [List.foldl_cons, ih]
    split
    · simp only [ObjectSchema.forgetColumns, map_setTableColumn (f := Property.forgetColumn)
        (fun _ _ => rfl)]
    · simp only [ObjectSchema.forgetColumns, map_setTableColumn (f := Property.forgetColumn)
        (fun _ _ => rfl)]

section Copy

variable [LawfulCore G] {g g₀ : G} {program s : Schema}

omit [Core G V] [LawfulCore G] in
theorem names_of_forgetColumns (hs : program.Storable)
    (hclasses : s.classes.map ObjectSchema.forgetColumns =
      program.classes.map ObjectSchema.forgetColumns) :
    s.Distinct ∧ ∀ o ∈ s.classes,
      o.name ≠ "" ∧ (o.persistedProperties.map Property.name).Nodup := by
  constructor
  · have hnames := congrArg (List.map ObjectSchema.name) hclasses
    rw [List.map_map, List.map_map] at hnames
    unfold Schema.Distinct
    exact (congrArg List.Nodup hnames).mpr hs.distinct
  · intro o ho
    obtain ⟨t, ht, heq⟩ := exists_of_map_forgetColumns hclasses ho
    have hname : t.name = o.name := by simpa using congrArg ObjectSchema.name heq
    have hps := congrArg (fun o => o.persistedProperties.map Property.name) heq
    simp only [ObjectSchema.forgetColumns, List.map_map] at hps
    exact ⟨hname ▸ (hs.classes t ht).name_ne,
      (congrArg List.Nodup hps).mp (hs.classes t ht).persisted_names⟩

theorem pointsInto_copyTableColumns {o : ObjectSchema} {T : Table V} {n primaryKey : String}
    (hnodup : (o.persistedProperties.map Property.name).Nodup) (h : T.StoresAll o) :
    (copyTableColumns o (objectSchemaOf n T primaryKey)).PointsInto T := by
  intro p hp
  rw [persistedProperties_copyTableColumns hnodup] at hp
  obtain ⟨q, hq, rfl⟩ := List.mem_map.1 hp
  obtain ⟨⟨c, hc, hstores⟩, hunique⟩ := h q hq
  -- The file has a property with this name.
  obtain ⟨i, hi⟩ := List.getElem?_of_mem hc
  obtain ⟨p', hp', hname', -⟩ := exists_mem_objectSchemaOf n primaryKey hi hstores.isProperty
  rcases copyColumn_cases (objectSchemaOf n T primaryKey).persistedProperties q with
    ⟨p, hp, hname, heq⟩ | ⟨hnone, -⟩
  · obtain ⟨c', hc', hreads, -⟩ := mem_objectSchemaOf hp
    rw [heq]
    refine ⟨c', hc', Column.Stores.withColumn ?_ _⟩
    exact hunique c' (List.mem_of_getElem? hc') hreads.isProperty (hreads.name.trans hname)
  · exact absurd (hname'.trans hstores.name) (hnone p' hp')

/-- **Copying positions** from the schema that has been read, whatever they were before. -/
theorem positioned_copyTableColumnsFrom_of_storesAll (hs : program.Storable)
    (hclasses : s.classes.map ObjectSchema.forgetColumns =
      program.classes.map ObjectSchema.forgetColumns)
    (hstores : ∀ t ∈ program.classes, ∃ T, tableForObjectType g t.name = some T ∧
      T.StoresAll t) :
    program.Positioned (s.copyTableColumnsFrom (schemaFromGroup g)) g := by
  obtain ⟨hdistinct, hnames⟩ := names_of_forgetColumns hs hclasses
  have hwalk : MergeJoin.lefts (zipMatching s (schemaFromGroup g)) =
      s.classes.map fun o => (o, (schemaFromGroup g).find o.name) :=
    lefts_zipMatching (schemaFromGroup_distinct g) hdistinct
  unfold Schema.copyTableColumnsFrom
  refine ⟨?_, fun o ho => ?_⟩
  · rw [← hclasses]
    simp only [hwalk, List.map_map]
    refine List.map_congr_left fun o _ => ?_
    show ((schemaFromGroup g).find o.name |>.elim o (copyTableColumns o)).forgetColumns = _
    cases (schemaFromGroup g).find o.name with
    | none => rfl
    | some e => exact forgetColumns_copyTableColumns o e
  · simp only [hwalk, List.map_map] at ho
    obtain ⟨o, hmem, rfl⟩ := List.mem_map.1 ho
    obtain ⟨hname, hnodup⟩ := hnames o hmem
    obtain ⟨t, ht, heq⟩ := exists_of_map_forgetColumns hclasses hmem
    obtain ⟨T, hT, hall⟩ := hstores t ht
    rw [show t.name = o.name by simpa using congrArg ObjectSchema.name heq] at hT
    have hfind := find_schemaFromGroup g hname
    rw [hT, Option.map_some] at hfind
    have hcopied : ((fun v : ObjectSchema × Option ObjectSchema =>
        v.2.elim v.1 (copyTableColumns v.1)) ∘
          fun o => (o, (schemaFromGroup g).find o.name)) o =
        copyTableColumns o (objectSchemaOf o.name T (getPrimaryKeyForObject g o.name)) := by
      show ((schemaFromGroup g).find o.name).elim o (copyTableColumns o) = _
      rw [hfind]
      rfl
    rw [hcopied]
    exact ⟨T, (copyTableColumns_name o _).symm ▸ hT,
      pointsInto_copyTableColumns hnodup (hall.of_forgetColumns heq)⟩

/-- **Without a write.** The schema that has been read knows the positions. -/
theorem positioned_copyTableColumnsFrom (hs : program.Storable) (h : Migrated g₀ g program) :
    program.Positioned (program.copyTableColumnsFrom (schemaFromGroup g)) g := by
  refine positioned_copyTableColumnsFrom_of_storesAll hs rfl fun t ht => ?_
  obtain ⟨T, hT, hholds, -⟩ := (h.classes t ht).table
  exact ⟨T, congrArg ClassState.table hT, hholds.storesAll (hs.classes t ht)⟩

end Copy

end OverwatchTeams.ObjectStore
