import OverwatchTeams.ObjectStore.MigratedTable

/-!
# Applying a comparison

`applySchemaChanges` carries the changes of a comparison out. It has one applier for
new files, one for changes that need no migration, and two around a migration: the
removals and the indexes wait for the second one. All of them lead to the same
end (`Migrated`): every class of the program has a table that holds it, with its
indexes, and the values that could stay have stayed. A schema read from such a file has
no change left (`compare_of_migrated`).
-/

namespace OverwatchTeams.ObjectStore

open SchemaChange Schema

variable {G V : Type} [Core G V]

inductive SchemaMode where
  | automatic | immutable | readOnlyAlternative | resetFile | additive | manual
  deriving DecidableEq, Repr

/-! ## The source -/

/-- `create_metadata_tables`: the table `pk` has no rows before it exists. -/
def createMetadataTables (g : G) : G :=
  if (Core.view g).version.isSome then g else Core.setVersion g notVersioned

def setSchemaVersion (g : G) (version : Nat) : G :=
  Core.setVersion (createMetadataTables g) version

/-- `validate_primary_column_uniqueness` for one class: the values of the rows differ. -/
def validatePrimaryColumnUniqueness [DecidableEq V] (g : G) (objectType primaryProperty : String) :
    Except SchemaException Unit :=
  match (tableForObjectType g objectType).bind fun t =>
    (t.columns.find? fun c => c.name = primaryProperty).map fun c =>
      (List.range t.size).map c.cells with
  | some values =>
    if values.Nodup then .ok () else .error (.duplicatePrimaryKeyValue objectType primaryProperty)
  | none => .error .assertion

def validatePrimaryColumnsUniqueness [DecidableEq V] (g : G) : Except SchemaException Unit :=
  (Core.view g).pk.rows.forM fun row => validatePrimaryColumnUniqueness g row.1 row.2

/-- The appliers that carry some changes out and pass over the others. -/
def applyHandled (handles : SchemaChange → Bool) (g : G) (changes : List SchemaChange) :
    Except SchemaException G :=
  changes.foldlM (fun g change => if handles change then applyChange g change else .ok g) g

def createInitialTables (g : G) (changes : List SchemaChange) : Except SchemaException G :=
  changes.foldlM applyChange g

def handlesNonMigration : SchemaChange → Bool
  | addTable _ | addInitialProperties _ | addIndex _ _ | removeIndex _ _ => true
  | _ => false

/-- All changes are visited, those that are not carried out are explained at the end. -/
def applyNonMigrationChanges (g : G) (changes : List SchemaChange) : Except SchemaException G := do
  let g ← applyHandled handlesNonMigration g changes
  let errors := (changes.filter fun c => !handlesNonMigration c).flatMap schemaDifferenceExplainer
  if errors.isEmpty then .ok g else .error (.schemaMismatch errors)

def handlesAdditive (updateIndexes : Bool) : SchemaChange → Bool
  | addTable _ | addInitialProperties _ | addProperty _ _ => true
  | addIndex _ _ | removeIndex _ _ => updateIndexes
  | _ => false

def applyAdditiveChanges (g : G) (changes : List SchemaChange) (updateIndexes : Bool) :
    Except SchemaException G :=
  applyHandled (handlesAdditive updateIndexes) g changes

/-- Removals are delayed until after the migration. -/
def applyPreMigrationChanges (g : G) (changes : List SchemaChange) : Except SchemaException G :=
  applyHandled isNotRemoveProperty g changes

def applyPostMigrationChange [DecidableEq V] (initialSchema : Schema) (didRereadSchema : Bool)
    (g : G) (change : SchemaChange) : Except SchemaException G :=
  match change with
  | removeProperty object property =>
    if initialSchema.classes = [] then applyChange g change
    else
      match initialSchema.find object.name with
      | none => .error .assertion
      | some o =>
        if (o.propertyForName property.name).isSome then applyChange g change
        else .error (.logicError ("Renamed property '" ++ object.name ++ "." ++ property.name ++
          "' does not exist."))
  | changePrimaryKey object (some property) => do
    validatePrimaryColumnUniqueness g object.name property.name
    return g
  -- Without a migration function the properties are there already.
  | addInitialProperties _ => if didRereadSchema then applyChange g change else .ok g
  | addTable _ | addIndex _ _ | removeIndex _ _ => applyChange g change
  | _ => .ok g

def applyPostMigrationChanges [DecidableEq V] (g : G) (changes : List SchemaChange)
    (initialSchema : Schema) (didRereadSchema : Bool) : Except SchemaException G :=
  changes.foldlM (applyPostMigrationChange initialSchema didRereadSchema) g

def setObjectColumns (g : G) (object : ObjectSchema) : ObjectSchema :=
  match tableForObjectType g object.name with
  | none => object
  | some table =>
    { object with persistedProperties := object.persistedProperties.map fun p =>
        { p with tableColumn :=
            (table.columns.findIdx? fun c => c.name = p.name).getD (2 ^ 64 - 1) } }

theorem setObjectColumns_name (g : G) (object : ObjectSchema) :
    (setObjectColumns g object).name = object.name := by
  unfold setObjectColumns
  split <;> rfl

def setSchemaColumns (g : G) (schema : Schema) : Schema where
  classes := schema.classes.map (setObjectColumns g)
  sorted := by
    rw [List.pairwise_map]
    simpa only [setObjectColumns_name] using schema.sorted

def emptySchema : Schema := ⟨[], .nil⟩

def applyMigration [DecidableEq V] (partition : Partition SchemaChange) (g : G) (target : Schema)
    (changes : List SchemaChange)
    (migrationFunction : Option (Schema → G → Except SchemaException G)) :
    Except SchemaException G := do
  let oldSchema := schemaFromGroup g
  let g ← applyPreMigrationChanges g changes
  match migrationFunction with
  | some migrate =>
    let g ← migrate (setSchemaColumns g target) g
    -- The migration function may have changed the schema.
    let g ← applyPostMigrationChanges g (compare partition (schemaFromGroup g) target false)
      oldSchema true
    validatePrimaryColumnsUniqueness g
    return g
  | none => applyPostMigrationChanges g changes emptySchema false

def applyManual [DecidableEq V] (partition : Partition SchemaChange) (g : G) (target : Schema)
    (migrationFunction : Option (Schema → G → Except SchemaException G)) :
    Except SchemaException G := do
  let g ← match migrationFunction with
    | some migrate => migrate (setSchemaColumns g target) g
    | none => .ok g
  verifyNoChangesRequired (compare partition (schemaFromGroup g) target false)
  validatePrimaryColumnsUniqueness g
  return g

/-- `apply_schema_changes` without the permissions of partial synchronisation. The schema of
the program gets its columns from the group afterwards (`setSchemaColumns`). -/
def applySchemaChanges [DecidableEq V] (partition : Partition SchemaChange) (g : G)
    (schemaVersion : Nat) (target : Schema) (targetVersion : Nat) (mode : SchemaMode)
    (changes : List SchemaChange)
    (migrationFunction : Option (Schema → G → Except SchemaException G)) :
    Except SchemaException G := do
  let g := createMetadataTables g
  if mode = .additive then
    let g ← applyAdditiveChanges g changes true
    return if schemaVersion < targetVersion ∨ schemaVersion = notVersioned
      then setSchemaVersion g targetVersion else g
  else if schemaVersion = notVersioned then
    let g ← createInitialTables g changes
    return setSchemaVersion g targetVersion
  else if mode = .manual then
    let g ← applyManual partition g target migrationFunction
    return setSchemaVersion g targetVersion
  else if schemaVersion = targetVersion then
    applyNonMigrationChanges g changes
  else
    let g ← applyMigration partition g target changes migrationFunction
    return setSchemaVersion g targetVersion

/-! ## Files that serve a schema -/

def Schema.Has (s : Schema) (objectType : String) : Prop := (s.find objectType).isSome

structure Schema.Storable (s : Schema) : Prop where
  distinct : s.Distinct
  classes : ∀ t ∈ s.classes, t.Storable s.Has

def ClassState.Plain (s : ClassState V) : Prop := ∀ T, s.table = some T → T.Plain

/-- The table of the class holds it, with its indexes and with all values that could stay. A
new table has no rows. -/
structure ClassState.Serves (old new : ClassState V) (t : ObjectSchema) : Prop where
  table : ∃ T, new = ⟨some T, t.primaryKey⟩ ∧ T.Holds t.primaryKey t ∧ T.Indexed t ∧
    (∀ T₀, old.table = some T₀ → T₀.KeepsValues T t) ∧ (old.table = none → T.size = 0)
  plain : old.Plain → new.Plain

/-- **What an update is for.** The classes of the program are served, all others are left
alone. -/
structure Migrated (g g' : G) (target : Schema) : Prop where
  classes : ∀ t ∈ target.classes, (classView g t.name).Serves (classView g' t.name) t
  others : ∀ n, target.find n = none → classView g' n = classView g n

def Plain (g : G) : Prop := ∀ n, (classView g n).Plain

def KeysHaveTables (g : G) : Prop :=
  ∀ n, (classView g n).table = none → (classView g n).primaryKey = ""

section File

variable [LawfulCore G] {g g' : G} {target : Schema}

/-- **After an update there is nothing left to do.** -/
theorem compare_of_migrated (partition : Partition SchemaChange) (ht : target.Storable)
    (h : Migrated g g' target) :
    Schema.compare partition (schemaFromGroup g') target false = [] := by
  rw [Schema.compare_nil_iff (schemaFromGroup_distinct g') ht.distinct]
  refine ⟨fun t hmem => ?_, by simp⟩
  obtain ⟨T, hT, hholds, hindexed, -⟩ := (h.classes t hmem).table
  have htable : tableForObjectType g' t.name = some T := congrArg ClassState.table hT
  have hkey : getPrimaryKeyForObject g' t.name = t.primaryKey :=
    congrArg ClassState.primaryKey hT
  refine ⟨objectSchemaOf t.name T t.primaryKey, ?_,
    tableChanges_eq_nil_of_holds (ht.classes t hmem) hholds hindexed t.name⟩
  rw [find_schemaFromGroup g' (ht.classes t hmem).name_ne, htable, hkey]
  rfl

omit [LawfulCore G] in
theorem Migrated.keysHaveTables (h : Migrated g g' target) (hkeys : KeysHaveTables g) :
    KeysHaveTables g' := by
  intro n hn
  cases hfind : target.find n with
  | none =>
    rw [h.others n hfind] at hn ⊢
    exact hkeys n hn
  | some t =>
    obtain ⟨hmem, rfl⟩ := find_eq_some hfind
    obtain ⟨T, hT, -⟩ := (h.classes t hmem).table
    rw [hT] at hn
    cases hn

omit [LawfulCore G] in
theorem Migrated.plain (h : Migrated g g' target) (hplain : Plain g) : Plain g' := by
  intro n
  cases hfind : target.find n with
  | none =>
    rw [h.others n hfind]
    exact hplain n
  | some t =>
    obtain ⟨hmem, rfl⟩ := find_eq_some hfind
    exact (h.classes t hmem).plain (hplain t.name)

end File

/-! ## Class by class -/

theorem TableRun.serves {L : String → Prop} {t : ObjectSchema} (ht : t.Storable L)
    {made again removals : List SchemaChange} {s : ClassState V} {T : Table V}
    (hT : s.table = some T)
    (h : TableRun (objectSchemaOf t.name T s.primaryKey) t made again removals)
    (hlast : TableRun.IndexesLast (objectSchemaOf t.name T s.primaryKey) t made again) :
    s.Serves (Local.result (effect G) (made ++ again ++ removals) s) t := by
  obtain ⟨table, key⟩ := s
  subst hT
  refine ⟨⟨TableRun.table G T made again removals, h.result ht, h.holds ht, h.indexed ht hlast,
    fun T₀ hT₀ => ?_, nofun⟩, fun hplain T' hT' => ?_⟩
  · obtain rfl := Option.some.inj hT₀
    exact h.keepsValues ht
  · rw [h.result ht] at hT'
    obtain rfl := Option.some.inj hT'
    exact h.plain ht (hplain T rfl)

theorem serves_newTable {L : String → Prop} {t : ObjectSchema} (ht : t.Storable L)
    {s : ClassState V} (hs : s.table = none) (hkey : s.primaryKey = "") :
    s.Serves (Local.result (effect G) [addTable t, addInitialProperties t] s) t := by
  obtain ⟨-, T, hT, hsize, hholds, hindexed, hplain⟩ := newTable (G := G) ht hs hkey
  refine ⟨⟨T, hT, hholds, hindexed, fun T₀ hT₀ => ?_, fun _ => hsize⟩, fun _ T' hT' => ?_⟩
  · rw [hs] at hT₀
    cases hT₀
  · rw [hT] at hT'
    obtain rfl := Option.some.inj hT'
    exact hplain

theorem result_table_isSome {changes : List SchemaChange} {s : ClassState V}
    (h : s.table.isSome ∨ ∃ t, addTable t ∈ changes) :
    (Local.result (effect G) changes s).table.isSome := by
  induction changes generalizing s with
  | nil =>
    rcases h with h | ⟨t, ht⟩
    · exact h
    · cases ht
  | cons c changes ih =>
    rw [Local.result_cons]
    apply ih
    rcases h with h | ⟨t, ht⟩
    · exact .inl (effect_table_isSome c s h)
    · rcases List.mem_cons.1 ht with rfl | ht
      · left
        simp only [effect, tableCreated]
        split
        · split
          · split
            · next hsome => exact hsome
            · rfl
          · rfl
        · rfl
      · exact .inr ⟨t, ht⟩

section Classes

variable [LawfulCore G] {g g₀ : G} {partition : Partition SchemaChange} {target : Schema}

/-- **The changes of a comparison**: the missing tables, then the changes of the classes. -/
theorem compare_phases (partition : Partition SchemaChange) (g : G) (ht : target.Storable) :
    ∃ tables rest, compare partition (schemaFromGroup g) target false = tables ++ rest ∧
      (∀ c ∈ tables, ∃ t ∈ target.classes, c = addTable t) ∧
      (∀ t ∈ target.classes, (classView g t.name).table = none →
        about t.name tables = [addTable t] ∧ about t.name rest = [addInitialProperties t]) ∧
      (∀ t ∈ target.classes, ∀ T, (classView g t.name).table = some T →
        about t.name tables = [] ∧ ∃ kept removals, about t.name rest = kept ++ removals ∧
          ∀ again, (∀ c ∈ again, c ∈ kept ∧ c.isIndexChange) →
            TableRun (objectSchemaOf t.name T (classView g t.name).primaryKey) t
              kept again removals) ∧
      ∀ n, target.find n = none → about n tables = [] ∧ about n rest = [] := by
  have he := schemaFromGroup_distinct g
  obtain ⟨rest, hrest⟩ := compare_eq_append partition he ht.distinct
  have habout : ∀ n, about n (compare partition (schemaFromGroup g) target false) =
      about n (missing (schemaFromGroup g) target false) ++ about n rest := fun n => by
    rw [hrest, about_append]
  have hfind : ∀ t ∈ target.classes, (schemaFromGroup g).find t.name =
      (classView g t.name).table.map fun T =>
        objectSchemaOf t.name T (classView g t.name).primaryKey := fun t hmem =>
    find_schemaFromGroup g (ht.classes t hmem).name_ne
  refine ⟨_, rest, hrest, fun c hc => ?_, fun t hmem hnone => ?_, fun t hmem T hT => ?_,
    fun n hn => ?_⟩
  · rw [missing_eq he ht.distinct] at hc
    obtain ⟨t, hmem, rfl⟩ := List.mem_map.1 hc
    exact ⟨t, List.mem_of_mem_filter hmem, rfl⟩
  · have hmissing : (schemaFromGroup g).find t.name = none := by rw [hfind t hmem, hnone]; rfl
    have hnew := compare_new partition he ht.distinct hmem hmissing
    have htables := about_missing_of_none he ht.distinct hmem hmissing
    rw [habout, htables, List.singleton_append] at hnew
    exact ⟨htables, (List.cons.inj hnew).2⟩
  · have hsome := hfind t hmem
    rw [hT, Option.map_some] at hsome
    have htables := about_missing_of_find he ht.distinct (by rw [hsome]; rfl)
    obtain ⟨kept, removals, heq, hkept, hremovals, hdescending⟩ :=
      compare_existing partition he ht.distinct hmem hsome
    rw [habout, htables, List.nil_append] at heq
    exact ⟨htables, kept, removals, heq, fun again hagain =>
      ⟨hkept, hagain, hremovals, hdescending⟩⟩
  · have hother := compare_other partition he ht.distinct hn
    rw [habout] at hother
    exact List.append_eq_nil_iff.1 hother

/-- **Tables first, then the rest.** Once the missing tables are there, links can be added. -/
theorem foldlM_applyChange (ht : target.Storable) {tables : List SchemaChange}
    (rest : List SchemaChange)
    (htables : ∀ c ∈ tables, ∃ t ∈ target.classes, c = addTable t)
    (hall : ∀ t ∈ target.classes, (classView g t.name).table.isSome ∨ addTable t ∈ tables)
    (hready : ∀ n, Local.Ready (effect G) (Ok G target.Has) (about n rest)
      (Local.result (effect G) (about n tables) (classView g n))) :
    ∃ g', (tables ++ rest).foldlM applyChange g = .ok g' ∧
      Tables G target.Has (Core.view g).version g' ∧
      ∀ n, classView g' n =
        Local.result (effect G) (about n (tables ++ rest)) (classView g n) := by
  have hfirst := (applyChange_steps (G := G) (fun _ => False) (Core.view g).version).run
    tables (g := g) ⟨fun _ h => h.elim, rfl⟩ fun n => by
      refine Local.ready_of_forall fun c hc s => ?_
      obtain ⟨t, hmem, rfl⟩ := htables c (List.mem_of_mem_filter hc)
      exact ok_addTable (ht.classes t hmem) s
  obtain ⟨_, -, h⟩ | ⟨g₁, hrun₁, hinv₁, hview₁⟩ := hfirst
  · exact h.elim
  have htables₁ : Tables G target.Has (Core.view g).version g₁ := by
    refine ⟨fun o ho => ?_, hinv₁.2⟩
    obtain ⟨t, hfind⟩ := Option.isSome_iff_exists.1 ho
    obtain ⟨hmem, rfl⟩ := find_eq_some hfind
    show (classView g₁ t.name).table.isSome
    rw [hview₁]
    refine result_table_isSome ((hall t hmem).imp_right fun h => ⟨t, List.mem_filter.2 ⟨h, ?_⟩⟩)
    exact decide_eq_true rfl
  have hsecond := (applyChange_steps (G := G) target.Has (Core.view g).version).run
    rest htables₁ fun n => by
      rw [hview₁]
      exact hready n
  obtain ⟨_, -, h⟩ | ⟨g₂, hrun₂, hinv₂, hview₂⟩ := hsecond
  · exact h.elim
  refine ⟨g₂, ?_, hinv₂, fun n => ?_⟩
  · rw [List.foldlM_append, hrun₁]
    exact hrun₂
  · rw [hview₂, hview₁, about_append, Local.result_append]
    rfl

omit [LawfulCore G] in
theorem about_filter (n : String) (p : SchemaChange → Bool) (xs : List SchemaChange) :
    about n (xs.filter p) = (about n xs).filter p := by
  unfold about
  rw [List.filter_filter, List.filter_filter]
  exact List.filter_congr fun _ _ => Bool.and_comm ..

/-- No list of values in the file is made optional. -/
def ListsStay (g : G) (target : Schema) : Prop :=
  ∀ t ∈ target.classes, ∀ T, (classView g t.name).table = some T →
    NoListMadeOptional (objectSchemaOf t.name T (classView g t.name).primaryKey) t

omit [LawfulCore G] in
theorem listsStay_of_required (g : G) (ht : target.Storable)
    (h : ∀ t ∈ target.classes, ∀ q ∈ t.persistedProperties, q.type.array = true →
      q.type.nullable = false) : ListsStay g target := by
  intro t hmem T _ o p hc
  rcases mem_tableChanges.1 hc with ⟨current, -, hpc⟩ | ⟨-, hkey⟩ | ⟨q, -, -, hadd⟩
  · rcases propertyChanges_cases (objectSchemaOf t.name T (classView g t.name).primaryKey) t
      current with ⟨-, heq⟩ | ⟨q, -, -, heq⟩ | ⟨q, hq, hr, heq⟩
    · cases List.mem_singleton.1 (heq ▸ hpc)
    · cases List.mem_singleton.1 (heq ▸ hpc)
    · rw [heq, List.mem_append] at hpc
      rcases hpc with hpc | hpc
      · rcases nullabilityChanges_cases (objectSchemaOf t.name T (classView g t.name).primaryKey)
          current q with ⟨-, hn⟩ | ⟨-, -, hn⟩ | ⟨-, hq', hn⟩
        · rw [hn] at hpc
          cases hpc
        · cases List.mem_singleton.1 (hn ▸ hpc)
        · cases List.mem_singleton.1 (hn ▸ hpc)
          unfold Property.Retyped at hr
          push Not at hr
          by_contra harray
          rw [Bool.not_eq_false, hr.2.2] at harray
          have := h t hmem q ((ht.classes t hmem).stores_iff.1 hq).1 harray
          rw [this] at hq'
          cases hq'
      · rcases mem_indexChanges hpc with hp | hp <;> cases hp
  · cases hkey
  · cases hadd

/-- **An applier carries out what it handles**, class by class. It handles new tables and
removes no columns. -/
theorem applyHandled_ok (partition : Partition SchemaChange) (ht : target.Storable)
    (hkeys : KeysHaveTables g₀) (hview : classView g = classView g₀)
    (handles : SchemaChange → Bool)
    (hhandles : ∀ o, handles (addTable o) = true ∧ handles (addInitialProperties o) = true ∧
      ∀ p, handles (removeProperty o p) = false)
    (hlists : ∀ o p, handles (makePropertyNullable o p) = true → ListsStay g₀ target) :
    ∃ g', applyHandled handles g (compare partition (schemaFromGroup g₀) target false) =
        .ok g' ∧
      Tables G target.Has (Core.view g).version g' ∧
      ∀ n, classView g' n = Local.result (effect G)
        ((about n (compare partition (schemaFromGroup g₀) target false)).filter handles)
        (classView g₀ n) := by
  obtain ⟨tables, rest, heq, htables, hnew, hold, hother⟩ := compare_phases partition g₀ ht
  have hfilter : (compare partition (schemaFromGroup g₀) target false).filter handles =
      tables ++ rest.filter handles := by
    rw [heq, List.filter_append, List.filter_eq_self.2 fun c hc => ?_]
    obtain ⟨t, -, rfl⟩ := htables c hc
    exact (hhandles t).1
  have hall : ∀ t ∈ target.classes,
      (classView g t.name).table.isSome ∨ addTable t ∈ tables := by
    intro t hmem
    cases hT : (classView g₀ t.name).table with
    | some T => exact .inl (by rw [hview, hT]; rfl)
    | none =>
      have hin : addTable t ∈ about t.name tables := by
        rw [(hnew t hmem hT).1]
        exact List.mem_singleton_self _
      exact .inr (List.mem_of_mem_filter hin)
  obtain ⟨g', hrun, htables', hviews⟩ := foldlM_applyChange (g := g) ht
    (rest.filter handles) htables hall fun n => by
      rw [hview, about_filter]
      cases hfind : target.find n with
      | none =>
        rw [(hother n hfind).2]
        trivial
      | some t =>
        obtain ⟨hmem, rfl⟩ := find_eq_some hfind
        have hstorable := ht.classes t hmem
        cases hT : (classView g₀ t.name).table with
        | none =>
          obtain ⟨h1, h2⟩ := hnew t hmem hT
          rw [h1, h2, List.filter_cons_of_pos (hhandles t).2.1]
          exact ⟨(newTable hstorable hT (hkeys _ hT)).1, trivial⟩
        | some T =>
          obtain ⟨h1, kept, removals, h2, hrun⟩ := hold t hmem T hT
          have h := hrun [] (by simp)
          have hready := h.ready (G := G) hstorable handles fun o p hp hc =>
            hlists o p hp t hmem T hT o p hc
          have hnone : removals.filter handles = [] := by
            rw [List.filter_eq_nil_iff]
            intro c hc
            have hremoval := h.not_kept_removals c hc
            cases c with
            | removeProperty o p => simp [(hhandles o).2.2 p]
            | _ => exact absurd rfl hremoval
          rw [← hT] at hready
          rw [h1, h2, Local.result_nil, List.filter_append, hnone, List.append_nil]
          exact hready
  refine ⟨g', ?_, htables', fun n => ?_⟩
  · rw [applyHandled, Local.foldlM_filter, hfilter]
    exact hrun
  · rw [hviews, ← hfilter, about_filter, hview]

/-! ## Changes that need no migration -/

theorem sameTable_of_needsMigration (ht : target.Storable)
    (hsame : needsMigration (compare partition (schemaFromGroup g) target false) = false)
    {t : ObjectSchema} (hmem : t ∈ target.classes) {T : Table V}
    (hT : (classView g t.name).table = some T) :
    SameTable (objectSchemaOf t.name T (classView g t.name).primaryKey) t := by
  have hfind := find_schemaFromGroup g (ht.classes t hmem).name_ne
  have htable : tableForObjectType g t.name = some T := hT
  rw [htable] at hfind
  exact (needsMigration_compare_eq_false_iff partition (schemaFromGroup_distinct g) ht.distinct
    false).1 hsame t hmem _ hfind

theorem filter_handlesNonMigration {changes : List SchemaChange}
    (hsame : needsMigration changes = false) (hremove : ∀ o, removeTable o ∉ changes) :
    changes.filter handlesNonMigration = changes := by
  rw [List.filter_eq_self]
  intro c hc
  rw [needsMigration, List.any_eq_false] at hsame
  have hno := hsame c hc
  cases c with
  | removeTable o => exact absurd hc (hremove o)
  | addTable o => rfl
  | addInitialProperties o => rfl
  | addIndex o p => rfl
  | removeIndex o p => rfl
  | _ => simp at hno

theorem removeTable_not_mem_compare (partition : Partition SchemaChange) (ht : target.Distinct)
    (g : G) (o : ObjectSchema) :
    removeTable o ∉ compare partition (schemaFromGroup g) target false := by
  intro h
  obtain ⟨t, -, -, h | h⟩ := (mem_compare_table partition (schemaFromGroup_distinct g) ht rfl).1 h
  · cases h
  · cases h

/-- **The changes of a comparison without a migration**, made all at once. -/
theorem migrated_of_needsMigration (partition : Partition SchemaChange) (ht : target.Storable)
    (hkeys : KeysHaveTables g₀)
    (hsame : needsMigration (compare partition (schemaFromGroup g₀) target false) = false)
    (hview : classView g = classView g₀) :
    ∃ g', (compare partition (schemaFromGroup g₀) target false).foldlM applyChange g = .ok g' ∧
      (Core.view g').version = (Core.view g).version ∧ Migrated g₀ g' target := by
  have hall := filter_handlesNonMigration hsame
    (removeTable_not_mem_compare partition ht.distinct g₀)
  obtain ⟨g', hrun, htables', hviews⟩ := applyHandled_ok partition ht hkeys hview
    handlesNonMigration (fun _ => ⟨rfl, rfl, fun _ => rfl⟩) (fun o p h => by cases h)
  rw [applyHandled, Local.foldlM_filter, hall] at hrun
  obtain ⟨tables, rest, heq, -, hnew, hold, hother⟩ := compare_phases partition g₀ ht
  have hclass : ∀ n, classView g' n =
      Local.result (effect G) (about n tables ++ about n rest) (classView g₀ n) := by
    intro n
    rw [hviews, ← about_filter, hall, heq, about_append]
  refine ⟨g', hrun, htables'.2, fun t hmem => ?_, fun n hn => ?_⟩
  · rw [hclass]
    have hstorable := ht.classes t hmem
    cases hT : (classView g₀ t.name).table with
    | none =>
      obtain ⟨h1, h2⟩ := hnew t hmem hT
      rw [h1, h2]
      exact serves_newTable hstorable hT (hkeys _ hT)
    | some T =>
      obtain ⟨h1, kept, removals, h2, hrun⟩ := hold t hmem T hT
      have hserves := (hrun [] (by simp)).serves (G := G) hstorable hT
        (.inr ⟨rfl, sameTable_of_needsMigration ht hsame hmem hT⟩)
      rw [h1, h2, List.nil_append]
      rwa [List.append_nil] at hserves
  · rw [hclass, (hother n hn).1, (hother n hn).2]
    rfl

omit [LawfulCore G] in
theorem applyNonMigrationChanges_eq {changes : List SchemaChange}
    (hsame : needsMigration changes = false) (hremove : ∀ o, removeTable o ∉ changes) (g : G) :
    applyNonMigrationChanges g changes = changes.foldlM applyChange g := by
  have hall := filter_handlesNonMigration hsame hremove
  have hnone : changes.filter (fun c => !handlesNonMigration c) = [] := by
    rw [List.filter_eq_nil_iff]
    intro c hc
    simp [List.filter_eq_self.1 hall c hc]
  unfold applyNonMigrationChanges applyHandled
  rw [Local.foldlM_filter, hall, hnone]
  cases changes.foldlM applyChange g with
  | error e => rfl
  | ok g' => rfl

end Classes

end OverwatchTeams.ObjectStore
