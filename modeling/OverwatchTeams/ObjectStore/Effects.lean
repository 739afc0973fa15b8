import OverwatchTeams.Lib.Local
import OverwatchTeams.ObjectStore.ApplyChanges

/-!
# What a change does

A change of a schema has one `effect`, on the class it is about. Where the change is
possible (`Ok`) the visitor gets through and does just that (`applyChange_steps`),
so that a list of changes can be followed class by class.
-/

namespace OverwatchTeams.ObjectStore

variable {G V : Type} [Core G V]

/-! ## Effects -/

section Effect

variable (G)

def keyColumn (pk : Property) : Column V :=
  let type := ColumnType.value ((toCoreType pk.type.base).getD .int) pk.type.nullable
  ⟨pk.name, type, true, fun _ => Core.defaultValue G type⟩

def tableCreated (object : ObjectSchema) (s : ClassState V) : ClassState V :=
  if Core.enableSync G then
    match object.primaryKeyProperty with
    | some pk => if s.table.isSome then s else ⟨some ⟨0, [keyColumn G pk]⟩, pk.name⟩
    | none => { s with table := some (s.table.getD ⟨0, []⟩) }
  else ⟨some (s.table.getD ⟨0, []⟩), object.primaryKey⟩

def SchemaChange.position : SchemaChange → Nat
  | .changePropertyType _ p _ | .makePropertyNullable _ p | .makePropertyRequired _ p
  | .addIndex _ p | .removeIndex _ p => p.tableColumn
  | _ => 0

/-- What a change makes of the column it works on, in a table of `size` rows. -/
def columnEffect (size : Nat) : SchemaChange → Column V → Column V
  | .changePropertyType _ _ new, _ => new.newColumn (Core.defaultValue G)
  | .makePropertyNullable _ p, c =>
    let new := (p.withNullable true).newColumn (Core.defaultValue G)
    { new with cells := copyCells size c.cells new.cells }
  | .makePropertyRequired _ p, _ => (p.withNullable false).newColumn (Core.defaultValue G)
  | .addIndex _ _, c => { c with searchIndex := true }
  | .removeIndex _ _, c => { c with searchIndex := false }
  | _, c => c

/-- **What a change makes of its class.** -/
def effect (change : SchemaChange) (s : ClassState V) : ClassState V :=
  match change with
  | .addTable object => tableCreated G object s
  | .removeTable _ => s
  | .addInitialProperties object =>
    s.mapColumns fun cs => cs ++
      (initialProperties (Core.enableSync G) object).map (·.newColumn (Core.defaultValue G))
  | .addProperty _ p => s.mapColumns fun cs => cs ++ [p.newColumn (Core.defaultValue G)]
  | .removeProperty _ p => s.mapColumns fun cs => cs.eraseIdx p.tableColumn
  | .changePrimaryKey _ p => { s with primaryKey := p.elim "" Property.name }
  | .changePropertyType _ _ _ | .makePropertyNullable _ _ | .makePropertyRequired _ _
  | .addIndex _ _ | .removeIndex _ _ =>
    s.mapTable fun t =>
      { t with columns := t.columns.modify change.position (columnEffect G t.size change) }

variable (L : String → Prop)

def Ok (change : SchemaChange) (s : ClassState V) : Prop :=
  match change with
  | .addTable object => Core.enableSync G = true →
      ∀ pk, object.primaryKeyProperty = some pk → (toCoreType pk.type.base).isSome
  | .addInitialProperties object => s.table.isSome ∧
      ∀ p ∈ initialProperties (Core.enableSync G) object, p.Insertable L
  | .addProperty _ p => s.table.isSome ∧ p.Insertable L
  | .changePropertyType _ old new => new.Insertable L ∧
      ∃ t, s.table = some t ∧ old.tableColumn < t.columns.length
  | .makePropertyNullable _ p => (toCoreType p.type.base).isSome ∧
      ∃ t c type nullable, s.table = some t ∧ t.columns[p.tableColumn]? = some c ∧
        c.type = .value type nullable
  | .makePropertyRequired _ p => (p.withNullable false).Insertable L ∧
      ∃ t, s.table = some t ∧ p.tableColumn < t.columns.length
  | .removeProperty _ _ | .addIndex _ _ | .removeIndex _ _ => s.table.isSome
  | .removeTable _ | .changePrimaryKey _ _ => True

def Tables (version : Option Nat) (g : G) : Prop :=
  (∀ o, L o → (tableForObjectType g o).isSome) ∧ (Core.view g).version = version

end Effect

theorem effect_table_isSome (change : SchemaChange) (s : ClassState V) (h : s.table.isSome) :
    (effect G change s).table.isSome := by
  cases change with
  | addTable object =>
    simp only [effect, tableCreated]
    split
    · split
      · exact h
      · rfl
    · rfl
  | removeTable object => exact h
  | changePrimaryKey object p => exact h
  | _ => simpa [effect, ClassState.mapColumns, ClassState.mapTable] using h

theorem insertable_value {p : Property} {L : String → Prop} {type : DataType}
    (h : toCoreType p.type.base = some type) : p.Insertable L := by
  refine ⟨by rw [Property.columnType_value h]; rfl, fun hobject => ?_⟩
  rw [hobject] at h
  cases h

/-! ## The visitor -/

section Steps

variable [LawfulCore G] {g : G}

theorem classView_addInitialColumns {object : ObjectSchema} {L : String → Prop}
    (hL : ∀ o, L o → (tableForObjectType g o).isSome)
    (htable : (tableForObjectType g object.name).isSome) (ps : List Property)
    (hps : ∀ p ∈ ps, p.Insertable L) :
    ∃ g', ps.foldlM (fun g p => addColumn g object.name p) g = .ok g' ∧
      (Core.view g').version = (Core.view g).version ∧
      classView g' = Function.update (classView g) object.name
        ((classView g object.name).mapColumns fun cs =>
          cs ++ ps.map (·.newColumn (Core.defaultValue G))) := by
  induction ps generalizing g with
  | nil =>
    refine ⟨g, rfl, rfl, ?_⟩
    have hsame : (classView g object.name).mapColumns (fun cs => cs ++ ([] : List Property).map
        (·.newColumn (Core.defaultValue G))) = classView g object.name := by
      simp [ClassState.mapColumns, ClassState.mapTable]
    rw [hsame, Function.update_eq_self]
  | cons p ps ih =>
    obtain ⟨t, ht⟩ := Option.isSome_iff_exists.1 htable
    rw [List.forall_mem_cons] at hps
    have hcount : getColumnCount g object.name = t.columns.length := by
      rw [getColumnCount, ht]; rfl
    obtain ⟨g₁, hrun, hversion, hview⟩ :=
      insertColumn_ok hps.1 hL ht (i := t.columns.length) (Nat.le_refl _)
    have hkeeps : ∀ o, (tableForObjectType g o).isSome → (tableForObjectType g₁ o).isSome := by
      intro o ho
      show ((classView g₁ o).table).isSome
      rw [hview, Function.update_apply]
      split
      · next h =>
        subst h
        simpa [ClassState.mapColumns, ClassState.mapTable, classView] using ho
      · exact ho
    obtain ⟨g₂, hrun₂, hversion₂, hview₂⟩ :=
      ih (fun o ho => hkeeps o (hL o ho)) (hkeeps _ htable) hps.2
    refine ⟨g₂, ?_, hversion₂.trans hversion, ?_⟩
    · rw [List.foldlM_cons, addColumn, hcount, hrun]
      exact hrun₂
    · rw [hview₂, hview, Function.update_idem, Function.update_self]
      have htable' : (classView g object.name).table = some t := ht
      simp only [ClassState.mapColumns, ClassState.mapTable, htable', Option.map_some,
        List.insertIdx_length_self, List.append_assoc, List.map_cons, List.singleton_append]

omit [LawfulCore G] in
theorem mapColumns_replace {s : ClassState V} {t : Table V} {i : Nat} {new : Column V}
    (ht : s.table = some t) (hi : i < t.columns.length) :
    (s.mapColumns fun cs => cs.insertIdx i new).mapTable
        (fun t => t.edit (Core.defaultValue G) (.removeColumn (i + 1))) =
      s.mapTable fun t => { t with columns := t.columns.modify i fun _ => new } := by
  simp only [ClassState.mapColumns, ClassState.mapTable, ht, Table.edit, Option.map_some,
    ListEdits.eraseIdx_succ_insertIdx hi, List.set_eq_modify]

omit [LawfulCore G] in
theorem withTable_ok {object : ObjectSchema} {change : Except SchemaException G}
    (h : (classView g object.name).table.isSome) : withTable g object change = change :=
  if_pos h

theorem createTable_ok {L : String → Prop} {object : ObjectSchema}
    (hok : Ok G L (.addTable object) (classView g object.name)) :
    ∃ g', createTable g object = .ok g' ∧ (Core.view g').version = (Core.view g).version ∧
      classView g' = Function.update (classView g) object.name
        (tableCreated G object (classView g object.name)) := by
  unfold createTable tableCreated
  by_cases hsync : Core.enableSync G
  · rw [if_pos hsync, if_pos hsync]
    cases hpk : object.primaryKeyProperty with
    | none => exact ⟨_, rfl, version_getOrAddTable .., classView_getOrAddTable ..⟩
    | some pk =>
      obtain ⟨type, htype⟩ := Option.isSome_iff_exists.1 (hok hsync pk hpk)
      dsimp only
      rw [htype]
      refine ⟨_, rfl, version_createTableWithPrimaryKey .., ?_⟩
      rw [classView_createTableWithPrimaryKey]
      simp only [keyColumn, htype, Option.getD_some]
  · rw [if_neg hsync, if_neg hsync]
    refine ⟨_, rfl, by simp, ?_⟩
    rw [classView_setPrimaryKeyForObject, classView_getOrAddTable, Function.update_idem,
      Function.update_self]

section Columns

variable {objectType : String} {t : Table V} {L : String → Prop}

theorem replaceColumn_ok {old new : Property} (hnew : new.Insertable L)
    (hL : ∀ o, L o → (tableForObjectType g o).isSome)
    (ht : tableForObjectType g objectType = some t) (hi : old.tableColumn < t.columns.length) :
    ∃ g', replaceColumn g objectType old new = .ok g' ∧
      (Core.view g').version = (Core.view g).version ∧
      classView g' = Function.update (classView g) objectType
        ((classView g objectType).mapTable fun t =>
          { t with columns := t.columns.modify old.tableColumn fun _ =>
              new.newColumn (Core.defaultValue G) }) := by
  obtain ⟨g', hrun, hversion, hview⟩ := insertColumn_ok hnew hL ht hi.le
  refine ⟨editTable g' objectType (.removeColumn (old.tableColumn + 1)), ?_, ?_, ?_⟩
  · unfold replaceColumn
    rw [hrun]
    rfl
  · rw [version_editTable, hversion]
  · rw [classView_editTable, hview, Function.update_idem, Function.update_self]
    exact congrArg _ (mapColumns_replace ht hi)

/-- The new column stands in the place of the old one, with its values. -/
theorem makePropertyOptional_ok {p : Property} {c : Column V} {type type' : DataType}
    {nullable : Bool} (hp : toCoreType p.type.base = some type')
    (hL : ∀ o, L o → (tableForObjectType g o).isSome)
    (ht : tableForObjectType g objectType = some t) (hc : t.columns[p.tableColumn]? = some c)
    (hvalue : c.type = .value type nullable) :
    ∃ g', makePropertyOptional g objectType p = .ok g' ∧
      (Core.view g').version = (Core.view g).version ∧
      classView g' = Function.update (classView g) objectType
        ((classView g objectType).mapTable fun t =>
          { t with columns := t.columns.modify p.tableColumn fun c =>
              let new := (p.withNullable true).newColumn (Core.defaultValue G)
              { new with cells := copyCells t.size c.cells new.cells } }) := by
  have hi : p.tableColumn < t.columns.length := (List.getElem?_eq_some_iff.1 hc).1
  have hinsertable : (p.withNullable true).Insertable L := insertable_value hp
  obtain ⟨g₁, hrun₁, hversion₁, hview₁⟩ :=
    insertColumn_ok (i := p.tableColumn) hinsertable hL ht hi.le
  -- The old column now stands behind the new one.
  have ht₁ : tableForObjectType g₁ objectType = some { t with
      columns := t.columns.insertIdx p.tableColumn
        ((p.withNullable true).newColumn (Core.defaultValue G)) } := by
    have hself := congrFun hview₁ objectType
    rw [Function.update_self] at hself
    have hmap := congrArg ClassState.table hself
    simpa [ClassState.mapColumns, ClassState.mapTable, ht, classView] using hmap
  have hc₁ : (t.columns.insertIdx p.tableColumn
      ((p.withNullable true).newColumn (Core.defaultValue G)))[p.tableColumn + 1]? = some c := by
    rw [List.getElem?_insertIdx_of_gt (by omega)]
    exact hc
  obtain ⟨g₂, hrun₂, hversion₂, hview₂⟩ :=
    copyPropertyValues_ok (p := p.withNullable true) ht₁ hc₁ hvalue hp
  refine ⟨editTable g₂ objectType (.removeColumn (p.tableColumn + 1)), ?_, ?_, ?_⟩
  · unfold makePropertyOptional
    show (insertColumn g objectType (p.withNullable true) p.tableColumn >>= _) = _
    rw [hrun₁]
    show (copyPropertyValues g₁ objectType (p.withNullable true) >>= _) = _
    rw [hrun₂]
    rfl
  · rw [version_editTable, hversion₂, hversion₁]
  · have htable : (classView g objectType).table = some t := ht
    rw [classView_editTable, hview₂, hview₁, Function.update_idem, Function.update_self,
      Function.update_idem, Function.update_self]
    congr 1
    simp only [ClassState.mapColumns, ClassState.mapTable, htable, Option.map_some, Table.edit]
    rw [show (p.withNullable true).tableColumn = p.tableColumn from rfl,
      ListEdits.modify_insertIdx hi.le, ListEdits.eraseIdx_succ_insertIdx hi,
      List.modify_eq_set_getElem?, hc]
    rfl

end Columns

/-- **One change.** Where it is possible the visitor carries it out and touches nothing but
its class. -/
theorem applyChange_ok {L : String → Prop} {change : SchemaChange}
    (hL : ∀ o, L o → (tableForObjectType g o).isSome)
    (hok : Ok G L change (classView g change.object.name)) :
    ∃ g', applyChange g change = .ok g' ∧ (Core.view g').version = (Core.view g).version ∧
      classView g' = Function.update (classView g) change.object.name
        (effect G change (classView g change.object.name)) := by
  cases change with
  | addTable object => exact createTable_ok hok
  | removeTable object => exact ⟨g, rfl, rfl, (Function.update_eq_self _ _).symm⟩
  | addInitialProperties object =>
    dsimp only [SchemaChange.object] at hok ⊢
    obtain ⟨htable, hps⟩ := hok
    have h : applyChange g (.addInitialProperties object) =
        (initialProperties (Core.enableSync G) object).foldlM
          (fun g p => addColumn g object.name p) g := if_pos htable
    rw [h]
    exact classView_addInitialColumns hL htable _ hps
  | addProperty object p =>
    dsimp only [SchemaChange.object] at hok ⊢
    obtain ⟨htable, hp⟩ := hok
    obtain ⟨g', hrun, hversion, hview⟩ := classView_addInitialColumns hL htable [p]
      (by simpa using hp)
    refine ⟨g', ?_, hversion, hview⟩
    rw [applyChange, withTable_ok htable]
    simpa using hrun
  | removeProperty object p =>
    dsimp only [SchemaChange.object] at hok ⊢
    refine ⟨editTable g object.name (.removeColumn p.tableColumn), ?_, version_editTable .., ?_⟩
    · rw [applyChange, withTable_ok hok]
    · exact classView_editTable ..
  | addIndex object p =>
    dsimp only [SchemaChange.object] at hok ⊢
    refine ⟨editTable g object.name (.addSearchIndex p.tableColumn), ?_, version_editTable .., ?_⟩
    · rw [applyChange, withTable_ok hok]
    · exact classView_editTable ..
  | removeIndex object p =>
    dsimp only [SchemaChange.object] at hok ⊢
    refine ⟨editTable g object.name (.removeSearchIndex p.tableColumn), ?_,
      version_editTable .., ?_⟩
    · rw [applyChange, withTable_ok hok]
    · exact classView_editTable ..
  | changePrimaryKey object p => exact ⟨_, rfl, by simp, classView_setPrimaryKeyForObject ..⟩
  | changePropertyType object old new =>
    dsimp only [SchemaChange.object] at hok ⊢
    obtain ⟨hnew, t, ht, hi⟩ := hok
    rw [applyChange, withTable_ok (by rw [ht]; rfl)]
    exact replaceColumn_ok hnew hL ht hi
  | makePropertyRequired object p =>
    dsimp only [SchemaChange.object] at hok ⊢
    obtain ⟨hnew, t, ht, hi⟩ := hok
    rw [applyChange, withTable_ok (by rw [ht]; rfl)]
    exact replaceColumn_ok hnew hL ht hi
  | makePropertyNullable object p =>
    dsimp only [SchemaChange.object] at hok ⊢
    obtain ⟨hsome, t, c, type, nullable, ht, hc, hvalue⟩ := hok
    obtain ⟨type', htype'⟩ := Option.isSome_iff_exists.1 hsome
    rw [applyChange, withTable_ok (by rw [ht]; rfl)]
    exact makePropertyOptional_ok htype' hL ht hc hvalue

omit [LawfulCore G] in
theorem tables_of_update {L : String → Prop} {version : Option Nat} {g' : G} {n : String}
    {change : SchemaChange} (h : Tables G L version g)
    (hversion : (Core.view g').version = (Core.view g).version)
    (hview : classView g' = Function.update (classView g) n (effect G change (classView g n))) :
    Tables G L version g' := by
  refine ⟨fun o ho => ?_, hversion.trans h.2⟩
  have hsome : (classView g o).table.isSome := h.1 o ho
  show (classView g' o).table.isSome
  rw [hview, Function.update_apply]
  split
  · next heq => exact effect_table_isSome change _ (heq ▸ hsome)
  · exact hsome

/-- **The visitor works class by class.** -/
theorem applyChange_steps (L : String → Prop) (version : Option Nat) :
    Local.Steps (classView (G := G)) (fun change => change.object.name) (effect G) (Ok G L)
      (Tables G L version) (fun _ : SchemaException => False) applyChange where
  step g change htables hok := by
    obtain ⟨g', hrun, hversion, hview⟩ := applyChange_ok htables.1 hok
    exact .inr ⟨g', hrun, tables_of_update htables hversion hview, hview⟩

end Steps

end OverwatchTeams.ObjectStore
