import OverwatchTeams.ObjectStore.ApplyMigration
import OverwatchTeams.ObjectStore.TableColumns
import OverwatchTeams.ObjectStore.Validate

/-!
# Opening a file with a schema

`updateSchema` is what a Realm does with the schema of the program when it has been
opened: it validates the schema, compares it with the file, and decides by the mode
whether to refuse, to go on without writing, or to apply the changes in a write
transaction. Another process may have changed the file before that transaction
begins; then the decision is made again.
-/

namespace OverwatchTeams.ObjectStore

open SchemaChange Schema

variable {G V : Type} [Core G V]

/-! ## The source -/

structure Pending (G : Type) where
  group : G
  schemaVersion : Nat
  actualSchema : Schema
  requiredChanges : List SchemaChange

def Pending.of (partition : Partition SchemaChange) (schema : Schema) (g : G) : Pending G :=
  ⟨g, getSchemaVersion g, schemaFromGroup g, compare partition (schemaFromGroup g) schema false⟩

/-- `schema_change_needs_write_transaction`; `fresh` is the group of a new file, which
`reset_file` puts in the place of the old one. -/
def schemaChangeNeedsWriteTransaction (partition : Partition SchemaChange) (mode : SchemaMode)
    (fresh : G) (schema : Schema) (version : Nat) (p : Pending G) :
    Except SchemaException (Bool × Pending G) :=
  if version = p.schemaVersion ∧ p.requiredChanges = [] then .ok (false, p)
  else
    match mode with
    | .automatic =>
      if version < p.schemaVersion ∧ p.schemaVersion ≠ notVersioned then
        .error (.invalidSchemaVersion p.schemaVersion version)
      else .ok (true, p)
    | .immutable =>
      if version ≠ p.schemaVersion then .error (.invalidSchemaVersion p.schemaVersion version)
      else (verifyCompatibleForImmutableAndReadonly p.requiredChanges).map fun _ => (false, p)
    | .readOnlyAlternative =>
      (verifyCompatibleForImmutableAndReadonly p.requiredChanges).map fun _ => (false, p)
    | .resetFile =>
      if p.schemaVersion = notVersioned then .ok (true, p)
      else if p.schemaVersion = version ∧ needsMigration p.requiredChanges = false then
        .ok (true, p)
      else .ok (true, .of partition schema fresh)
    | .additive =>
      (verifyValidAdditiveChanges p.requiredChanges (version > p.schemaVersion)).map fun other =>
        (other || version ≠ p.schemaVersion, p)
    | .manual =>
      if version < p.schemaVersion ∧ p.schemaVersion ≠ notVersioned then
        .error (.invalidSchemaVersion p.schemaVersion version)
      else if version = p.schemaVersion then
        -- The changes are not empty, so that this throws.
        match verifyNoChangesRequired p.requiredChanges with
        | .error e => .error e
        | .ok () => .error .assertion
      else .ok (true, p)

structure Realm where
  schema : Schema
  schemaVersion : Nat

/-- The write transaction of `update_schema`. It is rolled back when something throws. -/
def writeSchema [DecidableEq V] (partition : Partition SchemaChange) (mode : SchemaMode)
    (migrationFunction : Option (Schema → G → Except SchemaException G)) (schema : Schema)
    (version : Nat) (p : Pending G) : G × Except SchemaException Realm :=
  match applySchemaChanges partition p.group p.schemaVersion schema version mode
      p.requiredChanges migrationFunction with
  | .error e => (p.group, .error e)
  | .ok g => (g, .ok ⟨setSchemaColumns g schema, getSchemaVersion g⟩)

def Pending.unchanged (schema : Schema) (p : Pending G) : G × Except SchemaException Realm :=
  (p.group, .ok ⟨schema.copyTableColumnsFrom p.actualSchema, p.schemaVersion⟩)

inductive Begun (G : Type) where
  | done (result : G × Except SchemaException Realm)
  | waits (p : Pending G)

def beginUpdate (partition : Partition SchemaChange) (mode : SchemaMode) (fresh : G)
    (schema : Schema) (version : Nat) (g : G) : Begun G :=
  match schema.validate with
  | .error e => .done (g, .error e)
  | .ok () =>
    match schemaChangeNeedsWriteTransaction partition mode fresh schema version
        (.of partition schema g) with
    | .error e => .done (g, .error e)
    | .ok (false, p) => .done (p.unchanged schema)
    | .ok (true, p) => .waits p

/-- The part of `update_schema` in the write transaction, which begins on the group `g`. Core
tells by `newSchema` that another process has changed the schema meanwhile; then the decision is
made again. -/
def updateInTransaction [DecidableEq V] (partition : Partition SchemaChange) (mode : SchemaMode)
    (fresh : G) (migrationFunction : Option (Schema → G → Except SchemaException G))
    (schema : Schema) (version : Nat) (p : Pending G) (g : G) (newSchema : Bool) :
    G × Except SchemaException Realm :=
  if newSchema then
    match schemaChangeNeedsWriteTransaction partition mode fresh schema version
        (.of partition schema g) with
    | .error e => (g, .error e)
    | .ok (false, p) => p.unchanged schema
    | .ok (true, p) => writeSchema partition mode migrationFunction schema version p
  else writeSchema partition mode migrationFunction schema version { p with group := g }

/-- `update_schema` for a Realm that has just been opened on the group `g`: the group
afterwards, and the Realm. If other processes have written before the write transaction
begins, `advanced` is the group they have left and whether core has told of a new schema. -/
def updateSchema [DecidableEq V] (partition : Partition SchemaChange) (mode : SchemaMode)
    (fresh : G) (migrationFunction : Option (Schema → G → Except SchemaException G)) (g : G)
    (advanced : Option (G × Bool)) (schema : Schema) (version : Nat) :
    G × Except SchemaException Realm :=
  match beginUpdate partition mode fresh schema version g with
  | .done result => result
  | .waits p =>
    let begun := advanced.getD (p.group, false)
    updateInTransaction partition mode fresh migrationFunction schema version p begun.1 begun.2

/-! ## Versions -/

section Versions

variable [LawfulCore G]

@[simp] theorem classView_setVersion (g : G) (version : Nat) :
    classView (Core.setVersion g version) = classView g := by
  funext n
  unfold classView tableForObjectType getPrimaryKeyForObject
  rw [LawfulCore.view_setVersion]

@[simp] theorem classView_createMetadataTables (g : G) :
    classView (createMetadataTables g) = classView g := by
  unfold createMetadataTables
  split
  · rfl
  · exact classView_setVersion g _

@[simp] theorem classView_setSchemaVersion (g : G) (version : Nat) :
    classView (setSchemaVersion g version) = classView g := by
  rw [setSchemaVersion, classView_setVersion, classView_createMetadataTables]

@[simp] theorem getSchemaVersion_setSchemaVersion (g : G) (version : Nat) :
    getSchemaVersion (setSchemaVersion g version) = version := by
  rw [getSchemaVersion, setSchemaVersion, LawfulCore.view_setVersion]
  rfl

@[simp] theorem getSchemaVersion_createMetadataTables (g : G) :
    getSchemaVersion (createMetadataTables g) = getSchemaVersion g := by
  unfold createMetadataTables
  split
  · rfl
  · next h =>
    rw [getSchemaVersion, LawfulCore.view_setVersion, getSchemaVersion]
    rw [Bool.not_eq_true, Option.isSome_eq_false_iff, Option.isNone_iff_eq_none] at h
    rw [h]
    rfl

omit [LawfulCore G] in
theorem getSchemaVersion_of_view {g g' : G} (h : (Core.view g').version = (Core.view g).version) :
    getSchemaVersion g' = getSchemaVersion g := congrArg (·.getD notVersioned) h

omit [LawfulCore G] in
theorem migrated_of_classView {g g' g'' : G} {target : Schema} (h : Migrated g g' target)
    (hview : classView g'' = classView g') : Migrated g g'' target :=
  ⟨fun t hmem => hview ▸ h.classes t hmem, fun n hn => hview ▸ h.others n hn⟩

end Versions

/-! ## Applying changes in the mode of the app -/

section Automatic

variable [LawfulCore G] [DecidableEq V] (partition : Partition SchemaChange) {g : G}
  {schema : Schema} {version : Nat}

/-- **A file without a version**, or one of the same version, when no migration is needed. -/
theorem applySchemaChanges_same (hs : schema.Storable) (hkeys : KeysHaveTables g)
    (hversion : getSchemaVersion g = notVersioned ∨ getSchemaVersion g = version)
    (hsame : needsMigration (compare partition (schemaFromGroup g) schema false) = false) :
    ∃ g', applySchemaChanges partition g (getSchemaVersion g) schema version .automatic
        (compare partition (schemaFromGroup g) schema false) none = .ok g' ∧
      getSchemaVersion g' = version ∧ Migrated g g' schema := by
  obtain ⟨g', hrun, hv, hmigrated⟩ := migrated_of_needsMigration partition
    (g := createMetadataTables g) hs hkeys hsame (classView_createMetadataTables g)
  have hread : getSchemaVersion g' = getSchemaVersion g :=
    (getSchemaVersion_of_view hv).trans (getSchemaVersion_createMetadataTables g)
  unfold applySchemaChanges
  by_cases hnot : getSchemaVersion g = notVersioned
  · refine ⟨setSchemaVersion g' version, ?_, getSchemaVersion_setSchemaVersion g' version,
      migrated_of_classView hmigrated (classView_setSchemaVersion g' version)⟩
    simp only [reduceCtorEq, if_false, hnot, if_true, createInitialTables, hrun]
    rfl
  · have hsame' : getSchemaVersion g = version := hversion.resolve_left hnot
    refine ⟨g', ?_, hread.trans hsame', hmigrated⟩
    simp only [reduceCtorEq, if_false, if_neg hnot, if_pos hsame']
    rw [applyNonMigrationChanges_eq hsame (removeTable_not_mem_compare partition hs.distinct g)]
    exact hrun

/-- **A file of another version.** -/
theorem applySchemaChanges_bump (hs : schema.Storable) (hkeys : KeysHaveTables g)
    (hlists : ListsStay g schema) (hnot : getSchemaVersion g ≠ notVersioned)
    (hversion : getSchemaVersion g ≠ version) :
    (∃ e, applySchemaChanges partition g (getSchemaVersion g) schema version .automatic
        (compare partition (schemaFromGroup g) schema false) none = .error e ∧ IsDuplicateKey e) ∨
    ∃ g', applySchemaChanges partition g (getSchemaVersion g) schema version .automatic
        (compare partition (schemaFromGroup g) schema false) none = .ok g' ∧
      getSchemaVersion g' = version ∧ Migrated g g' schema := by
  have hmigration := applyMigration_none partition (g := createMetadataTables g) hs hkeys hlists
    (classView_createMetadataTables g)
  unfold applySchemaChanges
  simp only [reduceCtorEq, if_false, if_neg hnot, if_neg hversion]
  rcases hmigration with ⟨e, he, hduplicate⟩ | ⟨g', hrun, -, hmigrated⟩
  · exact .inl ⟨e, by rw [he]; rfl, hduplicate⟩
  · exact .inr ⟨setSchemaVersion g' version, by rw [hrun]; rfl,
      getSchemaVersion_setSchemaVersion g' version,
      migrated_of_classView hmigrated (classView_setSchemaVersion g' version)⟩

omit [LawfulCore G] [DecidableEq V] in
theorem flatMap_schemaDifferenceExplainer (changes : List SchemaChange) :
    (changes.filter fun c => !handlesNonMigration c).flatMap schemaDifferenceExplainer =
      changes.flatMap migrationVerifier := by
  induction changes with
  | nil => rfl
  | cons c changes ih =>
    rw [List.flatMap_cons, ← ih]
    cases c <;> rfl

/-- **A file of the same version that needs a migration** is refused. -/
theorem applySchemaChanges_mismatch (hs : schema.Storable) (hkeys : KeysHaveTables g)
    (hnot : getSchemaVersion g ≠ notVersioned) (hversion : getSchemaVersion g = version)
    (hneeds : needsMigration (compare partition (schemaFromGroup g) schema false) = true) :
    ∃ errors, applySchemaChanges partition g (getSchemaVersion g) schema version .automatic
        (compare partition (schemaFromGroup g) schema false) none =
          .error (.schemaMismatch errors) ∧
      verifyNoMigrationRequired (compare partition (schemaFromGroup g) schema false) =
        .error (.schemaMismatch errors) := by
  obtain ⟨g', hrun, -⟩ := applyHandled_ok partition (g := createMetadataTables g) hs hkeys
    (classView_createMetadataTables g) handlesNonMigration (fun _ => ⟨rfl, rfl, fun _ => rfl⟩)
    (fun o p h => by cases h)
  have hverify : verifyNoMigrationRequired
      (compare partition (schemaFromGroup g) schema false) ≠ .ok () := by
    intro hok
    rw [← needsMigration_eq_false_iff, hneeds] at hok
    cases hok
  have herrors := (verifyNoErrors_cases .schemaMismatch migrationVerifier
    (compare partition (schemaFromGroup g) schema false)).resolve_left hverify
  refine ⟨_, ?_, herrors⟩
  unfold applySchemaChanges
  simp only [reduceCtorEq, if_false, if_neg hnot, if_pos hversion]
  unfold applyNonMigrationChanges
  rw [hrun]
  show (if _ then Except.ok g' else Except.error (SchemaException.schemaMismatch _)) = _
  rw [flatMap_schemaDifferenceExplainer, if_neg]
  intro hempty
  apply hverify
  unfold verifyNoMigrationRequired verifyNoErrors
  dsimp only
  rw [if_pos hempty]

end Automatic

/-! ## Opening a file in the mode of the app -/

structure OpenedFor (g g' : G) (schema : Schema) (version : Nat) (realm : Realm) : Prop where
  realmVersion : realm.schemaVersion = version
  fileVersion : getSchemaVersion g' = version
  migrated : Migrated g g' schema
  positioned : Plain g → schema.Positioned realm.schema g'

section Opening

variable [LawfulCore G] [DecidableEq V] (partition : Partition SchemaChange) (fresh : G) {g : G}
  {schema : Schema} {version : Nat}

/-- `Realm(configuration:)` without a migration block, on a file no one else opens. -/
abbrev openRealm (g : G) (schema : Schema) (version : Nat) : G × Except SchemaException Realm :=
  updateSchema partition .automatic fresh none g none schema version

omit [LawfulCore G] [DecidableEq V] in
theorem schemaChangeNeedsWriteTransaction_automatic (g : G) :
    schemaChangeNeedsWriteTransaction partition .automatic fresh schema version
        (.of partition schema g) =
      if version = getSchemaVersion g ∧ compare partition (schemaFromGroup g) schema false = [] then
        .ok (false, .of partition schema g)
      else if version < getSchemaVersion g ∧ getSchemaVersion g ≠ notVersioned then
        .error (.invalidSchemaVersion (getSchemaVersion g) version)
      else .ok (true, .of partition schema g) := rfl

omit [LawfulCore G] [DecidableEq V] in
theorem beginUpdate_automatic (hvalid : schema.validate = .ok ()) (g : G) :
    beginUpdate partition .automatic fresh schema version g =
      if version = getSchemaVersion g ∧ compare partition (schemaFromGroup g) schema false = [] then
        .done (g, .ok ⟨schema.copyTableColumnsFrom (schemaFromGroup g), getSchemaVersion g⟩)
      else if version < getSchemaVersion g ∧ getSchemaVersion g ≠ notVersioned then
        .done (g, .error (.invalidSchemaVersion (getSchemaVersion g) version))
      else .waits (.of partition schema g) := by
  unfold beginUpdate
  rw [hvalid, schemaChangeNeedsWriteTransaction_automatic]
  by_cases h1 : version = getSchemaVersion g ∧
      compare partition (schemaFromGroup g) schema false = []
  · rw [if_pos h1, if_pos h1]
    rfl
  · rw [if_neg h1, if_neg h1]
    by_cases h2 : version < getSchemaVersion g ∧ getSchemaVersion g ≠ notVersioned
    · rw [if_pos h2, if_pos h2]
    · rw [if_neg h2, if_neg h2]

omit [LawfulCore G] in
theorem openRealm_eq (hvalid : schema.validate = .ok ()) :
    openRealm partition fresh g schema version =
      if version = getSchemaVersion g ∧ compare partition (schemaFromGroup g) schema false = [] then
        (g, .ok ⟨schema.copyTableColumnsFrom (schemaFromGroup g), getSchemaVersion g⟩)
      else if version < getSchemaVersion g ∧ getSchemaVersion g ≠ notVersioned then
        (g, .error (.invalidSchemaVersion (getSchemaVersion g) version))
      else writeSchema partition .automatic none schema version (.of partition schema g) := by
  unfold openRealm updateSchema
  rw [beginUpdate_automatic partition fresh hvalid]
  by_cases h1 : version = getSchemaVersion g ∧
      compare partition (schemaFromGroup g) schema false = []
  · rw [if_pos h1, if_pos h1]
  · rw [if_neg h1, if_neg h1]
    by_cases h2 : version < getSchemaVersion g ∧ getSchemaVersion g ≠ notVersioned
    · rw [if_pos h2, if_pos h2]
    · rw [if_neg h2, if_neg h2]
      rfl

/-- **Opening a file without a version, or one of the same version**, when no migration is
needed. -/
theorem openRealm_same (hvalid : schema.validate = .ok ()) (hbuilt : ∀ o ∈ schema.classes, o.Built)
    (hkeys : KeysHaveTables g)
    (hversion : getSchemaVersion g = notVersioned ∨ getSchemaVersion g = version)
    (hsame : needsMigration (compare partition (schemaFromGroup g) schema false) = false) :
    ∃ g' realm, openRealm partition fresh g schema version = (g', .ok realm) ∧
      OpenedFor g g' schema version realm := by
  have hs := ((Schema.validate_ok_iff schema).1 hvalid).storable hbuilt
  rw [openRealm_eq partition fresh hvalid]
  by_cases h1 : version = getSchemaVersion g ∧
      compare partition (schemaFromGroup g) schema false = []
  · rw [if_pos h1]
    -- No change at all is a special case of no migration.
    obtain ⟨g', hrun, -, hmigrated⟩ := migrated_of_needsMigration partition hs hkeys hsame rfl
    rw [h1.2] at hrun
    obtain rfl : g = g' := Except.ok.inj hrun
    exact ⟨g, _, rfl, h1.1.symm, h1.1.symm, hmigrated,
      fun _ => positioned_copyTableColumnsFrom hs hmigrated⟩
  · have h2 : ¬(version < getSchemaVersion g ∧ getSchemaVersion g ≠ notVersioned) := by
      rintro ⟨hlt, hnot⟩
      exact hlt.ne' (hversion.resolve_left hnot)
    rw [if_neg h1, if_neg h2]
    obtain ⟨g', hrun, hv, hmigrated⟩ := applySchemaChanges_same partition hs hkeys hversion hsame
    unfold writeSchema
    dsimp only [Pending.of]
    rw [hrun]
    exact ⟨g', _, rfl, hv, hv, hmigrated,
      fun hplain => positioned_setSchemaColumns hs hmigrated (hmigrated.plain hplain)⟩

/-- **Opening a file of the same version that needs a migration**: it is refused and left as
it was. -/
theorem openRealm_mismatch (hvalid : schema.validate = .ok ())
    (hbuilt : ∀ o ∈ schema.classes, o.Built) (hkeys : KeysHaveTables g)
    (hnot : getSchemaVersion g ≠ notVersioned) (hversion : getSchemaVersion g = version)
    (hneeds : needsMigration (compare partition (schemaFromGroup g) schema false) = true) :
    ∃ errors, openRealm partition fresh g schema version = (g, .error (.schemaMismatch errors)) ∧
      verifyNoMigrationRequired (compare partition (schemaFromGroup g) schema false) =
        .error (.schemaMismatch errors) := by
  have hs := ((Schema.validate_ok_iff schema).1 hvalid).storable hbuilt
  obtain ⟨errors, hrun, hverify⟩ :=
    applySchemaChanges_mismatch partition hs hkeys hnot hversion hneeds
  refine ⟨errors, ?_, hverify⟩
  rw [openRealm_eq partition fresh hvalid, if_neg, if_neg (by omega)]
  · unfold writeSchema
    dsimp only [Pending.of]
    rw [hrun]
  · rintro ⟨-, hnil⟩
    rw [hnil] at hneeds
    cases hneeds

/-- **Opening a file of an older version.** -/
theorem openRealm_bump (hvalid : schema.validate = .ok ()) (hbuilt : ∀ o ∈ schema.classes, o.Built)
    (hkeys : KeysHaveTables g) (hlists : ListsStay g schema)
    (hnot : getSchemaVersion g ≠ notVersioned) (hversion : getSchemaVersion g < version) :
    (∃ e, openRealm partition fresh g schema version = (g, .error e) ∧ IsDuplicateKey e) ∨
    ∃ g' realm, openRealm partition fresh g schema version = (g', .ok realm) ∧
      OpenedFor g g' schema version realm := by
  have hs := ((Schema.validate_ok_iff schema).1 hvalid).storable hbuilt
  rw [openRealm_eq partition fresh hvalid, if_neg (by omega), if_neg (by omega)]
  unfold writeSchema
  dsimp only [Pending.of]
  rcases applySchemaChanges_bump partition hs hkeys hlists hnot hversion.ne with
    ⟨e, he, hduplicate⟩ | ⟨g', hrun, hv, hmigrated⟩
  · rw [he]
    exact .inl ⟨e, rfl, hduplicate⟩
  · rw [hrun]
    exact .inr ⟨g', _, rfl, hv, hv, hmigrated,
      fun hplain => positioned_setSchemaColumns hs hmigrated (hmigrated.plain hplain)⟩

omit [LawfulCore G] in
theorem openRealm_older (hvalid : schema.validate = .ok ())
    (hnot : getSchemaVersion g ≠ notVersioned) (hversion : version < getSchemaVersion g) :
    openRealm partition fresh g schema version =
      (g, .error (.invalidSchemaVersion (getSchemaVersion g) version)) := by
  rw [openRealm_eq partition fresh hvalid, if_neg (by omega), if_pos ⟨hversion, hnot⟩]

omit [LawfulCore G] in
theorem writeSchema_resetFile (p : Pending G) :
    writeSchema partition .resetFile none schema version p =
      writeSchema partition .automatic none schema version p := by
  unfold writeSchema applySchemaChanges
  simp only [reduceCtorEq, if_false]

omit [LawfulCore G] in
/-- **Opening in the mode that resets the file**, for a valid schema. -/
theorem updateSchema_resetFile (hvalid : schema.validate = .ok ()) :
    updateSchema partition .resetFile fresh none g none schema version =
      if version = getSchemaVersion g ∧ compare partition (schemaFromGroup g) schema false = [] then
        (g, .ok ⟨schema.copyTableColumnsFrom (schemaFromGroup g), getSchemaVersion g⟩)
      else if getSchemaVersion g = notVersioned ∨ getSchemaVersion g = version ∧
          needsMigration (compare partition (schemaFromGroup g) schema false) = false then
        writeSchema partition .automatic none schema version (.of partition schema g)
      else writeSchema partition .automatic none schema version (.of partition schema fresh) := by
  unfold updateSchema beginUpdate
  rw [hvalid]
  dsimp only [schemaChangeNeedsWriteTransaction, Pending.of]
  by_cases h1 : version = getSchemaVersion g ∧
      compare partition (schemaFromGroup g) schema false = []
  · rw [if_pos h1, if_pos h1]
    rfl
  · rw [if_neg h1, if_neg h1]
    by_cases h2 : getSchemaVersion g = notVersioned
    · rw [if_pos h2, if_pos (.inl h2)]
      exact writeSchema_resetFile partition _
    · by_cases h3 : getSchemaVersion g = version ∧
          needsMigration (compare partition (schemaFromGroup g) schema false) = false
      · rw [if_neg h2, if_pos h3, if_pos (.inr h3)]
        exact writeSchema_resetFile partition _
      · rw [if_neg h2, if_neg h3, if_neg (by rintro (h | h); exacts [h2 h, h3 h])]
        exact writeSchema_resetFile partition _

end Opening

end OverwatchTeams.ObjectStore
