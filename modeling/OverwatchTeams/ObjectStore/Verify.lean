import OverwatchTeams.ObjectStore.Compare

/-!
# What a comparison allows

Before the object store changes a file it hands the changes to one of several
verifiers. They differ in the changes they accept; what one does not accept it
explains by a message, and it throws when there is a message. For the changes of
a comparison the verdicts say something about the file: no migration is required
exactly when every class it has stores the same columns (`needsMigration_iff`), and
"no changes required" holds of the empty list only (`verifyNoChangesRequired_iff`).
-/

namespace OverwatchTeams.ObjectStore

open SchemaChange

/-- What opening a Realm can throw. `assertion` stands for a failed `REALM_ASSERT` and for
calls into core that the source does not guard. -/
inductive SchemaException where
  | schemaValidation (errors : List String)
  | schemaMismatch (errors : List String)
  | invalidSchemaChange (errors : List String)
  | invalidExternalSchemaChange (errors : List String)
  | invalidSchemaVersion (oldVersion newVersion : Nat)
  | duplicatePrimaryKeyValue (objectType property : String)
  | logicError (message : String)
  | assertion
  deriving DecidableEq, Repr

/-! ## The verifiers -/

def schemaDifferenceExplainer : SchemaChange → List String
  | addTable object => ["Class '" ++ object.name ++ "' has been added."]
  | removeTable _ => []
  -- Always preceded by an `addTable`.
  | addInitialProperties _ => []
  | addProperty object property =>
    ["Property '" ++ object.name ++ "." ++ property.name ++ "' has been added."]
  | removeProperty object property =>
    ["Property '" ++ object.name ++ "." ++ property.name ++ "' has been removed."]
  | changePropertyType object oldProperty newProperty =>
    ["Property '" ++ object.name ++ "." ++ newProperty.name ++ "' has been changed from '" ++
      oldProperty.typeString ++ "' to '" ++ newProperty.typeString ++ "'."]
  | makePropertyNullable object property =>
    ["Property '" ++ object.name ++ "." ++ property.name ++ "' has been made optional."]
  | makePropertyRequired object property =>
    ["Property '" ++ object.name ++ "." ++ property.name ++ "' has been made required."]
  | changePrimaryKey object property =>
    match property with
    | some property =>
      if object.primaryKey ≠ "" then
        ["Primary Key for class '" ++ object.name ++ "' has changed from '" ++ object.primaryKey ++
          "' to '" ++ property.name ++ "'."]
      else ["Primary Key for class '" ++ object.name ++ "' has been added."]
    | none => ["Primary Key for class '" ++ object.name ++ "' has been removed."]
  | addIndex object property =>
    ["Property '" ++ object.name ++ "." ++ property.name ++ "' has been made indexed."]
  | removeIndex object property =>
    ["Property '" ++ object.name ++ "." ++ property.name ++ "' has been made unindexed."]

def verifyNoErrors (exception : List String → SchemaException)
    (verifier : SchemaChange → List String) (changes : List SchemaChange) :
    Except SchemaException Unit :=
  let errors := changes.flatMap verifier
  if errors.isEmpty then .ok () else .error (exception errors)

def needsMigration (changes : List SchemaChange) : Bool :=
  changes.any fun
    | addIndex _ _ | addInitialProperties _ | addTable _ | removeTable _ | removeIndex _ _ => false
    | addProperty _ _ | changePrimaryKey _ _ | changePropertyType _ _ _ | makePropertyNullable _ _
    | makePropertyRequired _ _ | removeProperty _ _ => true

def verifyNoChangesRequired (changes : List SchemaChange) : Except SchemaException Unit :=
  verifyNoErrors .schemaMismatch schemaDifferenceExplainer changes

/-- The `Verifier` of `verify_no_migration_required`. -/
def migrationVerifier : SchemaChange → List String
  | addTable _ | addInitialProperties _ | addIndex _ _ | removeIndex _ _ => []
  | change => schemaDifferenceExplainer change

def verifyNoMigrationRequired (changes : List SchemaChange) : Except SchemaException Unit :=
  verifyNoErrors .schemaMismatch migrationVerifier changes

/-- The `Verifier` of `verify_valid_additive_changes`. -/
def additiveVerifier : SchemaChange → List String
  | addTable _ | addInitialProperties _ | addProperty _ _ | removeProperty _ _ | addIndex _ _
  | removeIndex _ _ => []
  | change => schemaDifferenceExplainer change

/-- The changes that set `other_changes` in the `Verifier` of additive changes. -/
def setsOtherChanges : SchemaChange → Bool
  | addTable _ | addInitialProperties _ | addProperty _ _ => true
  | _ => false

def verifyValidAdditiveChanges (changes : List SchemaChange) (updateIndexes : Bool) :
    Except SchemaException Bool := do
  verifyNoErrors .invalidSchemaChange additiveVerifier changes
  return changes.any setsOtherChanges || (changes.any isIndexChange && updateIndexes)

/-- The `Verifier` of `verify_valid_external_changes`. -/
def externalVerifier : SchemaChange → List String
  | addTable _ | addInitialProperties _ | addProperty _ _ | addIndex _ _ | removeIndex _ _ => []
  | removeTable object => ["Class '" ++ object.name ++ "' has been removed."]
  | change => schemaDifferenceExplainer change

def verifyValidExternalChanges (changes : List SchemaChange) : Except SchemaException Unit :=
  verifyNoErrors .invalidExternalSchemaChange externalVerifier changes

/-- The `Verifier` of `verify_compatible_for_immutable_and_readonly`. -/
def readOnlyVerifier : SchemaChange → List String
  | addTable _ | addInitialProperties _ | removeProperty _ _ | addIndex _ _ | removeIndex _ _ => []
  | change => schemaDifferenceExplainer change

def verifyCompatibleForImmutableAndReadonly (changes : List SchemaChange) :
    Except SchemaException Unit :=
  verifyNoErrors .invalidSchemaChange readOnlyVerifier changes

/-! ## Verdicts -/

theorem verifyNoErrors_ok_iff {exception : List String → SchemaException}
    {verifier : SchemaChange → List String} {changes : List SchemaChange} :
    verifyNoErrors exception verifier changes = .ok () ↔ ∀ c ∈ changes, verifier c = [] := by
  unfold verifyNoErrors
  rw [← List.flatMap_eq_nil_iff, ← List.isEmpty_iff]
  dsimp only
  split
  · next h => simp [h]
  · next h => simp [h]

theorem verifyNoErrors_cases (exception : List String → SchemaException)
    (verifier : SchemaChange → List String) (changes : List SchemaChange) :
    verifyNoErrors exception verifier changes = .ok () ∨
      verifyNoErrors exception verifier changes =
        .error (exception (changes.flatMap verifier)) := by
  unfold verifyNoErrors
  dsimp only
  split
  · exact .inl rfl
  · exact .inr rfl

theorem schemaDifferenceExplainer_eq_nil_iff {c : SchemaChange} :
    schemaDifferenceExplainer c = [] ↔
      (∃ object, c = removeTable object) ∨ ∃ object, c = addInitialProperties object := by
  cases c with
  | changePrimaryKey object property =>
    cases property with
    | none => simp [schemaDifferenceExplainer]
    | some property =>
      by_cases h : object.primaryKey = "" <;> simp [schemaDifferenceExplainer, h]
  | _ => simp [schemaDifferenceExplainer]

theorem needsMigration_eq_false_iff {changes : List SchemaChange} :
    needsMigration changes = false ↔ verifyNoMigrationRequired changes = .ok () := by
  rw [verifyNoMigrationRequired, verifyNoErrors_ok_iff, needsMigration, List.any_eq_false]
  refine forall₂_congr fun c _ => ?_
  have hexplained := schemaDifferenceExplainer_eq_nil_iff (c := c)
  cases c <;> simp_all [migrationVerifier]

/-- For the changes of two tables only those of indexes need no migration. -/
theorem needsMigration_tableChanges {e t : ObjectSchema} :
    needsMigration (tableChanges e t) = false ↔ SameTable e t := by
  rw [← tableChanges_index_iff, needsMigration, List.any_eq_false]
  refine forall₂_congr fun c hc => ?_
  have htable := isTableChange_of_mem_tableChanges hc
  cases c with
  | addTable o => cases htable
  | removeTable o => cases htable
  | addInitialProperties o => cases htable
  | _ => simp [isIndexChange]

theorem needsMigration_append (xs ys : List SchemaChange) :
    needsMigration (xs ++ ys) = (needsMigration xs || needsMigration ys) := List.any_append

theorem needsMigration_perm {xs ys : List SchemaChange} (h : xs.Perm ys) :
    needsMigration xs = needsMigration ys := by
  unfold needsMigration
  rw [Bool.eq_iff_iff, List.any_eq_true, List.any_eq_true]
  simp only [h.mem_iff]

section Comparison

variable {existing target : Schema}

theorem needsMigration_compare_eq_false_iff (partition : Partition SchemaChange)
    (he : existing.Distinct) (ht : target.Distinct) (includeTableRemovals : Bool) :
    needsMigration (Schema.compare partition existing target includeTableRemovals) = false ↔
      ∀ t ∈ target.classes, ∀ e, existing.find t.name = some e → SameTable e t := by
  have hmissing : needsMigration (Schema.missing existing target includeTableRemovals) = false := by
    rw [needsMigration, List.any_eq_false]
    intro c hc
    rcases Schema.mem_missing_of_visit hc with ⟨t, rfl⟩ | ⟨e, rfl⟩ <;> simp
  rw [needsMigration_perm (Schema.compare_perm partition he ht includeTableRemovals),
    needsMigration_append, hmissing, Bool.false_or, needsMigration, List.any_flatMap,
    List.any_eq_false]
  refine forall₂_congr fun t _ => ?_
  rw [Bool.not_eq_true]
  show needsMigration (existing.changesFor t) = false ↔ _
  unfold Schema.changesFor
  cases existing.find t.name with
  | none => simp [needsMigration]
  | some e => simp [needsMigration_tableChanges]

/-- **When a migration is needed.** The changes between the file and the program need a
migration if and only if the file has a class of the program with other columns or
another primary key; these are the changes that `verify_no_migration_required` throws for. -/
theorem needsMigration_iff (partition : Partition SchemaChange) (he : existing.Distinct)
    (ht : target.Distinct) (includeTableRemovals : Bool) :
    (needsMigration (Schema.compare partition existing target includeTableRemovals) = true ↔
      ∃ t ∈ target.classes, ∃ e, existing.find t.name = some e ∧ ¬ SameTable e t) ∧
    (needsMigration (Schema.compare partition existing target includeTableRemovals) = true ↔
      ∃ errors, verifyNoMigrationRequired
        (Schema.compare partition existing target includeTableRemovals) =
          .error (.schemaMismatch errors)) := by
  have hfalse := needsMigration_compare_eq_false_iff partition he ht includeTableRemovals
  constructor
  · rw [← Bool.not_eq_false, hfalse]
    push Not
    rfl
  · rw [← Bool.not_eq_false, needsMigration_eq_false_iff]
    rcases verifyNoErrors_cases .schemaMismatch migrationVerifier
      (Schema.compare partition existing target includeTableRemovals) with h | h
    · rw [verifyNoMigrationRequired, h]
      simp
    · rw [verifyNoMigrationRequired, h]
      simp

theorem mem_compare_table (partition : Partition SchemaChange) (he : existing.Distinct)
    (ht : target.Distinct) {c : SchemaChange} (hc : c.isTableChange) :
    c ∈ Schema.compare partition existing target false ↔
      ∃ t ∈ target.classes, existing.find t.name = none ∧
        (c = addTable t ∨ c = addInitialProperties t) := by
  rw [(Schema.compare_perm partition he ht false).mem_iff, List.mem_append,
    Schema.missing_eq he ht, List.mem_map, List.mem_flatMap, ← exists_or]
  refine exists_congr fun t => ?_
  rw [List.mem_filter, Option.isNone_iff_eq_none]
  unfold Schema.changesFor
  cases hfind : existing.find t.name with
  | none => simp [eq_comm (a := c), and_or_left]
  | some e =>
    have hnot : c ∉ tableChanges e t := fun h => by
      rw [isTableChange_of_mem_tableChanges h] at hc
      cases hc
    simp [hnot]

/-- **No changes are required when there are none.** A comparison without removals of
tables that finds something is refused by `verify_no_changes_required`: what the
explainer passes over, the properties of a new table, comes with the table itself. -/
theorem verifyNoChangesRequired_iff (partition : Partition SchemaChange) (he : existing.Distinct)
    (ht : target.Distinct) :
    verifyNoChangesRequired (Schema.compare partition existing target false) = .ok () ↔
      Schema.compare partition existing target false = [] := by
  rw [verifyNoChangesRequired, verifyNoErrors_ok_iff]
  constructor
  · intro h
    rw [List.eq_nil_iff_forall_not_mem]
    intro c hc
    rcases schemaDifferenceExplainer_eq_nil_iff.1 (h c hc) with ⟨o, rfl⟩ | ⟨o, rfl⟩
    · -- Removals of tables were not asked for.
      obtain ⟨t, -, -, h | h⟩ := (mem_compare_table partition he ht rfl).1 hc <;> cases h
    · -- The table of the new properties is added too.
      obtain ⟨t, hmem, hnone, -⟩ := (mem_compare_table partition he ht rfl).1 hc
      have htable : addTable t ∈ Schema.compare partition existing target false :=
        (mem_compare_table partition he ht rfl).2 ⟨t, hmem, hnone, .inl rfl⟩
      cases h _ htable
  · intro h
    simp [h]

end Comparison

end OverwatchTeams.ObjectStore
