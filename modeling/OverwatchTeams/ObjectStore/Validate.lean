import OverwatchTeams.ObjectStore.SchemaChanges

/-!
# Validating a schema

Before a file is touched the schema of the program is validated. `Schema.validate`
collects the messages of all checks and throws when there is one. The checks look at
sorted names and at one property at a time with the primary key found so far; taken
together they accept exactly the schemas of `Schema.Valid` (`validate_ok_iff`).

A valid schema can be stored in a file if it is built as the binding builds it
(`ObjectSchema.Built`): the checks say nothing about empty names, about the flag
of the primary key and the name of the primary key agreeing, and about indexes of lists.
-/

namespace OverwatchTeams.ObjectStore

/-! ## The source -/

/-- The elements that `std::adjacent_find` stops at, looking on from the next one. -/
def adjacentDuplicates : List String → List String
  | a :: b :: rest =>
    if a = b then a :: adjacentDuplicates (b :: rest) else adjacentDuplicates (b :: rest)
  | _ => []

/-- `for_each_duplicate` looks on behind both elements. -/
def forEachDuplicate : List String → List String
  | a :: b :: rest => if a = b then a :: forEachDuplicate rest else forEachDuplicate (b :: rest)
  | _ => []

def sortNames (names : List String) : List String := names.mergeSort fun a b => a ≤ b

def setIntersection (as bs : List String) : List String :=
  (MergeJoin.lefts (MergeJoin.walk id id as bs)).filterMap fun v => v.2.map fun _ => v.1

def validateLink (schema : Schema) (objectName : String) (prop : Property) : List String :=
  if prop.type.base ≠ .object ∧ prop.type.base ≠ .linkingObjects then
    if prop.objectType ≠ "" then
      ["Property '" ++ objectName ++ "." ++ prop.name ++ "' of type '" ++ prop.typeString ++
        "' cannot have an object type."]
    else []
  else
    match schema.find prop.objectType with
    | none =>
      ["Property '" ++ objectName ++ "." ++ prop.name ++ "' of type '" ++
        stringForPropertyType prop.type ++ "' has unknown object type '" ++ prop.objectType ++ "'"]
    | some target =>
      if prop.type.base ≠ .linkingObjects then []
      else
        let origin := "Property '" ++ prop.objectType ++ "." ++ prop.linkOriginPropertyName ++
          "' declared as origin of linking objects property '" ++ objectName ++ "." ++
          prop.name ++ "'"
        match target.propertyForName prop.linkOriginPropertyName with
        | none => [origin ++ " does not exist"]
        | some originProperty =>
          if originProperty.type.base ≠ .object then [origin ++ " is not a link"]
          else if originProperty.objectType ≠ objectName then
            [origin ++ " links to type '" ++ originProperty.objectType ++ "'"]
          else []

/-- `validate_property`; `primary` is the primary key found so far. -/
def validateProperty (schema : Schema) (objectName : String) (prop : Property)
    (primary : Option Property) : List String :=
  let property := "Property '" ++ objectName ++ "." ++ prop.name ++ "'"
  let typed := property ++ " of type '" ++ stringForPropertyType prop.type ++ "'"
  (if prop.type.base = .linkingObjects ∧ prop.type.array = false then
    ["Linking Objects property '" ++ objectName ++ "." ++ prop.name ++ "' must be an array."]
   else []) ++
  (if prop.type.nullable = true ∧ prop.typeIsNullable = false then [typed ++ " cannot be nullable."]
   else if prop.type.base = .object ∧ prop.type.nullable = false ∧ prop.type.array = false then
    [property ++ " of type 'object' must be nullable."]
   else []) ++
  (if prop.isPrimary = true ∧ prop.type.base ≠ .int ∧ prop.type.base ≠ .string then
    [typed ++ " cannot be made the primary key."]
   else []) ++
  (if prop.isPrimary then
    primary.toList.map fun p => "Properties '" ++ prop.name ++ "' and '" ++ p.name ++
      "' are both marked as the primary key of '" ++ objectName ++ "'."
   else []) ++
  (if prop.isIndexed = true ∧ prop.typeIsIndexable = false then [typed ++ " cannot be indexed."]
   else []) ++
  (if prop.type.base ≠ .linkingObjects ∧ prop.linkOriginPropertyName ≠ "" then
    [typed ++ " cannot have an origin property name."]
   else if prop.type.base = .linkingObjects ∧ prop.linkOriginPropertyName = "" then
    [typed ++ " must have an origin property name."]
   else []) ++
  validateLink schema objectName prop

/-- The loops over the properties: the messages, and the last primary key. -/
def validateProperties (schema : Schema) (objectName : String) :
    Option Property → List Property → List String × Option Property
  | primary, [] => ([], primary)
  | primary, p :: ps =>
    let next := validateProperties schema objectName (if p.isPrimary then some p else primary) ps
    (validateProperty schema objectName p primary ++ next.1, next.2)

namespace ObjectSchema

def properties (o : ObjectSchema) : List Property := o.persistedProperties ++ o.computedProperties

def propertyForPublicName (o : ObjectSchema) (publicName : String) : Option Property :=
  (o.persistedProperties.find? fun p =>
      p.publicName = publicName || (p.publicName = "" && p.name = publicName)).or
    (o.computedProperties.find? fun p =>
      (if p.publicName = "" then p.name else p.publicName) = publicName)

def publicPropertyNames (o : ObjectSchema) : List String :=
  (o.properties.filter fun p => p.publicName ≠ "").map Property.publicName

def validate (o : ObjectSchema) (schema : Schema) : List String :=
  let publicNames := sortNames o.publicPropertyNames
  let internalNames := sortNames (o.properties.map Property.name)
  let checked := validateProperties schema o.name none o.properties
  (forEachDuplicate publicNames).map (fun n =>
    "Alias '" ++ n ++ "' appears more than once in the schema for type '" ++ o.name ++ "'.") ++
  (forEachDuplicate internalNames).map (fun n =>
    "Property '" ++ n ++ "' appears more than once in the schema for type '" ++ o.name ++ "'.") ++
  (setIntersection publicNames internalNames).map (fun n =>
    "Property '" ++ o.name ++ "." ++ (o.propertyForPublicName n).elim "" Property.name ++
      "' has an alias '" ++ n ++ "' that conflicts with a property of the same name.") ++
  checked.1 ++
  (if o.primaryKey ≠ "" ∧ checked.2 = none ∧ o.primaryKeyProperty = none then
    ["Specified primary key '" ++ o.name ++ "." ++ o.primaryKey ++ "' does not exist."]
   else [])

end ObjectSchema

def Schema.validate (s : Schema) : Except SchemaException Unit :=
  let exceptions := (adjacentDuplicates (s.classes.map ObjectSchema.name)).map (fun n =>
    "Type '" ++ n ++ "' appears more than once in the schema.") ++
    s.classes.flatMap fun o => o.validate s
  if exceptions.isEmpty then .ok () else .error (.schemaValidation exceptions)

/-! ## What is valid -/

structure Property.Valid (schema : Schema) (objectName : String) (p : Property) : Prop where
  linkingObjects : p.type.base = .linkingObjects → p.type.array = true
  nullable : p.type.nullable = true → p.typeIsNullable = true
  link : p.type.base = .object → p.type.array = false → p.type.nullable = true
  primary : p.isPrimary = true → p.type.base = .int ∨ p.type.base = .string
  index : p.isIndexed = true → p.typeIsIndexable = true
  origin : p.type.base = .linkingObjects ↔ p.linkOriginPropertyName ≠ ""
  objectType : p.type.base ≠ .object → p.type.base ≠ .linkingObjects → p.objectType = ""
  target : p.type.base = .object ∨ p.type.base = .linkingObjects → schema.Has p.objectType
  back : p.type.base = .linkingObjects → ∀ o, schema.find p.objectType = some o →
    ∃ q, o.propertyForName p.linkOriginPropertyName = some q ∧ q.type.base = .object ∧
      q.objectType = objectName

structure ObjectSchema.Valid (schema : Schema) (o : ObjectSchema) : Prop where
  aliases : o.publicPropertyNames.Nodup
  names : (o.properties.map Property.name).Nodup
  conflicts : ∀ n ∈ o.publicPropertyNames, n ∉ o.properties.map Property.name
  properties : ∀ p ∈ o.properties, p.Valid schema o.name
  primary : (o.properties.filter Property.isPrimary).length ≤ 1
  primaryKey : o.primaryKey ≠ "" →
    (∃ p ∈ o.properties, p.isPrimary = true) ∨ (o.primaryKeyProperty).isSome

structure Schema.Valid (s : Schema) : Prop where
  distinct : s.Distinct
  classes : ∀ o ∈ s.classes, o.Valid s

/-! ## Sorted names -/

theorem adjacentDuplicates_eq_nil_iff {names : List String} (h : names.Pairwise (· ≤ ·)) :
    adjacentDuplicates names = [] ↔ names.Pairwise (· < ·) := by
  induction names with
  | nil => simp [adjacentDuplicates]
  | cons a names ih =>
    cases names with
    | nil => simp [adjacentDuplicates]
    | cons b rest =>
      obtain ⟨hab, hrest⟩ := List.pairwise_cons.1 h
      rw [adjacentDuplicates]
      split
      · next heq =>
        refine ⟨fun hnil => (by cases hnil), fun hlt => ?_⟩
        have := (List.pairwise_cons.1 hlt).1 b List.mem_cons_self
        exact absurd heq this.ne
      · next hne =>
        have hlt : a < b := lt_of_le_of_ne (hab b List.mem_cons_self) hne
        rw [ih hrest, List.pairwise_cons (a := a), iff_and_self]
        intro hstrict c hc
        rcases List.mem_cons.1 hc with rfl | hc
        · exact hlt
        · exact hlt.trans ((List.pairwise_cons.1 hstrict).1 c hc)

/-- It does not matter where the search goes on. -/
theorem forEachDuplicate_eq_nil_iff (names : List String) :
    forEachDuplicate names = [] ↔ adjacentDuplicates names = [] := by
  induction names with
  | nil => rfl
  | cons a names ih =>
    cases names with
    | nil => rfl
    | cons b rest =>
      rw [forEachDuplicate, adjacentDuplicates]
      split
      · simp
      · exact ih

theorem sortNames_sorted (names : List String) : (sortNames names).Pairwise (· ≤ ·) := by
  refine (List.pairwise_mergeSort ?_ ?_ names).imp (by simp)
  · intro a b c h1 h2
    simp only [decide_eq_true_eq] at h1 h2 ⊢
    exact h1.trans h2
  · intro a b
    simpa using le_total a b

theorem pairwise_lt_iff_nodup {names : List String} (h : names.Pairwise (· ≤ ·)) :
    names.Pairwise (· < ·) ↔ names.Nodup :=
  ⟨fun hlt => hlt.imp fun h => h.ne, fun hne => (h.and hne).imp fun h => lt_of_le_of_ne h.1 h.2⟩

/-- **Duplicates are found.** -/
theorem forEachDuplicate_sortNames {names : List String} :
    forEachDuplicate (sortNames names) = [] ↔ names.Nodup := by
  have hsorted := sortNames_sorted names
  rw [forEachDuplicate_eq_nil_iff, adjacentDuplicates_eq_nil_iff hsorted,
    pairwise_lt_iff_nodup hsorted]
  exact (List.mergeSort_perm _ _).nodup_iff

theorem setIntersection_eq_nil_iff {as bs : List String} (ha : as.Pairwise (· < ·))
    (hb : bs.Pairwise (· < ·)) : setIntersection as bs = [] ↔ ∀ n ∈ as, n ∉ bs := by
  have hleft : MergeJoin.lefts (MergeJoin.walk id id as bs) =
      as.map fun x => (x, bs.find? fun y => id y = id x) := MergeJoin.walk_left ha hb
  unfold setIntersection
  rw [hleft, List.filterMap_eq_nil_iff]
  simp only [List.mem_map, forall_exists_index, and_imp, forall_apply_eq_imp_iff₂, id_eq,
    Option.map_eq_none_iff, List.find?_eq_none, decide_eq_true_eq]
  exact ⟨fun h n hn hmem => h n hn n hmem rfl, fun h n hn b hb heq => h n hn (heq ▸ hb)⟩

/-! ## One property -/

theorem ite_eq_nil_iff {c : Prop} [Decidable c] {message : String} {rest : List String} :
    (if c then [message] else rest) = [] ↔ ¬ c ∧ rest = [] := by
  split
  · next h => simp [h]
  · next h => simp [h]

theorem validateLink_eq_nil_iff {schema : Schema} {objectName : String} {p : Property} :
    validateLink schema objectName p = [] ↔
      (p.type.base ≠ .object → p.type.base ≠ .linkingObjects → p.objectType = "") ∧
      (p.type.base = .object ∨ p.type.base = .linkingObjects → schema.Has p.objectType) ∧
      (p.type.base = .linkingObjects → ∀ o, schema.find p.objectType = some o →
        ∃ q, o.propertyForName p.linkOriginPropertyName = some q ∧ q.type.base = .object ∧
          q.objectType = objectName) := by
  unfold validateLink Schema.Has
  by_cases hlink : p.type.base ≠ .object ∧ p.type.base ≠ .linkingObjects
  · rw [if_pos hlink, ite_eq_nil_iff]
    simp [hlink.1, hlink.2]
  · rw [if_neg hlink]
    have hlink' : p.type.base = .object ∨ p.type.base = .linkingObjects := by
      by_contra hnot
      exact hlink (not_or.1 hnot)
    have hfirst : (p.type.base ≠ .object → p.type.base ≠ .linkingObjects → p.objectType = "") :=
      fun h1 h2 => absurd ⟨h1, h2⟩ hlink
    cases hfind : schema.find p.objectType with
    | none => simp [hlink']
    | some target =>
      by_cases hback : p.type.base = .linkingObjects
      · cases horigin : target.propertyForName p.linkOriginPropertyName with
        | none => simp [hback, horigin]
        | some q =>
          simp only [hback, ne_eq, not_true_eq_false, if_false, ite_eq_nil_iff, not_not,
            Option.isSome_some, Option.some.injEq, forall_eq', horigin, exists_eq_left']
          simp
      · simp only [hback, ne_eq, not_false_eq_true, if_true, true_iff]
        exact ⟨fun h1 _ => hfirst h1 hback, fun _ => rfl, nofun⟩

theorem validateProperty_eq_nil_iff {schema : Schema} {objectName : String} {p : Property}
    {primary : Option Property} :
    validateProperty schema objectName p primary = [] ↔
      p.Valid schema objectName ∧ (p.isPrimary = true → primary = none) := by
  have hprimary : (if p.isPrimary then primary.toList.map fun q =>
      "Properties '" ++ p.name ++ "' and '" ++ q.name ++
        "' are both marked as the primary key of '" ++ objectName ++ "'."
      else []) = [] ↔ (p.isPrimary = true → primary = none) := by
    split
    · next h => simp [h]
    · next h => simp [h]
  unfold validateProperty
  dsimp only
  simp only [List.append_eq_nil_iff, validateLink_eq_nil_iff, hprimary, ite_eq_nil_iff, and_true]
  constructor
  · rintro ⟨⟨⟨⟨⟨⟨h1, h2, h3⟩, h4⟩, h5⟩, h6⟩, h7, h8⟩, h9, h10, h11⟩
    refine ⟨⟨?_, ?_, ?_, ?_, ?_, ?_, h9, h10, h11⟩, h5⟩ <;> grind
  · rintro ⟨h, h5⟩
    obtain ⟨h1, h2, h3, h4, h6, h7, h9, h10, h11⟩ := h
    refine ⟨⟨⟨⟨⟨⟨?_, ?_, ?_⟩, ?_⟩, h5⟩, ?_⟩, ?_, ?_⟩, h9, h10, h11⟩ <;> grind

/-! ## All properties of a class -/

theorem validateProperties_eq_nil_iff (schema : Schema) (objectName : String) (ps : List Property)
    (primary : Option Property) :
    (validateProperties schema objectName primary ps).1 = [] ↔
      (∀ p ∈ ps, p.Valid schema objectName) ∧
        (ps.filter Property.isPrimary).length ≤ if primary.isSome then 0 else 1 := by
  induction ps generalizing primary with
  | nil => simp [validateProperties]
  | cons p ps ih =>
    simp only [validateProperties, List.append_eq_nil_iff, validateProperty_eq_nil_iff, ih,
      List.forall_mem_cons]
    cases hp : p.isPrimary with
    | false =>
      rw [List.filter_cons_of_neg (by simp [hp])]
      simp only [Bool.false_eq_true, if_false, false_implies, and_true]
      tauto
    | true =>
      rw [List.filter_cons_of_pos hp]
      cases primary with
      | none => simp; tauto
      | some q => simp

theorem validateProperties_primary (schema : Schema) (objectName : String) (ps : List Property)
    (primary : Option Property) :
    (validateProperties schema objectName primary ps).2 = none ↔
      primary = none ∧ ∀ p ∈ ps, p.isPrimary = false := by
  induction ps generalizing primary with
  | nil => simp [validateProperties]
  | cons p ps ih =>
    simp only [validateProperties, ih, List.forall_mem_cons]
    cases hp : p.isPrimary with
    | false => simp
    | true => simp

theorem ObjectSchema.validate_eq_nil_iff {schema : Schema} {o : ObjectSchema} :
    o.validate schema = [] ↔ o.Valid schema := by
  have hchecked := validateProperties_eq_nil_iff schema o.name o.properties none
  have hprimary := validateProperties_primary schema o.name o.properties none
  unfold ObjectSchema.validate
  dsimp only
  simp only [List.append_eq_nil_iff, List.map_eq_nil_iff, forEachDuplicate_sortNames, hchecked,
    ite_eq_nil_iff, and_true, hprimary, true_and]
  have hconflicts : o.publicPropertyNames.Nodup → (o.properties.map Property.name).Nodup →
      (setIntersection (sortNames o.publicPropertyNames)
          (sortNames (o.properties.map Property.name)) = [] ↔
        ∀ n ∈ o.publicPropertyNames, n ∉ o.properties.map Property.name) := by
    intro h1 h2
    have hperm : ∀ names : List String, (sortNames names).Perm names := fun names =>
      List.mergeSort_perm _ _
    rw [setIntersection_eq_nil_iff
      ((pairwise_lt_iff_nodup (sortNames_sorted _)).2 ((hperm _).nodup_iff.2 h1))
      ((pairwise_lt_iff_nodup (sortNames_sorted _)).2 ((hperm _).nodup_iff.2 h2))]
    simp only [(hperm _).mem_iff]
  constructor
  · rintro ⟨⟨⟨⟨h1, h2⟩, h3⟩, h4, h5⟩, h6⟩
    refine ⟨h1, h2, (hconflicts h1 h2).1 h3, h4, h5, fun hkey => ?_⟩
    by_contra hnot
    rw [not_or, not_exists, Bool.not_eq_true, Option.isSome_eq_false_iff] at hnot
    exact h6 ⟨hkey, fun p hp => by simpa [hp] using hnot.1 p, Option.isNone_iff_eq_none.1 hnot.2⟩
  · rintro ⟨h1, h2, h3, h4, h5, h6⟩
    refine ⟨⟨⟨⟨h1, h2⟩, (hconflicts h1 h2).2 h3⟩, h4, h5⟩, ?_⟩
    rintro ⟨hkey, hnone, hproperty⟩
    rcases h6 hkey with ⟨p, hp, hprimary⟩ | hsome
    · rw [hnone p hp] at hprimary
      cases hprimary
    · rw [hproperty] at hsome
      cases hsome

/-- **What validation accepts.** A schema gets through exactly when its classes have
different names and each of them is valid. -/
theorem Schema.validate_ok_iff (s : Schema) : s.validate = .ok () ↔ s.Valid := by
  have hnames : adjacentDuplicates (s.classes.map ObjectSchema.name) = [] ↔ s.Distinct := by
    have hsorted : (s.classes.map ObjectSchema.name).Pairwise (· ≤ ·) :=
      List.pairwise_map.2 s.sorted
    rw [adjacentDuplicates_eq_nil_iff hsorted, pairwise_lt_iff_nodup hsorted]
    rfl
  have hok : s.validate = .ok () ↔ s.Distinct ∧ ∀ o ∈ s.classes, o.Valid s := by
    unfold Schema.validate
    dsimp only
    rw [← hnames, ← List.map_eq_nil_iff (f := fun n =>
      "Type '" ++ n ++ "' appears more than once in the schema.")]
    simp only [← ObjectSchema.validate_eq_nil_iff, ← List.flatMap_eq_nil_iff]
    rw [← List.append_eq_nil_iff, ← List.isEmpty_iff]
    split
    · next h => simp [h]
    · next h => simp [h]
  rw [hok]
  exact ⟨fun h => ⟨h.1, h.2⟩, fun h => ⟨h.distinct, h.classes⟩⟩

theorem Schema.validate_cases {s : Schema} (h : s.validate ≠ .ok ()) :
    ∃ errors, errors ≠ [] ∧ s.validate = .error (.schemaValidation errors) := by
  unfold Schema.validate at h ⊢
  dsimp only at h ⊢
  split at h
  · exact absurd rfl h
  · next hempty =>
    rw [if_neg hempty]
    exact ⟨_, by simpa [List.isEmpty_iff] using hempty, rfl⟩

/-! ## Valid schemas can be stored -/

/-- What `objectStoreCopy` of the binding gives a class: linking objects are computed, the flag
of the primary key is set by its name, and lists have no index. -/
structure ObjectSchema.Built (o : ObjectSchema) : Prop where
  name_ne : o.name ≠ ""
  names_ne : ∀ p ∈ o.properties, p.name ≠ ""
  persisted : ∀ p ∈ o.persistedProperties, p.type.base ≠ .linkingObjects ∧ p.type.base ≠ .any
  lists : ∀ p ∈ o.persistedProperties, p.type.array = true → p.requiresIndex = false
  primary : ∀ p ∈ o.persistedProperties, p.isPrimary = true ↔ p.name = o.primaryKey
  primaryKey : o.primaryKey ≠ "" → ∃ p ∈ o.persistedProperties, p.name = o.primaryKey

theorem Property.Valid.storable {s : Schema} {n : String} {p : Property} (h : p.Valid s n)
    (hname : p.name ≠ "") (hbase : p.type.base ≠ .linkingObjects ∧ p.type.base ≠ .any)
    (hlist : p.type.array = true → p.requiresIndex = false) : p.Storable s.Has := by
  refine ⟨hname, hbase, fun hobject => ⟨h.target (.inl hobject), ?_⟩,
    fun hobject => h.objectType hobject hbase.1, fun hindex => ⟨?_, ?_⟩⟩
  · cases harray : p.type.array with
    | false => exact h.link hobject harray
    | true =>
      by_contra hnot
      have hnullable := h.nullable (by simpa using hnot)
      simp [typeIsNullable, harray, hobject] at hnullable
  · rcases Bool.or_eq_true_iff.1 hindex with hprimary | hindexed
    · rcases h.primary hprimary with hint | hstring
      · simp [typeIsIndexable, hint]
      · simp [typeIsIndexable, hstring]
    · exact h.index hindexed
  · by_contra hnot
    rw [hlist (by simpa using hnot)] at hindex
    cases hindex

/-- **A valid schema can be stored** when it is built as the binding builds it. -/
theorem Schema.Valid.storable {s : Schema} (h : s.Valid) (hbuilt : ∀ o ∈ s.classes, o.Built) :
    s.Storable := by
  refine ⟨h.distinct, fun o ho => ?_⟩
  have hvalid := h.classes o ho
  have hb := hbuilt o ho
  exact ⟨hb.name_ne, hvalid.names, fun p hp =>
    (hvalid.properties p (List.mem_append_left _ hp)).storable
      (hb.names_ne p (List.mem_append_left _ hp)) (hb.persisted p hp) (hb.lists p hp),
    fun p hp => hb.names_ne p (List.mem_append_right _ hp), hb.primary, hb.primaryKey⟩

/-! ## The schema of the app -/

theorem teamSchema_classes : teamSchema.classes = [teamRealmEntity] := List.mergeSort_singleton _

theorem teamRealmEntity_mem : teamRealmEntity ∈ teamSchema.classes := by
  rw [teamSchema_classes]
  exact List.mem_singleton_self _

theorem teamRealmEntity_built : teamRealmEntity.Built where
  name_ne := by decide
  names_ne := by decide
  persisted := by decide
  lists := by decide
  primary := by decide
  primaryKey := by decide

theorem teamSchema_built : ∀ o ∈ teamSchema.classes, o.Built := by
  intro o ho
  rw [teamSchema_classes] at ho
  obtain rfl := List.mem_singleton.1 ho
  exact teamRealmEntity_built

theorem teamSchema_valid : teamSchema.Valid where
  distinct := teamSchema_distinct
  classes o ho := by
    rw [teamSchema_classes] at ho
    obtain rfl := List.mem_singleton.1 ho
    have hstring : ∀ p ∈ teamRealmEntity.properties, p.type = ⟨.string, false, false⟩ ∧
        p.linkOriginPropertyName = "" ∧ p.objectType = "" := by decide
    refine ⟨by decide, by decide, by decide, fun p hp => ?_, by decide, by decide⟩
    obtain ⟨htype, horigin, hobject⟩ := hstring p hp
    constructor <;> simp [htype, horigin, hobject, Property.typeIsIndexable]

theorem validate_teamSchema : teamSchema.validate = .ok () :=
  (Schema.validate_ok_iff teamSchema).2 teamSchema_valid

theorem teamSchema_storable : teamSchema.Storable :=
  teamSchema_valid.storable teamSchema_built

end OverwatchTeams.ObjectStore
