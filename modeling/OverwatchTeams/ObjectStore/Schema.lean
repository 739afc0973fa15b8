import Mathlib.Data.String.Basic
import Mathlib.Data.List.Sort
import OverwatchTeams.Lib.MergeJoin

/-!
# Schemas and their differences

The object store of Realm keeps a schema for the classes of the program and reads
another one from the file. `Schema.compare` lists the changes that lead from the
file's schema to the program's: first the tables to add, then, table by table,
the columns to change, with every column to remove at the end.

`std::partition` moves the removals there. The standard leaves the order of what
it moves open, so it is a parameter of the comparison (`Partition`).
-/

namespace OverwatchTeams.ObjectStore

/-! ## Properties -/

/-- The values of `PropertyType` without the flags. -/
inductive BaseType where
  | int | bool | string | data | date | float | double | object | linkingObjects | any
  deriving DecidableEq, Repr

/-- `PropertyType`: a type and its flags. The operator `==` of the source compares
the bases only. -/
structure PropertyType where
  base : BaseType
  nullable : Bool
  array : Bool
  deriving DecidableEq, Repr

structure Property where
  name : String
  publicName : String := ""
  type : PropertyType
  objectType : String := ""
  linkOriginPropertyName : String := ""
  isPrimary : Bool := false
  isIndexed : Bool := false
  tableColumn : Nat := 2 ^ 64 - 1
  deriving DecidableEq, Repr

def stringForBaseType : BaseType → String
  | .string => "string"
  | .int => "int"
  | .bool => "bool"
  | .date => "date"
  | .data => "data"
  | .double => "double"
  | .float => "float"
  | .object => "object"
  | .any => "any"
  | .linkingObjects => "linking objects"

def stringForPropertyType (type : PropertyType) : String :=
  if type.array then
    if type.base = .linkingObjects then "linking objects" else "array"
  else stringForBaseType type.base

namespace Property

def requiresIndex (p : Property) : Bool := p.isPrimary || p.isIndexed

def typeIsIndexable (p : Property) : Bool :=
  p.type.base = .int || p.type.base = .bool || p.type.base = .date || p.type.base = .string

def typeIsNullable (p : Property) : Bool :=
  !(p.type.array && p.type.base = .object) && p.type.base ≠ .linkingObjects

def typeString (p : Property) : String :=
  if p.type.array then
    if p.type.base = .object then "array<" ++ p.objectType ++ ">"
    else if p.type.base = .linkingObjects then "linking objects<" ++ p.objectType ++ ">"
    else "array<" ++ stringForBaseType p.type.base ++ ">"
  else
    match p.type.base with
    | .object => "<" ++ p.objectType ++ ">"
    | .linkingObjects => "linking objects<" ++ p.objectType ++ ">"
    | base => stringForBaseType base

/-- `operator==` on properties: neither the public name nor the column counts. -/
def same (a b : Property) : Bool :=
  a.type = b.type && a.isPrimary = b.isPrimary && a.requiresIndex = b.requiresIndex &&
    a.name = b.name && a.objectType = b.objectType &&
    a.linkOriginPropertyName = b.linkOriginPropertyName

theorem name_eq_of_same {a b : Property} (h : a.same b) : a.name = b.name := by
  simp only [same, Bool.and_eq_true, decide_eq_true_eq] at h
  exact h.1.1.2

end Property

/-! ## Classes -/

structure ObjectSchema where
  name : String
  persistedProperties : List Property
  computedProperties : List Property := []
  primaryKey : String := ""
  deriving DecidableEq, Repr

namespace ObjectSchema

def propertyForName (o : ObjectSchema) (name : String) : Option Property :=
  (o.persistedProperties.find? fun p => p.name = name).or
    (o.computedProperties.find? fun p => p.name = name)

def primaryKeyProperty (o : ObjectSchema) : Option Property := o.propertyForName o.primaryKey

def propertyIsComputed (o : ObjectSchema) (property : Property) : Bool :=
  o.computedProperties.any fun p => p.same property

theorem mem_of_propertyForName {o : ObjectSchema} {n : String} {p : Property}
    (h : o.propertyForName n = some p) :
    p.name = n ∧ (p ∈ o.persistedProperties ∨ p ∈ o.computedProperties) := by
  unfold propertyForName at h
  rcases Option.or_eq_some_iff.1 h with h1 | ⟨-, h2⟩
  · exact ⟨by simpa using List.find?_some h1, .inl (List.mem_of_find?_eq_some h1)⟩
  · exact ⟨by simpa using List.find?_some h2, .inr (List.mem_of_find?_eq_some h2)⟩

theorem propertyForName_isSome {o : ObjectSchema} {n : String} :
    (o.propertyForName n).isSome ↔
      ∃ p, p.name = n ∧ (p ∈ o.persistedProperties ∨ p ∈ o.computedProperties) := by
  constructor
  · intro h
    obtain ⟨p, hp⟩ := Option.isSome_iff_exists.1 h
    exact ⟨p, mem_of_propertyForName hp⟩
  · rintro ⟨p, rfl, hp | hp⟩
    · simp only [propertyForName, Option.isSome_or, Bool.or_eq_true, List.find?_isSome]
      exact .inl ⟨p, hp, by simp⟩
    · simp only [propertyForName, Option.isSome_or, Bool.or_eq_true, List.find?_isSome]
      exact .inr ⟨p, hp, by simp⟩

end ObjectSchema

/-! ## Schemas -/

structure Schema where
  classes : List ObjectSchema
  sorted : classes.Pairwise fun a b => a.name ≤ b.name

namespace Schema

def ofTypes (types : List ObjectSchema) : Schema where
  classes := types.mergeSort fun a b => a.name ≤ b.name
  sorted := by
    refine (List.pairwise_mergeSort ?_ ?_ types).imp (by simp)
    · intro a b c h1 h2
      simp only [decide_eq_true_eq] at h1 h2 ⊢
      exact h1.trans h2
    · intro a b
      simpa using le_total a.name b.name

theorem mem_ofTypes {types : List ObjectSchema} {o : ObjectSchema} :
    o ∈ (ofTypes types).classes ↔ o ∈ types := (List.mergeSort_perm _ _).mem_iff

/-- `std::lower_bound` on the sorted classes, then a comparison of the names. -/
def find (s : Schema) (name : String) : Option ObjectSchema :=
  match s.classes.dropWhile fun o => o.name < name with
  | [] => none
  | o :: _ => if o.name = name then some o else none

def Distinct (s : Schema) : Prop := (s.classes.map ObjectSchema.name).Nodup

theorem Distinct.sorted {s : Schema} (h : s.Distinct) :
    MergeJoin.Sorted ObjectSchema.name s.classes := by
  have hne := List.pairwise_map.1 h
  exact (s.sorted.and hne).imp fun h => lt_of_le_of_ne h.1 h.2

theorem distinct_ofTypes {types : List ObjectSchema} :
    (ofTypes types).Distinct ↔ (types.map ObjectSchema.name).Nodup :=
  ((List.mergeSort_perm _ _).map _).nodup_iff

theorem find_eq (s : Schema) (name : String) :
    s.find name = s.classes.find? fun o => o.name = name := by
  obtain ⟨classes, sorted⟩ := s
  simp only [find]
  induction classes with
  | nil => rfl
  | cons o os ih =>
    have hrest := (List.pairwise_cons.1 sorted).2
    by_cases hlt : o.name < name
    · rw [List.dropWhile_cons_of_pos (by simpa using hlt), ih hrest,
        List.find?_cons_of_neg (by simpa using hlt.ne)]
    · rw [List.dropWhile_cons_of_neg (by simpa using hlt)]
      by_cases heq : o.name = name
      · simp [heq]
      · have hgt : name < o.name := lt_of_le_of_ne (not_lt.1 hlt) (Ne.symm heq)
        have hnone : os.find? (fun z => z.name = name) = none :=
          MergeJoin.find?_eq_none_of_lt fun z hz =>
            hgt.trans_le ((List.pairwise_cons.1 sorted).1 z hz)
        simp [heq, hnone]

theorem find_eq_some {s : Schema} {n : String} {o : ObjectSchema} (h : s.find n = some o) :
    o ∈ s.classes ∧ o.name = n := by
  rw [find_eq] at h
  exact ⟨List.mem_of_find?_eq_some h, by simpa using List.find?_some h⟩

theorem find_eq_none {s : Schema} {n : String} :
    s.find n = none ↔ ∀ o ∈ s.classes, o.name ≠ n := by
  simp [find_eq]

theorem Distinct.find_eq_some_iff {s : Schema} (h : s.Distinct) {n : String} {o : ObjectSchema} :
    s.find n = some o ↔ o ∈ s.classes ∧ o.name = n := by
  rw [find_eq]
  exact h.sorted.find?_eq_some_iff

end Schema

/-! ## Changes -/

/-- `SchemaChange`: what has to be done to a schema. The pointers of the source are
values here. -/
inductive SchemaChange where
  | addTable (object : ObjectSchema)
  | removeTable (object : ObjectSchema)
  | addInitialProperties (object : ObjectSchema)
  | addProperty (object : ObjectSchema) (property : Property)
  | removeProperty (object : ObjectSchema) (property : Property)
  | changePropertyType (object : ObjectSchema) (oldProperty newProperty : Property)
  | makePropertyNullable (object : ObjectSchema) (property : Property)
  | makePropertyRequired (object : ObjectSchema) (property : Property)
  | addIndex (object : ObjectSchema) (property : Property)
  | removeIndex (object : ObjectSchema) (property : Property)
  | changePrimaryKey (object : ObjectSchema) (property : Option Property)
  deriving DecidableEq, Repr

namespace SchemaChange

def object : SchemaChange → ObjectSchema
  | addTable o | removeTable o | addInitialProperties o | addProperty o _ | removeProperty o _
  | changePropertyType o _ _ | makePropertyNullable o _ | makePropertyRequired o _
  | addIndex o _ | removeIndex o _ | changePrimaryKey o _ => o

def isNotRemoveProperty : SchemaChange → Bool
  | removeProperty _ _ => false
  | _ => true

/-- `GetRemovedColumn`; it is only asked for removals. -/
def getRemovedColumn : SchemaChange → Nat
  | removeProperty _ p => p.tableColumn
  | _ => 0

end SchemaChange

/-- What `std::partition` does to the elements of a vector: those with the property
come first, in an order that is not specified, but that keeps the ones no other
element stands in front of where they are. -/
structure Partition (α : Type) where
  run : (α → Bool) → List α → List α × List α
  front : ∀ p l, (run p l).1.Perm (l.filter p)
  back : ∀ p l, (run p l).2.Perm (l.filter fun x => !p x)
  leading : ∀ p a l, (∀ x ∈ a, p x) → (run p (a ++ l)).1 = a ++ (run p l).1

def Partition.stable (α : Type) : Partition α where
  run p l := (l.filter p, l.filter fun x => !p x)
  front _ _ := .refl _
  back _ _ := .refl _
  leading p a l h := by rw [List.filter_append, List.filter_eq_self.2 h]

def nullabilityChanges (existing : ObjectSchema) (current targetProp : Property) :
    List SchemaChange :=
  if current.type.nullable ≠ targetProp.type.nullable then
    if current.type.nullable then [.makePropertyRequired existing current]
    else [.makePropertyNullable existing current]
  else []

def indexChanges (existing : ObjectSchema) (current targetProp : Property) : List SchemaChange :=
  if targetProp.requiresIndex then
    if !current.isIndexed then [.addIndex existing current] else []
  else if current.requiresIndex then [.removeIndex existing current] else []

def Property.Retyped (current targetProp : Property) : Prop :=
  current.type.base ≠ targetProp.type.base ∨ current.objectType ≠ targetProp.objectType ∨
    current.type.array ≠ targetProp.type.array

instance (current targetProp : Property) : Decidable (current.Retyped targetProp) :=
  inferInstanceAs (Decidable (_ ∨ _ ∨ _))

/-- `compare` for one property of the file's table. -/
def propertyChanges (existing target : ObjectSchema) (current : Property) : List SchemaChange :=
  match target.propertyForName current.name with
  | none => [.removeProperty existing current]
  | some targetProp =>
    if target.propertyIsComputed targetProp then [.removeProperty existing current]
    else if current.Retyped targetProp then [.changePropertyType existing current targetProp]
    else nullabilityChanges existing current targetProp ++ indexChanges existing current targetProp

/-- What `compare` appends for two tables before it moves the removals. -/
def tableChanges (existing target : ObjectSchema) : List SchemaChange :=
  existing.persistedProperties.flatMap (propertyChanges existing target) ++
  (if existing.primaryKey ≠ target.primaryKey then
    [.changePrimaryKey existing target.primaryKeyProperty] else []) ++
  (target.persistedProperties.filter fun p => (existing.propertyForName p.name).isNone).map
    (.addProperty existing)

def moveRemovals (partition : Partition SchemaChange) (changes : List SchemaChange) :
    List SchemaChange :=
  let (kept, removals) := partition.run SchemaChange.isNotRemoveProperty changes
  kept ++ removals.mergeSort fun a b => a.getRemovedColumn ≥ b.getRemovedColumn

/-- The static `compare`: it works on all changes found so far. -/
def compareTables (partition : Partition SchemaChange) (existing target : ObjectSchema)
    (changes : List SchemaChange) : List SchemaChange :=
  moveRemovals partition (changes ++ tableChanges existing target)

namespace Schema

def zipMatching (a b : Schema) : List (Option ObjectSchema × Option ObjectSchema) :=
  MergeJoin.walk ObjectSchema.name ObjectSchema.name a.classes b.classes

/-- The first visits of `compare`: tables to add and, if asked for, to remove. -/
def addMissing (includeTableRemovals : Bool) :
    Option ObjectSchema × Option ObjectSchema → List SchemaChange
  | (some target, none) => [.addTable target]
  | (none, some existing) => if includeTableRemovals then [.removeTable existing] else []
  | _ => []

/-- The second visits of `compare`: columns. -/
def modifyColumns (partition : Partition SchemaChange) (changes : List SchemaChange) :
    Option ObjectSchema × Option ObjectSchema → List SchemaChange
  | (some target, some existing) => compareTables partition existing target changes
  | (some target, none) => changes ++ [.addInitialProperties target]
  | (none, _) => changes

/-- `compare`: the changes that make the schema `existing` the schema `target`. -/
def compare (partition : Partition SchemaChange) (existing target : Schema)
    (includeTableRemovals : Bool) : List SchemaChange :=
  let changes := (zipMatching target existing).flatMap (addMissing includeTableRemovals)
  (zipMatching target existing).foldl (modifyColumns partition) changes

end Schema

end OverwatchTeams.ObjectStore
