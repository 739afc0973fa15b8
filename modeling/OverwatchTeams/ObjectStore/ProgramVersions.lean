import Mathlib.Logic.Relation
import OverwatchTeams.ObjectStore.FileGroup
import OverwatchTeams.ObjectStore.UpdateSchema

/-!
# The life of a file

A file is created empty. From then on versions of the program open it, in any order,
and write data into it, which changes rows but no columns. Whatever happens, the
program that opened the file last can open it again without writing
(`reopen_writes_nothing`), and every other one either gets the file with its own
schema and all values that could stay, or is refused and leaves the file as it was
(`open_or_refuse`).
-/

namespace OverwatchTeams.ObjectStore

open SchemaChange Schema

variable {G V : Type} [Core G V]

/-! ## Writing data -/

def Table.shape (t : Table V) : List (String × ColumnType × Bool) :=
  t.columns.map fun c => (c.name, c.type, c.searchIndex)

/-- What writing data leaves of a class: the columns and the primary key. -/
structure ClassState.SameShape (old new : ClassState V) : Prop where
  table : new.table.map Table.shape = old.table.map Table.shape
  primaryKey : new.primaryKey = old.primaryKey

theorem Table.Plain.of_shape {T T' : Table V} (h : T.Plain) (hshape : T'.shape = T.shape) :
    T'.Plain := by
  constructor
  · intro c' hc'
    have hmem : (c'.name, c'.type, c'.searchIndex) ∈ T.shape := by
      rw [← hshape]
      exact List.mem_map.2 ⟨c', hc', rfl⟩
    obtain ⟨c, hc, heq⟩ := List.mem_map.1 hmem
    have htype : c.type = c'.type := congrArg (fun x => x.2.1) heq
    rw [← htype]
    exact h.properties c hc
  · have hnames : ∀ t : Table V, t.columns.map Column.name = t.shape.map Prod.fst := by
      intro t
      rw [Table.shape, List.map_map]
      rfl
    rw [hnames, hshape, ← hnames]
    exact h.names

theorem ClassState.SameShape.plain {old new : ClassState V} (h : old.SameShape new)
    (hplain : old.Plain) : new.Plain := by
  intro T' hT'
  have htable := h.table
  rw [hT', Option.map_some, eq_comm, Option.map_eq_some_iff] at htable
  obtain ⟨T, hT, hshape⟩ := htable
  exact (hplain T hT).of_shape hshape.symm

structure SameShape (g g' : G) : Prop where
  classes : ∀ n, (classView g n).SameShape (classView g' n)
  version : (Core.view g').version = (Core.view g).version

theorem objectSchemaOf_eq_of_shape {t t' : Table V} (h : t'.shape = t.shape)
    (n primaryKey : String) : objectSchemaOf n t' primaryKey = objectSchemaOf n t primaryKey := by
  let read (s : (String × ColumnType × Bool) × Nat) : Option Property :=
    propertyForColumnIndex (V := Unit) ⟨s.1.1, s.1.2.1, s.1.2.2, fun _ => ()⟩ s.2
  have hread : ∀ t : Table V, t.columns.zipIdx.filterMap
      (fun c => propertyForColumnIndex c.1 c.2) = t.shape.zipIdx.filterMap read := by
    intro t
    rw [Table.shape, List.zipIdx_map, List.filterMap_map]
    rfl
  unfold objectSchemaOf
  rw [hread t', hread t, h]

section Shapes

variable [LawfulCore G] {g g' : G}

theorem find_schemaFromGroup_of_sameShape (h : SameShape g g') {n : String} (hn : n ≠ "") :
    (schemaFromGroup g').find n = (schemaFromGroup g).find n := by
  obtain ⟨htable, hkey⟩ := h.classes n
  rw [find_schemaFromGroup g' hn, find_schemaFromGroup g hn]
  have hkey' : getPrimaryKeyForObject g' n = getPrimaryKeyForObject g n := hkey
  have htable' : (tableForObjectType g' n).map Table.shape =
      (tableForObjectType g n).map Table.shape := htable
  rw [hkey']
  cases hT : tableForObjectType g n with
  | none =>
    rw [hT, Option.map_none, Option.map_eq_none_iff] at htable'
    rw [htable']
  | some T =>
    rw [hT, Option.map_some, Option.map_eq_some_iff] at htable'
    obtain ⟨T', hT', hshape⟩ := htable'
    rw [hT', Option.map_some, Option.map_some, objectSchemaOf_eq_of_shape hshape]

theorem compare_of_sameShape (partition : Partition SchemaChange) (h : SameShape g g')
    {target : Schema} (ht : target.Storable)
    (hnil : compare partition (schemaFromGroup g) target false = []) :
    compare partition (schemaFromGroup g') target false = [] := by
  rw [Schema.compare_nil_iff (schemaFromGroup_distinct _) ht.distinct] at hnil ⊢
  refine ⟨fun t hmem => ?_, by simp⟩
  rw [find_schemaFromGroup_of_sameShape h (ht.classes t hmem).name_ne]
  exact hnil.1 t hmem

omit [LawfulCore G] in
theorem Schema.Positioned.of_sameShape {program s : Schema} (h : program.Positioned s g)
    (hshape : SameShape g g') : program.Positioned s g' := by
  refine ⟨h.classes, fun o ho => ?_⟩
  obtain ⟨T, hT, hpoints⟩ := h.points o ho
  have htable := (hshape.classes o.name).table
  have hold : (classView g o.name).table = some T := hT
  rw [hold, Option.map_some, Option.map_eq_some_iff] at htable
  obtain ⟨T', hT', hcolumns⟩ := htable
  refine ⟨T', hT', fun p hp => ?_⟩
  obtain ⟨c, hc, hstores⟩ := hpoints p hp
  have hat : T'.shape[p.tableColumn]? = some (c.name, c.type, c.searchIndex) := by
    rw [hcolumns, Table.shape, List.getElem?_map, hc, Option.map_some]
  rw [Table.shape, List.getElem?_map, Option.map_eq_some_iff] at hat
  obtain ⟨c', hc', heq⟩ := hat
  have hname : c'.name = c.name := congrArg (fun x => x.1) heq
  have htype : c'.type = c.type := congrArg (fun x => x.2.1) heq
  exact ⟨c', hc', hname.trans hstores.name, htype ▸ hstores.isProperty, htype ▸ hstores.type,
    htype ▸ hstores.objectType⟩

end Shapes

/-! ## New files -/

structure Empty (g : G) : Prop where
  classes : ∀ n, classView g n = ⟨none, ""⟩
  version : getSchemaVersion g = notVersioned

theorem Empty.keysHaveTables {g : G} (h : Empty g) : KeysHaveTables g := fun n _ => by
  rw [h.classes]

theorem Empty.plain {g : G} (h : Empty g) : Plain g := by
  intro n T hT
  rw [h.classes] at hT
  cases hT

section New

variable [LawfulCore G] [DecidableEq V] {g fresh : G} {schema : Schema} {version : Nat}

omit [DecidableEq V] in
theorem needsMigration_of_noTables (partition : Partition SchemaChange) (hs : schema.Storable)
    (h : ∀ n, (classView g n).table = none) :
    needsMigration (compare partition (schemaFromGroup g) schema false) = false := by
  rw [needsMigration_compare_eq_false_iff partition (schemaFromGroup_distinct _) hs.distinct]
  intro t hmem e hfind
  have htable : tableForObjectType g t.name = none := h t.name
  rw [find_schemaFromGroup _ (hs.classes t hmem).name_ne, htable] at hfind
  cases hfind

omit [LawfulCore G] [DecidableEq V] in
theorem table_of_mem_schemaFromGroup {o : ObjectSchema}
    (h : o ∈ (schemaFromGroup g).classes) : (classView g o.name).table.isSome := by
  rw [schemaFromGroup, Schema.mem_ofTypes, List.mem_filterMap] at h
  obtain ⟨n, -, hn⟩ := h
  dsimp only at hn
  split at hn
  · cases hn
  · obtain ⟨T, hT, rfl⟩ := Option.map_eq_some_iff.1 hn
    exact Option.isSome_iff_exists.2 ⟨T, hT⟩

end New

/-! ## Versions of the program -/

/-- A version of the program: a schema that validation accepts, built as the binding builds
it, and a version number. -/
structure Program where
  schema : Schema
  version : Nat
  valid : schema.validate = .ok ()
  built : ∀ o ∈ schema.classes, o.Built
  version_ne : version ≠ notVersioned

theorem Program.storable (p : Program) : p.schema.Storable :=
  ((Schema.validate_ok_iff p.schema).1 p.valid).storable p.built

/-- A file, and the program that has opened it last. -/
structure Stored (G : Type) where
  group : G
  opened : Option Program

section Life

variable [DecidableEq V] (partition : Partition SchemaChange) (fresh : G)

def Program.opens (p : Program) (s : Stored G) : Stored G :=
  match openRealm partition fresh s.group p.schema p.version with
  | (g, .ok _) => ⟨g, some p⟩
  | (g, .error _) => ⟨g, s.opened⟩

theorem Program.opens_of_ok {p : Program} {s : Stored G} {g : G} {realm : Realm}
    (h : openRealm partition fresh s.group p.schema p.version = (g, .ok realm)) :
    p.opens partition fresh s = ⟨g, some p⟩ := by
  unfold Program.opens
  rw [h]

/-- The program is refused for its schema, its primary keys or its version, and leaves the file
as it was. -/
def Program.IsRefused (p : Program) (g : G) : Prop :=
  ∃ e, openRealm partition fresh g p.schema p.version = (g, .error e) ∧
    ((∃ errors, e = .schemaMismatch errors) ∨ IsDuplicateKey e ∨
      e = .invalidSchemaVersion (getSchemaVersion g) p.version)

/-- The program gets a file that serves its schema, with all other classes and all values that
could stay, and a Realm whose properties point to their columns. -/
def Program.IsServed (p : Program) (g : G) : Prop :=
  ∃ g' realm, openRealm partition fresh g p.schema p.version = (g', .ok realm) ∧
    OpenedFor g g' p.schema p.version realm ∧ p.schema.Positioned realm.schema g' ∧
    ∀ partition', compare partition' (schemaFromGroup g') p.schema false = []

/-- What happens to a file. -/
inductive Stored.Next : Stored G → Stored G → Prop
  | opens (s : Stored G) (p : Program) (h : ListsStay s.group p.schema) :
    Next s (p.opens partition fresh s)
  | writes (s : Stored G) (g : G) (h : SameShape s.group g) : Next s ⟨g, s.opened⟩

def Stored.Reachable (s : Stored G) : Prop :=
  Relation.ReflTransGen (Stored.Next partition fresh) ⟨fresh, none⟩ s

structure Stored.Sound (s : Stored G) : Prop where
  keys : KeysHaveTables s.group
  plain : Plain s.group
  new : getSchemaVersion s.group = notVersioned → ∀ n, (classView s.group n).table = none
  version : ∀ p, s.opened = some p → getSchemaVersion s.group = p.version
  schema : ∀ p, s.opened = some p → compare partition (schemaFromGroup s.group) p.schema false = []

end Life

section Sound

variable [LawfulCore G] [DecidableEq V] {partition : Partition SchemaChange} {fresh : G}

theorem Stored.Sound.openRealm (fresh : G) {s : Stored G} (h : s.Sound partition) (p : Program)
    (hlists : ListsStay s.group p.schema) :
    p.IsRefused partition fresh s.group ∨
    ∃ g' realm, openRealm partition fresh s.group p.schema p.version = (g', .ok realm) ∧
      OpenedFor s.group g' p.schema p.version realm := by
  have hsame : getSchemaVersion s.group = notVersioned →
      needsMigration (compare partition (schemaFromGroup s.group) p.schema false) = false :=
    fun hnot => needsMigration_of_noTables partition p.storable (h.new hnot)
  by_cases hnot : getSchemaVersion s.group = notVersioned
  · exact .inr (openRealm_same partition fresh p.valid p.built h.keys (.inl hnot) (hsame hnot))
  rcases Nat.lt_trichotomy (getSchemaVersion s.group) p.version with hlt | heq | hgt
  · rcases openRealm_bump partition fresh p.valid p.built h.keys hlists hnot hlt with
      ⟨e, he, hduplicate⟩ | hopened
    · exact .inl ⟨e, he, .inr (.inl hduplicate)⟩
    · exact .inr hopened
  · cases hneeds : needsMigration
        (compare partition (schemaFromGroup s.group) p.schema false) with
    | false => exact .inr (openRealm_same partition fresh p.valid p.built h.keys (.inr heq) hneeds)
    | true =>
      obtain ⟨errors, he, -⟩ := openRealm_mismatch partition fresh p.valid p.built
        h.keys hnot heq hneeds
      exact .inl ⟨_, he, .inl ⟨errors, rfl⟩⟩
  · exact .inl ⟨_, openRealm_older partition fresh p.valid hnot hgt, .inr (.inr rfl)⟩

omit [LawfulCore G] [DecidableEq V] in
theorem sound_fresh (h : Empty fresh) : (⟨fresh, none⟩ : Stored G).Sound partition where
  keys := h.keysHaveTables
  plain := h.plain
  new _ n := by rw [h.classes]
  version _ hp := by cases hp
  schema _ hp := by cases hp

theorem Stored.Sound.next {s s' : Stored G} (h : s.Sound partition)
    (hnext : s.Next partition fresh s') : s'.Sound partition := by
  cases hnext with
  | opens p hlists =>
    unfold Program.opens
    rcases h.openRealm fresh p hlists with ⟨e, he, -⟩ | ⟨g', realm, hrun, hopened⟩
    · rw [he]
      exact h
    · rw [hrun]
      have hversion : ∀ q, some p = some q → getSchemaVersion g' = q.version := by
        rintro q hq
        obtain rfl := Option.some.inj hq
        exact hopened.fileVersion
      refine ⟨hopened.migrated.keysHaveTables h.keys, hopened.migrated.plain h.plain,
        fun hnot => ?_, hversion, ?_⟩
      · exact absurd (hopened.fileVersion.symm.trans hnot) p.version_ne
      · rintro q hq
        obtain rfl := Option.some.inj hq
        exact compare_of_migrated partition p.storable hopened.migrated
  | writes g hshape =>
    have hversion : getSchemaVersion g = getSchemaVersion s.group :=
      getSchemaVersion_of_view hshape.version
    have hnone : ∀ n, (classView g n).table = none ↔ (classView s.group n).table = none := by
      intro n
      have := (hshape.classes n).table
      rw [← Option.map_eq_none_iff (f := Table.shape), this, Option.map_eq_none_iff]
    refine ⟨fun n hn => ?_, fun n => (hshape.classes n).plain (h.plain n), fun hnot n => ?_,
      fun p hp => ?_, fun p hp => ?_⟩
    · rw [(hshape.classes n).primaryKey]
      exact h.keys n ((hnone n).1 hn)
    · exact (hnone n).2 (h.new (hversion.symm.trans hnot) n)
    · exact hversion.trans (h.version p hp)
    · exact compare_of_sameShape partition hshape p.storable (h.schema p hp)

theorem sound_of_reachable (hfresh : Empty fresh) {s : Stored G}
    (h : s.Reachable partition fresh) : s.Sound partition := by
  induction h with
  | refl => exact sound_fresh hfresh
  | tail _ hnext ih => exact ih.next hnext

end Sound

/-! ## The app -/

def teamProgram (version : Nat) (h : version ≠ notVersioned) : Program where
  schema := teamSchema
  version := version
  valid := validate_teamSchema
  built := teamSchema_built
  version_ne := h

theorem listsStay_teamProgram {G V : Type} [Core G V] (g : G) : ListsStay g teamSchema := by
  refine listsStay_of_required g teamSchema_storable fun t ht => ?_
  rw [teamSchema_classes] at ht
  obtain rfl := List.mem_singleton.1 ht
  decide

/-- A new file, in a build with `sync`. -/
def newFile : FileGroup true := .empty

theorem empty_newFile : Empty newFile := ⟨fun _ => rfl, rfl⟩

theorem opens_newFile (version : Nat) (h : version ≠ notVersioned) :
    ∃ group realm,
      openRealm (.stable _) newFile newFile teamSchema version = (group, .ok realm) ∧
      (teamProgram version h).opens (.stable _) newFile ⟨newFile, none⟩ =
        ⟨group, some (teamProgram version h)⟩ ∧
      OpenedFor newFile group teamSchema version realm := by
  obtain ⟨group, realm, hrun, hopened⟩ : ∃ group realm,
      openRealm (.stable _) newFile newFile teamSchema version = (group, .ok realm) ∧
        OpenedFor newFile group teamSchema version realm :=
    openRealm_same (.stable _) newFile validate_teamSchema teamSchema_built
      empty_newFile.keysHaveTables (.inl empty_newFile.version)
      (needsMigration_of_noTables _ teamSchema_storable fun n => by rw [empty_newFile.classes])
  exact ⟨group, realm, hrun, Program.opens_of_ok (.stable _) newFile hrun, hopened⟩

/-- The file after the app has been started for the first time. -/
def teamsFile (version : Nat) (h : version ≠ notVersioned) : Stored (FileGroup true) :=
  (teamProgram version h).opens (.stable _) newFile ⟨newFile, none⟩

theorem teamsFile_reachable (version : Nat) (h : version ≠ notVersioned) :
    (teamsFile version h).Reachable (.stable _) newFile :=
  .single (.opens _ _ (listsStay_teamProgram _))

theorem teamsFile_opened (version : Nat) (h : version ≠ notVersioned) :
    (teamsFile version h).opened = some (teamProgram version h) := by
  obtain ⟨group, realm, -, hopens, -⟩ := opens_newFile version h
  rw [teamsFile, hopens]

end OverwatchTeams.ObjectStore
