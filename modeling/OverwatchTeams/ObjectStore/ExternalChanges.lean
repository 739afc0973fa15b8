import OverwatchTeams.ObjectStore.ProgramVersions

/-!
# Changes by others

While a Realm is open, other versions of the program may open its file and write into it.
At its first read in a new transaction the Realm compares its schema with that of the
file. New classes, new columns and other indexes are fine, and the positions of its own
columns are looked up again; everything else is refused
(`readSchemaFromGroupIfNeeded`).

So an open Realm is never wrong about its columns: as long as the file keeps them it
reads on and finds them where they are now, and as soon as the file does not it is
refused (`read_or_refuse`).
-/

namespace OverwatchTeams.ObjectStore

open SchemaChange Schema

variable {G V : Type} [Core G V]

/-! ## The source -/

/-- A Realm, and the version of the transaction in which it has read the schema last. -/
structure ReadingRealm extends Realm where
  schemaTransactionVersion : Nat

/-- `read_schema_from_group_if_needed` of a Realm that was opened with a schema, in a
transaction on the group `g`. -/
def readSchemaFromGroupIfNeeded (partition : Partition SchemaChange) (realm : ReadingRealm)
    (g : G) (currentVersion : Nat) : ReadingRealm × Except SchemaException Unit :=
  if realm.schemaTransactionVersion = currentVersion then (realm, .ok ())
  else
    let schema := schemaFromGroup g
    let read : ReadingRealm :=
      { schema := realm.schema
        schemaVersion := getSchemaVersion g
        schemaTransactionVersion := currentVersion }
    match verifyValidExternalChanges (compare partition realm.schema schema false) with
    | .ok () => ({ read with schema := realm.schema.copyTableColumnsFrom schema }, .ok ())
    | .error e => (read, .error e)

/-! ## What is accepted -/

/-- The table still has the columns of the class, and its primary key. -/
structure KeepsTable (existing target : ObjectSchema) : Prop where
  columns : ∀ current ∈ existing.persistedProperties,
    ∃ p, target.Stores current p ∧ current.SameStorage p
  primaryKey : existing.primaryKey = target.primaryKey

theorem externalVerifier_propertyChanges_iff {e t : ObjectSchema} {current : Property} :
    (∀ c ∈ propertyChanges e t current, externalVerifier c = []) ↔
      ∃ p, t.Stores current p ∧ current.SameStorage p := by
  rw [← propertyChanges_index_iff (e := e)]
  refine forall₂_congr fun c hc => ?_
  rcases mem_propertyChanges hc with rfl | ⟨q, -, rfl⟩ | rfl | rfl | rfl | rfl <;>
    simp [externalVerifier, schemaDifferenceExplainer, isIndexChange]

theorem externalVerifier_tableChanges_iff {e t : ObjectSchema} :
    (∀ c ∈ tableChanges e t, externalVerifier c = []) ↔ KeepsTable e t := by
  constructor
  · intro h
    refine ⟨fun current hcurrent => ?_, ?_⟩
    · exact (externalVerifier_propertyChanges_iff (e := e)).1 fun c hc =>
        h c (mem_tableChanges.2 (.inl ⟨current, hcurrent, hc⟩))
    · by_contra hne
      have hkey : schemaDifferenceExplainer (changePrimaryKey e t.primaryKeyProperty) = [] :=
        h _ (mem_tableChanges.2 (.inr (.inl ⟨hne, rfl⟩)))
      rcases schemaDifferenceExplainer_eq_nil_iff.1 hkey with ⟨o, ho⟩ | ⟨o, ho⟩
      · cases ho
      · cases ho
  · intro h c hc
    rcases mem_tableChanges.1 hc with ⟨current, hcurrent, hc⟩ | ⟨hne, -⟩ | ⟨p, -, -, rfl⟩
    · exact externalVerifier_propertyChanges_iff.2 (h.columns current hcurrent) c hc
    · exact absurd h.primaryKey hne
    · rfl

theorem verifyValidExternalChanges_ok_iff (partition : Partition SchemaChange)
    {existing target : Schema} (he : existing.Distinct) (ht : target.Distinct) :
    verifyValidExternalChanges (compare partition existing target false) = .ok () ↔
      ∀ e ∈ existing.classes, ∀ t, target.find e.name = some t → KeepsTable e t := by
  have hperm := compare_perm partition he ht false
  rw [verifyValidExternalChanges, verifyNoErrors_ok_iff]
  constructor
  · intro h e hmem t hfind
    obtain ⟨htarget, hname⟩ := find_eq_some hfind
    have hexisting : existing.find t.name = some e := he.find_eq_some_iff.2 ⟨hmem, hname.symm⟩
    refine externalVerifier_tableChanges_iff.1 fun c hc => h c ?_
    rw [hperm.mem_iff, List.mem_append, List.mem_flatMap]
    refine .inr ⟨t, htarget, ?_⟩
    rw [changesFor, hexisting]
    exact hc
  · intro h c hc
    rw [hperm.mem_iff, List.mem_append, missing_eq he ht, List.mem_map, List.mem_flatMap] at hc
    rcases hc with ⟨t, -, rfl⟩ | ⟨t, htarget, hc⟩
    · rfl
    · unfold changesFor at hc
      split at hc
      · next e hfind =>
        obtain ⟨hmem, hname⟩ := find_eq_some hfind
        have htable := h e hmem t (ht.find_eq_some_iff.2 ⟨htarget, hname.symm⟩)
        exact externalVerifier_tableChanges_iff.2 htable c hc
      · rw [List.mem_singleton.1 hc]
        rfl

theorem keepsTable_iff {e : ObjectSchema} {T : Table V} (hplain : T.Plain)
    (n primaryKey : String) :
    KeepsTable e (objectSchemaOf n T primaryKey) ↔
      (∀ p ∈ e.persistedProperties, ∃ c ∈ T.columns, c.Stores p) ∧ e.primaryKey = primaryKey := by
  constructor
  · rintro ⟨hcolumns, hkey⟩
    refine ⟨fun current hcurrent => ?_, hkey⟩
    obtain ⟨p, ⟨hfind, -⟩, hstorage⟩ := hcolumns current hcurrent
    obtain ⟨hname, hmem | hmem⟩ := ObjectSchema.mem_of_propertyForName hfind
    · obtain ⟨c, hc, hreads, -⟩ := mem_objectSchemaOf hmem
      exact ⟨c, List.mem_of_getElem? hc, hreads.name.trans hname, hreads.isProperty,
        hreads.type.trans (congrArg some hstorage.1.symm),
        hreads.objectType.trans hstorage.2.symm⟩
    · cases hmem
  · rintro ⟨hcolumns, hkey⟩
    refine ⟨fun current hcurrent => ?_, hkey⟩
    obtain ⟨c, hc, hstores⟩ := hcolumns current hcurrent
    obtain ⟨i, hi⟩ := List.getElem?_of_mem hc
    obtain ⟨q, hq, hqname, -⟩ := exists_mem_objectSchemaOf n primaryKey hi hstores.isProperty
    have hsome := ObjectSchema.propertyForName_isSome.2
      ⟨q, hqname.trans hstores.name, Or.inl hq⟩
    obtain ⟨p, hp⟩ := Option.isSome_iff_exists.1 hsome
    refine ⟨p, ⟨hp, rfl⟩, ?_⟩
    -- There is one column with the name only.
    obtain ⟨hname, hmem | hmem⟩ := ObjectSchema.mem_of_propertyForName hp
    · obtain ⟨c', hc', hreads, -⟩ := mem_objectSchemaOf hmem
      have hsame : c.name = c'.name := hstores.name.trans (hname.symm.trans hreads.name.symm)
      obtain rfl := List.inj_on_of_nodup_map hplain.names hc (List.mem_of_getElem? hc') hsame
      exact hstores.sameStorage hreads.toStores
    · cases hmem

/-! ## What a program relies on -/

/-- The file has the columns and the primary keys of the program's classes. -/
def Program.IsKept (p : Program) (g : G) : Prop :=
  ∀ t ∈ p.schema.classes, ∃ T, classView g t.name = ⟨some T, t.primaryKey⟩ ∧
    ∀ q ∈ t.persistedProperties, ∃ c ∈ T.columns, c.Stores q

theorem Program.isKept_of_migrated {p : Program} {g g' : G} (h : Migrated g g' p.schema) :
    p.IsKept g' := by
  intro t ht
  obtain ⟨T, hT, hholds, -⟩ := (h.classes t ht).table
  exact ⟨T, hT, hholds.complete⟩

/-- A version of the program with the same classes keeps them. -/
theorem Program.IsKept.opens [LawfulCore G] [DecidableEq V] {partition : Partition SchemaChange}
    {p q : Program} {s : Stored G} (h : p.IsKept s.group) (hs : s.Sound partition) (fresh : G)
    (hlists : ListsStay s.group q.schema) (hschema : q.schema = p.schema) :
    p.IsKept (q.opens partition fresh s).group := by
  unfold Program.opens
  rcases hs.openRealm fresh q hlists with ⟨e, he, -⟩ | ⟨g', realm, hrun, hopened⟩
  · rw [he]
    exact h
  · rw [hrun]
    exact Program.isKept_of_migrated (hschema ▸ hopened.migrated)

section Verdict

variable [LawfulCore G] {g : G} {p : Program} {s : Schema}

theorem keepsTable_iff_of_forgetColumns {o t : ObjectSchema} {T : Table V} (hplain : T.Plain)
    (heq : t.forgetColumns = o.forgetColumns) (n primaryKey : String) :
    KeepsTable o (objectSchemaOf n T primaryKey) ↔
      (∀ q ∈ t.persistedProperties, ∃ c ∈ T.columns, c.Stores q) ∧ t.primaryKey = primaryKey := by
  have hkey : t.primaryKey = o.primaryKey := by
    simpa using congrArg ObjectSchema.primaryKey heq
  rw [keepsTable_iff hplain, hkey]
  refine and_congr_left fun _ => ⟨fun h q hq => ?_, fun h q hq => ?_⟩
  · obtain ⟨q', hq', heq'⟩ := exists_of_map_forgetColumn
      (congrArg ObjectSchema.persistedProperties heq) hq
    obtain ⟨c, hc, hstores⟩ := h q' hq'
    exact ⟨c, hc, hstores.of_forgetColumn heq'⟩
  · obtain ⟨q', hq', heq'⟩ := exists_of_map_forgetColumn
      (congrArg ObjectSchema.persistedProperties heq.symm) hq
    obtain ⟨c, hc, hstores⟩ := h q' hq'
    exact ⟨c, hc, hstores.of_forgetColumn heq'⟩

/-- **What a read accepts**: files that have all tables and keep what the program relies on. -/
theorem verifyValidExternalChanges_iff_isKept (partition : Partition SchemaChange)
    (hclasses : s.classes.map ObjectSchema.forgetColumns =
      p.schema.classes.map ObjectSchema.forgetColumns)
    (hplain : Plain g) (htables : ∀ t ∈ p.schema.classes, (classView g t.name).table.isSome) :
    verifyValidExternalChanges (compare partition s (schemaFromGroup g) false) = .ok () ↔
      p.IsKept g := by
  obtain ⟨hdistinct, hnames⟩ := names_of_forgetColumns p.storable hclasses
  rw [verifyValidExternalChanges_ok_iff partition hdistinct (schemaFromGroup_distinct g)]
  have hfind : ∀ o ∈ s.classes, ∀ T, (classView g o.name).table = some T →
      (schemaFromGroup g).find o.name =
        some (objectSchemaOf o.name T (classView g o.name).primaryKey) := by
    intro o ho T hT
    have htable : tableForObjectType g o.name = some T := hT
    rw [find_schemaFromGroup g (hnames o ho).1, htable]
    rfl
  constructor
  · intro h t ht
    obtain ⟨o, ho, heq⟩ := exists_of_map_forgetColumns hclasses.symm ht
    have hname : o.name = t.name := by simpa using congrArg ObjectSchema.name heq
    obtain ⟨T, hT⟩ := Option.isSome_iff_exists.1 (htables t ht)
    rw [← hname] at hT ⊢
    have hkeeps := (keepsTable_iff_of_forgetColumns (hplain _ T hT) heq.symm _ _).1
      (h o ho _ (hfind o ho T hT))
    refine ⟨T, ?_, hkeeps.1⟩
    rw [hkeeps.2, ← hT]
  · intro h o ho e he
    obtain ⟨t, ht, heq⟩ := exists_of_map_forgetColumns hclasses ho
    have hname : t.name = o.name := by simpa using congrArg ObjectSchema.name heq
    obtain ⟨T, hT, hcolumns⟩ := h t ht
    rw [hname] at hT
    have hsome : (classView g o.name).table = some T := congrArg ClassState.table hT
    have hfound := hfind o ho T hsome
    rw [he, Option.some.injEq] at hfound
    rw [hfound]
    exact (keepsTable_iff_of_forgetColumns (hplain _ T hsome) heq _ _).2
      ⟨hcolumns, (congrArg ClassState.primaryKey hT).symm⟩

theorem positioned_of_isKept (hclasses : s.classes.map ObjectSchema.forgetColumns =
      p.schema.classes.map ObjectSchema.forgetColumns) (hplain : Plain g) (h : p.IsKept g) :
    p.schema.Positioned (s.copyTableColumnsFrom (schemaFromGroup g)) g := by
  refine positioned_copyTableColumnsFrom_of_storesAll p.storable hclasses fun t ht => ?_
  obtain ⟨T, hT, hcolumns⟩ := h t ht
  have htable : tableForObjectType g t.name = some T := congrArg ClassState.table hT
  refine ⟨T, htable, fun q hq => ⟨hcolumns q hq, fun c hc _ hname => ?_⟩⟩
  obtain ⟨c', hc', hstores⟩ := hcolumns q hq
  have hsame : c'.name = c.name := hstores.name.trans hname.symm
  obtain rfl := List.inj_on_of_nodup_map (hplain _ T htable).names hc' hc hsame
  exact hstores

end Verdict

/-! ## A Realm and its file -/

/-- A file, the version of the last transaction on it, and a Realm that is open on it. -/
structure Followed (G : Type) where
  stored : Stored G
  currentVersion : Nat
  realm : ReadingRealm

namespace Followed

def read (partition : Partition SchemaChange) (s : Followed G) :
    ReadingRealm × Except SchemaException Unit :=
  readSchemaFromGroupIfNeeded partition s.realm s.stored.group s.currentVersion

section Life

variable [DecidableEq V] (partition : Partition SchemaChange) (fresh : G)

/-- Something happens to the file, in a new transaction if the group changes; or the Realm
reads. A read that is refused is the last one. -/
inductive Next : Followed G → Followed G → Prop
  | changes (s : Followed G) (stored : Stored G) (currentVersion : Nat)
      (h : s.stored.Next partition fresh stored)
      (hversion : s.currentVersion < currentVersion ∨
        stored.group = s.stored.group ∧ currentVersion = s.currentVersion) :
    Next s { s with stored, currentVersion }
  | reads (s : Followed G) (realm : ReadingRealm) (h : s.read partition = (realm, .ok ())) :
    Next s { s with realm }

/-- The program has opened a file with this Realm, and since then anything has happened. -/
def Reachable (program : Program) (s : Followed G) : Prop :=
  ∃ (stored : Stored G) (group : G) (realm : ReadingRealm) (currentVersion : Nat),
    stored.Reachable partition fresh ∧ ListsStay stored.group program.schema ∧
    openRealm partition fresh stored.group program.schema program.version =
      (group, .ok realm.toRealm) ∧
    realm.schemaTransactionVersion ≤ currentVersion ∧
    Relation.ReflTransGen (Next partition fresh) ⟨⟨group, some program⟩, currentVersion, realm⟩ s

structure Sound (program : Program) (s : Followed G) : Prop where
  stored : s.stored.Sound partition
  tables : ∀ t ∈ program.schema.classes, (classView s.stored.group t.name).table.isSome
  classes : s.realm.schema.classes.map ObjectSchema.forgetColumns =
    program.schema.classes.map ObjectSchema.forgetColumns
  version : s.realm.schemaTransactionVersion ≤ s.currentVersion
  read : s.realm.schemaTransactionVersion = s.currentVersion →
    program.IsKept s.stored.group ∧ program.schema.Positioned s.realm.schema s.stored.group

end Life

section Invariant

variable [LawfulCore G] [DecidableEq V] {partition : Partition SchemaChange} {fresh : G}
  {program : Program} {s t : Followed G}

/-- No version of the program removes a table. -/
theorem table_isSome_next {stored stored' : Stored G} (h : stored.Sound partition)
    (hnext : stored.Next partition fresh stored') {n : String}
    (htable : (classView stored.group n).table.isSome) :
    (classView stored'.group n).table.isSome := by
  cases hnext with
  | opens p hlists =>
    unfold Program.opens
    rcases h.openRealm fresh p hlists with ⟨e, he, -⟩ | ⟨g', realm, hrun, hopened⟩
    · rw [he]
      exact htable
    · rw [hrun]
      show (classView g' n).table.isSome
      cases hfind : p.schema.find n with
      | none =>
        rw [hopened.migrated.others n hfind]
        exact htable
      | some t =>
        obtain ⟨hmem, rfl⟩ := find_eq_some hfind
        obtain ⟨T, hT, -⟩ := (hopened.migrated.classes t hmem).table
        rw [hT]
        rfl
  | writes g hshape =>
    have hsame := congrArg Option.isSome (hshape.classes n).table
    rw [Option.isSome_map, Option.isSome_map] at hsame
    exact hsame.trans htable

omit [DecidableEq V] in
/-- **One read.** It is accepted exactly when the file keeps what the program relies on. -/
theorem Sound.read_spec (h : s.Sound partition program) :
    (program.IsKept s.stored.group → ∃ realm, s.read partition = (realm, .ok ()) ∧
      realm.schemaTransactionVersion = s.currentVersion ∧
      program.schema.Positioned realm.schema s.stored.group) ∧
    (¬ program.IsKept s.stored.group → ∃ realm errors, errors ≠ [] ∧
      s.read partition = (realm, .error (.invalidExternalSchemaChange errors)) ∧
      realm.schema = s.realm.schema) := by
  have hverdict := verifyValidExternalChanges_iff_isKept partition h.classes h.stored.plain
    h.tables
  by_cases hskipped : s.realm.schemaTransactionVersion = s.currentVersion
  · obtain ⟨hkept, hpositioned⟩ := h.read hskipped
    refine ⟨fun _ => ⟨s.realm, ?_, hskipped, hpositioned⟩, fun hnot => absurd hkept hnot⟩
    unfold Followed.read readSchemaFromGroupIfNeeded
    rw [if_pos hskipped]
  · constructor
    · intro hkept
      refine ⟨⟨⟨s.realm.schema.copyTableColumnsFrom (schemaFromGroup s.stored.group),
        getSchemaVersion s.stored.group⟩, s.currentVersion⟩, ?_, rfl,
        positioned_of_isKept h.classes h.stored.plain hkept⟩
      unfold Followed.read readSchemaFromGroupIfNeeded
      rw [if_neg hskipped]
      dsimp only
      rw [hverdict.2 hkept]
    · intro hnot
      have hrefused := (verifyNoErrors_cases .invalidExternalSchemaChange externalVerifier
        (compare partition s.realm.schema (schemaFromGroup s.stored.group) false)).resolve_left
        fun hok => hnot (hverdict.1 hok)
      refine ⟨⟨⟨s.realm.schema, getSchemaVersion s.stored.group⟩, s.currentVersion⟩,
        (compare partition s.realm.schema (schemaFromGroup s.stored.group) false).flatMap
          externalVerifier, fun hnil => hnot (hverdict.1 ?_), ?_, rfl⟩
      · exact verifyNoErrors_ok_iff.2 (List.flatMap_eq_nil_iff.1 hnil)
      · unfold Followed.read readSchemaFromGroupIfNeeded
        rw [if_neg hskipped]
        dsimp only
        rw [show verifyValidExternalChanges _ = _ from hrefused]

theorem Sound.next (h : s.Sound partition program) (hnext : s.Next partition fresh t) :
    t.Sound partition program := by
  cases hnext with
  | changes stored currentVersion hstored hversion =>
    refine ⟨h.stored.next hstored, fun t ht => table_isSome_next h.stored hstored (h.tables t ht),
      h.classes, ?_, fun hread => ?_⟩
    · have := h.version
      show s.realm.schemaTransactionVersion ≤ currentVersion
      omega
    · have hold : s.realm.schemaTransactionVersion ≤ s.currentVersion := h.version
      have hcurrent : s.realm.schemaTransactionVersion = currentVersion := hread
      rcases hversion with hlt | ⟨hgroup, hsame⟩
      · omega
      · show program.IsKept stored.group ∧ program.schema.Positioned _ stored.group
        rw [hgroup]
        exact h.read (hcurrent.trans hsame)
  | reads realm hread =>
    obtain ⟨haccepted, hrefused⟩ := h.read_spec
    by_cases hkept : program.IsKept s.stored.group
    · obtain ⟨realm', heq, hversion, hpositioned⟩ := haccepted hkept
      obtain rfl : realm = realm' := congrArg Prod.fst (hread.symm.trans heq)
      exact ⟨h.stored, h.tables, hpositioned.classes, hversion.le, fun _ => ⟨hkept, hpositioned⟩⟩
    · obtain ⟨realm', errors, -, heq, -⟩ := hrefused hkept
      have hresult := congrArg Prod.snd (hread.symm.trans heq)
      cases hresult

theorem sound_of_reachable (hfresh : Empty fresh) (h : s.Reachable partition fresh program) :
    s.Sound partition program := by
  obtain ⟨stored, group, realm, currentVersion, hstored, hlists, hrun, hversion, hnexts⟩ := h
  have hsound := ObjectStore.sound_of_reachable hfresh hstored
  obtain ⟨e, he, -⟩ | ⟨group', realm', hrun', hopened⟩ := hsound.openRealm fresh program hlists
  · rw [hrun] at he
    cases he
  obtain ⟨rfl, hrealm⟩ := Prod.mk.inj (hrun'.symm.trans hrun)
  obtain rfl := Except.ok.inj hrealm
  have hopens : (program.opens partition fresh stored).Sound partition :=
    hsound.next (.opens stored program hlists)
  rw [Program.opens_of_ok partition fresh hrun] at hopens
  have hpositioned := hopened.positioned hsound.plain
  have hstart : (⟨⟨group', some program⟩, currentVersion, realm⟩ : Followed G).Sound partition
      program :=
    { stored := hopens
      tables := fun t ht => by
        obtain ⟨T, hT, -⟩ := (hopened.migrated.classes t ht).table
        rw [hT]
        rfl
      classes := hpositioned.classes
      version := hversion
      read := fun _ => ⟨Program.isKept_of_migrated hopened.migrated, hpositioned⟩ }
  induction hnexts with
  | refl => exact hstart
  | tail _ hnext ih => exact ih.next hnext

end Invariant

end Followed

end OverwatchTeams.ObjectStore
