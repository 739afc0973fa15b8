import OverwatchTeams.Domain.Models
import OverwatchTeams.Lib.Keyed
import OverwatchTeams.Lib.Transition

/-!
# The Realm repository

A `Realm` is a table of entities under their primary key
`"\(name)-\(abbreviatedName)"`. `save` puts a closure on the main queue whose
write transaction upserts the batch; `get` reads the whole table.

The key is not injective: two teams share it when one name goes on, past a
hyphen, with the start of the other's abbreviated name (`SharesKey`). A batch of
different teams comes back whole exactly when no two of its teams do that
(`get_after_save_iff`).
-/

namespace OverwatchTeams

/-! ## Entities -/

/-- `TeamRealmEntity`; `id` is its primary key. -/
structure TeamRealmEntity where
  id : String
  logoAddress : String
  name : String
  abbreviatedName : String
  location : String
  deriving DecidableEq, Repr

namespace TeamRealmEntity

def asDomain (e : TeamRealmEntity) : TeamModel where
  logoAddress := e.logoAddress
  name := e.name
  abbreviatedName := e.abbreviatedName
  location := e.location

def init (teamModel : TeamModel) : TeamRealmEntity where
  logoAddress := teamModel.logoAddress
  name := teamModel.name
  abbreviatedName := teamModel.abbreviatedName
  location := teamModel.location
  id := teamModel.name ++ "-" ++ teamModel.abbreviatedName

@[simp] theorem asDomain_init (m : TeamModel) : (init m).asDomain = m := rfl

def Saved (e : TeamRealmEntity) : Prop := e = init e.asDomain

theorem saved_init (m : TeamModel) : (init m).Saved := rfl

theorem init_injective : Function.Injective init := fun a b h => by
  rw [← asDomain_init a, h, asDomain_init]

end TeamRealmEntity

/-! ## Primary keys -/

/-- The two teams have one primary key and differ in name: one name is the other
name, a hyphen and `t`, and what is missing stands in front of the abbreviated
name. -/
def SharesKey (a b : TeamModel) : Prop :=
  ∃ t : String,
    (a.name = b.name ++ "-" ++ t ∧ b.abbreviatedName = t ++ "-" ++ a.abbreviatedName) ∨
    (b.name = a.name ++ "-" ++ t ∧ a.abbreviatedName = t ++ "-" ++ b.abbreviatedName)

theorem toList_hyphen (x y : String) : (x ++ "-" ++ y).toList = x.toList ++ '-' :: y.toList := by
  simp

theorem append_cons_eq {α : Type} {c : α} {n a b as : List α} (h : c :: b = as ++ c :: a)
    (hn : as ≠ []) : ∃ t, n ++ as = n ++ c :: t ∧ b = t ++ c :: a := by
  cases as with
  | nil => exact absurd rfl hn
  | cons d t =>
    simp only [List.cons_append, List.cons.injEq] at h
    exact ⟨t, by rw [h.1], h.2⟩

theorem hyphen_eq_iff {n a m b : String} :
    n ++ "-" ++ a = m ++ "-" ++ b ↔
      (n = m ∧ a = b) ∨
      ∃ t : String, (n = m ++ "-" ++ t ∧ b = t ++ "-" ++ a) ∨
        (m = n ++ "-" ++ t ∧ a = t ++ "-" ++ b) := by
  simp only [← String.toList_inj, toList_hyphen]
  constructor
  · intro h
    rcases List.append_eq_append_iff.1 h with ⟨as, hm, ha⟩ | ⟨as, hn, hb⟩
    · by_cases hnil : as = []
      · subst hnil
        simp only [List.append_nil, List.nil_append, List.cons.injEq, true_and] at hm ha
        exact .inl ⟨hm.symm, ha⟩
      · obtain ⟨t, h1, h2⟩ := append_cons_eq (n := n.toList) ha hnil
        refine .inr ⟨String.ofList t, .inr ⟨?_, ?_⟩⟩
        · rw [String.toList_ofList, hm, h1]
        · rw [String.toList_ofList, h2]
    · by_cases hnil : as = []
      · subst hnil
        simp only [List.append_nil, List.nil_append, List.cons.injEq, true_and] at hn hb
        exact .inl ⟨hn, hb.symm⟩
      · obtain ⟨t, h1, h2⟩ := append_cons_eq (n := m.toList) hb hnil
        refine .inr ⟨String.ofList t, .inl ⟨?_, ?_⟩⟩
        · rw [String.toList_ofList, hn, h1]
        · rw [String.toList_ofList, h2]
  · rintro (⟨h1, h2⟩ | ⟨t, ⟨h1, h2⟩ | ⟨h1, h2⟩⟩) <;> simp [h1, h2]

theorem id_init_eq_iff {a b : TeamModel}
    (h : (a.name, a.abbreviatedName) ≠ (b.name, b.abbreviatedName)) :
    (TeamRealmEntity.init a).id = (TeamRealmEntity.init b).id ↔ SharesKey a b := by
  have hne : ¬ (a.name = b.name ∧ a.abbreviatedName = b.abbreviatedName) := fun ⟨h1, h2⟩ =>
    h (by rw [h1, h2])
  simp only [TeamRealmEntity.init, hyphen_eq_iff, SharesKey, hne, false_or]

/-! ## The database -/

/-- The `TeamRealmEntity` objects of a Realm file. -/
abbrev Realm : Type := Keyed.Table TeamRealmEntity.id

inductive RealmError where
  | writeFailed
  deriving DecidableEq, Repr

namespace Realm

def objects (realm : Realm) : List TeamRealmEntity := realm.rows

def add (realm : Realm) (entities : List TeamRealmEntity) : Realm := realm.upsertAll entities

end Realm

/-- The objects as a write transaction sees them, and the entities it was given. -/
structure WriteTransaction where
  realm : Realm
  added : List TeamRealmEntity

def WriteTransaction.add (transaction : WriteTransaction) (entities : List TeamRealmEntity) :
    WriteTransaction where
  realm := transaction.realm.add entities
  added := transaction.added ++ entities

/-- `write`: the block is executed, and its changes are kept together when the transaction
commits. Next to the result stands what the block has added. -/
def Realm.write (realm : Realm) (block : WriteTransaction → WriteTransaction) (commits : Bool) :
    Except RealmError Realm × List TeamRealmEntity :=
  let transaction := block ⟨realm, []⟩
  (if commits then .ok transaction.realm else .error .writeFailed, transaction.added)

namespace TeamsRealmRepository

/-- The closure `save` puts on the main queue: the database afterwards, and what the
transaction has added if one was executed. `selfAlive` says whether the repository
still exists when the closure runs, `commits` whether its transaction does. -/
def saveClosure (selfAlive commits : Bool) (domainModels : List TeamModel) (realm : Realm) :
    Realm × Option (List TeamRealmEntity) :=
  if selfAlive then
    match realm.write (fun t => t.add (domainModels.map TeamRealmEntity.init)) commits with
    | (.ok realm, added) => (realm, some added)
    | (.error _, added) => (realm, some added)  -- `try?`
  else (realm, none)

def get (realm : Realm) : List TeamModel := realm.objects.map TeamRealmEntity.asDomain

end TeamsRealmRepository

namespace Realm

def Saved (realm : Realm) : Prop := ∀ e ∈ realm.objects, e.Saved

theorem saved_empty : Saved Keyed.Table.empty := fun _ he => absurd he List.not_mem_nil

theorem Saved.add {realm : Realm} (h : realm.Saved) (models : List TeamModel) :
    (realm.add (models.map TeamRealmEntity.init)).Saved := by
  refine Keyed.Table.forall_rows_upsertAll h fun e he => ?_
  obtain ⟨m, _, rfl⟩ := List.mem_map.1 he
  exact TeamRealmEntity.saved_init m

end Realm

namespace TeamsRealmRepository

theorem saveClosure_alive (commits : Bool) (domainModels : List TeamModel) (realm : Realm) :
    saveClosure true commits domainModels realm =
      (if commits then realm.add (domainModels.map TeamRealmEntity.init) else realm,
        some (domainModels.map TeamRealmEntity.init)) := by
  cases commits <;> rfl

theorem saveClosure_saved {selfAlive commits : Bool} {domainModels : List TeamModel} {realm : Realm}
    (h : realm.Saved) : (saveClosure selfAlive commits domainModels realm).1.Saved := by
  unfold saveClosure
  split
  · cases commits with
    | false => exact h
    | true => exact h.add domainModels
  · exact h

theorem mem_get {realm : Realm} (h : realm.Saved) {m : TeamModel} :
    m ∈ get realm ↔ realm.view (TeamRealmEntity.init m).id = some (TeamRealmEntity.init m) := by
  rw [← Keyed.Table.mem_rows]
  constructor
  · intro hm
    obtain ⟨e, he, rfl⟩ := List.mem_map.1 hm
    exact h e he ▸ he
  · exact fun hm => List.mem_map.2 ⟨_, hm, rfl⟩

theorem get_nodup {realm : Realm} (h : realm.Saved) : (get realm).Nodup := by
  refine realm.rows_nodup.map_on fun a ha b hb hab => ?_
  rw [h a ha, h b hb, hab]

end TeamsRealmRepository

/-! ## Saves and the main queue -/

structure RepositoryState where
  realm : Realm
  mainQueue : List (List TeamModel)

inductive RepositoryLabel where
  /-- `save(domainModels:)` is called. -/
  | save (domainModels : List TeamModel)
  /-- The main queue runs its first closure. -/
  | execute (commits : Bool)

def repositorySystem : Transition.System RepositoryState RepositoryLabel where
  init := ⟨Keyed.Table.empty, []⟩
  step := fun s l =>
    match l, s.mainQueue with
    | .save domainModels, q => some { s with mainQueue := q ++ [domainModels] }
    | .execute _, [] => none
    | .execute commits, domainModels :: q =>
      some ⟨(TeamsRealmRepository.saveClosure true commits domainModels s.realm).1, q⟩

namespace repositorySystem

theorem step_saved {s t : RepositoryState} {l : RepositoryLabel} (h : s.realm.Saved)
    (hs : repositorySystem.step s l = some t) : t.realm.Saved := by
  cases l with
  | save domainModels => cases hs; exact h
  | execute commits =>
    obtain ⟨realm, q⟩ := s
    cases q with
    | nil => cases hs
    | cons domainModels q => cases hs; exact TeamsRealmRepository.saveClosure_saved h

theorem run_saved {ls : List RepositoryLabel} {s : RepositoryState}
    (h : repositorySystem.run repositorySystem.init ls = some s) : s.realm.Saved :=
  Transition.System.run_invariant (P := fun s : RepositoryState => s.realm.Saved)
    (fun _ _ _ => step_saved) Realm.saved_empty h

/-- Draining a queue that ends with `xs` leaves `xs` as the last batch written. -/
theorem drain {n : Nat} {s t : RepositoryState} {q : List (List TeamModel)} {xs : List TeamModel}
    (hq : s.mainQueue = q ++ [xs]) (hs : s.realm.Saved)
    (h : repositorySystem.run s (List.replicate n (.execute true)) = some t)
    (ht : t.mainQueue = []) :
    ∃ realm : Realm, realm.Saved ∧
      t.realm = (TeamsRealmRepository.saveClosure true true xs realm).1 := by
  induction n generalizing s q with
  | zero => cases h; simp [ht] at hq
  | succ n ih =>
    obtain ⟨u, hu, hrest⟩ := Transition.System.run_cons.1 h
    have husaved := step_saved hs hu
    obtain ⟨realm, queue⟩ := s
    cases q with
    | nil =>
      cases hq; cases hu
      cases n with
      | zero => cases hrest; exact ⟨realm, hs, rfl⟩
      | succ n =>
        obtain ⟨v, hv, -⟩ := Transition.System.run_cons.1 hrest
        cases hv
    | cons batch q => cases hq; cases hu; exact ih rfl husaved hrest

end repositorySystem

/-! ## What a saved batch leaves -/

namespace TeamsRealmRepository

theorem mem_get_saveClosure {realm : Realm} (h : realm.Saved) {xs : List TeamModel} {x : TeamModel}
    (hx : x ∈ xs) :
    x ∈ get (saveClosure true true xs realm).1 ↔
      Keyed.latest TeamRealmEntity.id (TeamRealmEntity.init x).id (xs.map TeamRealmEntity.init) =
        some (TeamRealmEntity.init x) := by
  rw [mem_get (saveClosure_saved h)]
  have hview : (saveClosure true true xs realm).1.view (TeamRealmEntity.init x).id =
      (Keyed.latest TeamRealmEntity.id (TeamRealmEntity.init x).id (xs.map TeamRealmEntity.init)).or
        (realm.view (TeamRealmEntity.init x).id) := Keyed.Table.view_upsertAll ..
  rw [hview]
  cases hl : Keyed.latest TeamRealmEntity.id (TeamRealmEntity.init x).id
      (xs.map TeamRealmEntity.init) with
  | none => exact absurd rfl (Keyed.latest_eq_none.1 hl _ (List.mem_map_of_mem hx))
  | some e => rw [Option.some_or]

theorem nodup_ids_iff {xs : List TeamModel}
    (h : xs.Pairwise fun a b => (a.name, a.abbreviatedName) ≠ (b.name, b.abbreviatedName)) :
    ((xs.map TeamRealmEntity.init).map TeamRealmEntity.id).Nodup ↔
      xs.Pairwise fun a b => ¬ SharesKey a b := by
  rw [List.Nodup, List.map_map, List.pairwise_map]
  constructor <;> intro hp
  · exact (h.and hp).imp fun ⟨hne, hid⟩ hs => hid ((id_init_eq_iff hne).2 hs)
  · exact (h.and hp).imp fun ⟨hne, hs⟩ hid => hs ((id_init_eq_iff hne).1 hid)

theorem batch_nodup {xs : List TeamModel}
    (h : xs.Pairwise fun a b => (a.name, a.abbreviatedName) ≠ (b.name, b.abbreviatedName)) :
    xs.Nodup :=
  h.imp fun hne e => hne (by rw [e])

/-- **What the cache keeps of a batch.** After any saves, let the last batch hold
different teams and let the main queue drain. Every team of the batch is then
read exactly once if and only if no two of them share a key. -/
theorem get_after_save_iff (history : List RepositoryLabel) (xs : List TeamModel) (n : Nat)
    (s : RepositoryState)
    (hxs : xs.Pairwise fun a b => (a.name, a.abbreviatedName) ≠ (b.name, b.abbreviatedName))
    (hrun : repositorySystem.run repositorySystem.init
      (history ++ .save xs :: List.replicate n (.execute true)) = some s)
    (hdrained : s.mainQueue = []) :
    (∀ x ∈ xs, (get s.realm).count x = 1) ↔ xs.Pairwise fun a b => ¬ SharesKey a b := by
  obtain ⟨u, hu, hrest⟩ := Transition.System.run_append.1 hrun
  obtain ⟨v, hv, hdrain⟩ := Transition.System.run_cons.1 hrest
  have hvq : v.mainQueue = u.mainQueue ++ [xs] := by cases hv; rfl
  have hvs : v.realm.Saved := repositorySystem.step_saved (repositorySystem.run_saved hu) hv
  obtain ⟨realm, hsaved, hs⟩ := repositorySystem.drain hvq hvs hdrain hdrained
  have hcount : ∀ x, (get s.realm).count x = 1 ↔ x ∈ get s.realm := fun x =>
    ⟨fun h => List.count_pos_iff.1 (by omega), List.count_eq_one_of_mem
      (get_nodup (hs ▸ saveClosure_saved hsaved))⟩
  have hinit : (xs.map TeamRealmEntity.init).Nodup :=
    (batch_nodup hxs).map TeamRealmEntity.init_injective
  rw [← nodup_ids_iff hxs, Keyed.nodup_keys_iff_latest hinit, List.forall_mem_map]
  refine forall₂_congr fun x hx => ?_
  rw [hcount, hs, mem_get_saveClosure hsaved hx]

/-- Two different teams whose keys are both `"a-b-c"`. -/
def sharedKeyBatch : List TeamModel :=
  [⟨"one.png", "a-b", "c", "Here"⟩, ⟨"two.png", "a", "b-c", "There"⟩]

/-- Two teams whose names hold no hyphen. -/
def plainBatch : List TeamModel :=
  [⟨"one.png", "Dallas Fuel", "DAL", "Dallas, TX"⟩,
    ⟨"two.png", "Boston Uprising", "BOS", "Boston, MA"⟩]

theorem get_after_save_plainBatch :
    (∀ x ∈ plainBatch, (get (saveClosure true true plainBatch Keyed.Table.empty).1).count x = 1) ↔
      plainBatch.Pairwise fun a b => ¬ SharesKey a b :=
  get_after_save_iff [] plainBatch 1 ⟨(saveClosure true true plainBatch Keyed.Table.empty).1, []⟩
    (by decide) rfl rfl

/-- The second team of `sharedKeyBatch` overwrites the first. -/
theorem save_loses_team_sharing_key :
    ¬ ∀ (history : List RepositoryLabel) (xs : List TeamModel) (n : Nat) (s : RepositoryState),
      (xs.Pairwise fun a b => (a.name, a.abbreviatedName) ≠ (b.name, b.abbreviatedName)) →
      repositorySystem.run repositorySystem.init
        (history ++ .save xs :: List.replicate n (.execute true)) = some s →
      s.mainQueue = [] → ∀ x ∈ xs, (get s.realm).count x = 1 := by
  intro h
  have hx := h [] sharedKeyBatch 1 ⟨(saveClosure true true sharedKeyBatch Keyed.Table.empty).1, []⟩
    (by decide) rfl rfl
  exact absurd hx (by decide)

end TeamsRealmRepository

end OverwatchTeams
