import OverwatchTeams.Domain.Models
import Mathlib.Data.Nat.Find

/-!
# Opening the database

`RealmFactory.createInstance` tries to open the Realm file and, when anything
throws, deletes the file and calls itself. `deleteRealm` swallows its own
errors, so that a call whose every operation fails is followed by the next one.

The environment is what the system answers during each call. With fuel for the
recursion, `createInstance` returns exactly when some call opens the file
(`terminates_iff`), and it returns at the first such call (`createInstance_eq`).
-/

namespace OverwatchTeams.RealmFactory

structure CocoaError where
  localizedDescription : String
  deriving DecidableEq, Repr

inductive FactoryError where
  | domain (error : DomainError)
  | cocoa (error : CocoaError)
  deriving DecidableEq, Repr

def realmName : String := "overwatch.teams.realm"

structure DirectoryOutcome where
  /-- The first documents directory, if there is one. -/
  documentDirectory : Option String
  fileExists : Bool
  createDirectory : Except CocoaError Unit

def getUrl (o : DirectoryOutcome) : Except FactoryError String := do
  match o.documentDirectory with
  | none => throw (.domain .domainUnkown)
  | some directory =>
    if !o.fileExists then
      o.createDirectory.mapError .cocoa
    return directory ++ "/" ++ realmName

structure Configuration where
  fileURL : String
  schemaVersion : Nat
  deriving DecidableEq, Repr

/-- What the system answers during one call of `createInstance`: to `getUrl` and
`Realm(configuration:)`, then, when one of them throws, to `getUrl` and
`removeItem` in `deleteRealm`. -/
structure Call (R : Type) where
  directory : DirectoryOutcome
  realm : Configuration → Except CocoaError R
  deletionDirectory : DirectoryOutcome
  removeItem : String → Except CocoaError Unit

variable {R : Type}

/-- The `do` block of `createInstance`. -/
def openRealm (c : Call R) : Except FactoryError R := do
  let url ← getUrl c.directory
  let configuration : Configuration := { fileURL := url, schemaVersion := 0 }
  (c.realm configuration).mapError .cocoa

/-- `deleteRealm`: the error it prints, if the file could not be deleted. -/
def deleteRealm (c : Call R) : Option FactoryError :=
  let deletion : Except FactoryError Unit := do
    (c.removeItem (← getUrl c.deletionDirectory)).mapError .cocoa
  match deletion with
  | .ok () => none
  | .error error => some error

structure Opened (R : Type) where
  realm : R
  calls : Nat
  console : List FactoryError

/-- `createInstance` from its `n`-th recursive call on, for `fuel` calls. -/
def createInstance (env : Nat → Call R) : Nat → Nat → List FactoryError → Option (Opened R)
  | 0, _, _ => none
  | fuel + 1, n, console =>
    match openRealm (env n) with
    | .ok realm => some ⟨realm, n, console⟩
    | .error _ => createInstance env fuel (n + 1) (console ++ (deleteRealm (env n)).toList)

def Call.Opens (c : Call R) : Prop :=
  ∃ url realm, getUrl c.directory = .ok url ∧ c.realm ⟨url, 0⟩ = .ok realm

def Terminates (env : Nat → Call R) : Prop :=
  ∃ fuel opened, createInstance env fuel 0 [] = some opened

theorem opens_iff {c : Call R} : c.Opens ↔ ∃ realm, openRealm c = .ok realm := by
  unfold Call.Opens openRealm
  cases hu : getUrl c.directory with
  | error e =>
    constructor
    · rintro ⟨_, _, h, _⟩
      cases h
    · rintro ⟨_, h⟩
      cases h
  | ok url =>
    cases hr : c.realm ⟨url, 0⟩ with
    | error e =>
      constructor
      · rintro ⟨_, _, h, h'⟩
        cases h
        rw [hr] at h'
        cases h'
      · rintro ⟨_, h⟩
        simp only [bind, Except.bind, hr] at h
        cases h
    | ok realm =>
      refine ⟨fun _ => ⟨realm, ?_⟩, fun _ => ⟨url, realm, rfl, hr⟩⟩
      simp only [bind, Except.bind, hr]
      rfl

theorem createInstance_retry {env : Nat → Call R} {n : Nat} (h : ¬ (env n).Opens) (fuel : Nat)
    (console : List FactoryError) :
    createInstance env (fuel + 1) n console =
      createInstance env fuel (n + 1) (console ++ (deleteRealm (env n)).toList) := by
  cases ho : openRealm (env n) with
  | ok realm => exact absurd (opens_iff.2 ⟨realm, ho⟩) h
  | error e => simp only [createInstance, ho]

theorem createInstance_eq_none {env : Nat → Call R} {fuel n : Nat} {console : List FactoryError}
    (h : ∀ k, n ≤ k → ¬ (env k).Opens) : createInstance env fuel n console = none := by
  induction fuel generalizing n console with
  | zero => rfl
  | succ fuel ih =>
    rw [createInstance_retry (h n (Nat.le_refl n))]
    exact ih fun k hk => h k (by omega)

/-- The first call that opens the file is the one `createInstance` returns from. -/
theorem createInstance_eq (env : Nat → Call R) {d n : Nat} {realm : R}
    (hfail : ∀ k, n ≤ k → k < n + d → ¬ (env k).Opens) (hopen : openRealm (env (n + d)) = .ok realm)
    (console : List FactoryError) :
    createInstance env (d + 1) n console =
      some ⟨realm, n + d,
        console ++ (List.range' n d).flatMap fun k => (deleteRealm (env k)).toList⟩ := by
  induction d generalizing n console with
  | zero =>
    rw [Nat.add_zero] at hopen
    simp [createInstance, hopen]
  | succ d ih =>
    rw [createInstance_retry (hfail n (Nat.le_refl n) (by omega)),
      ih (fun k h1 h2 => hfail k (by omega) (by omega))
        (by rwa [show n + 1 + d = n + (d + 1) by omega])]
    simp [List.range'_succ, show n + 1 + d = n + (d + 1) by omega]

/-- **When the database gets opened.** For every behaviour of the system,
`createInstance` returns after finitely many recursive calls if and only if some
call opens the file. -/
theorem terminates_iff (env : Nat → Call R) : Terminates env ↔ ∃ k, (env k).Opens := by
  constructor
  · rintro ⟨fuel, opened, h⟩
    by_contra hnone
    rw [createInstance_eq_none fun k _ hk => hnone ⟨k, hk⟩] at h
    cases h
  · intro hex
    classical
    obtain ⟨realm, hrealm⟩ := opens_iff.1 (Nat.find_spec hex)
    have hfirst := createInstance_eq env (n := 0) (d := Nat.find hex)
      (fun k _ hk => Nat.find_min hex (by omega)) (by rwa [Nat.zero_add]) []
    exact ⟨_, _, hfirst⟩

def noDirectory : Call R where
  directory := ⟨none, false, .ok ()⟩
  realm := fun _ => .error ⟨"unreachable"⟩
  deletionDirectory := ⟨none, false, .ok ()⟩
  removeItem := fun _ => .error ⟨"unreachable"⟩

/-- Without a documents directory `createInstance` calls itself forever. -/
theorem createInstance_diverges : ¬ ∀ env : Nat → Call Unit, Terminates env := by
  intro h
  obtain ⟨fuel, opened, hopened⟩ := h fun _ => noDirectory
  rw [createInstance_eq_none (fun _ _ ⟨_, _, hurl, _⟩ => nomatch hurl)] at hopened
  cases hopened

end OverwatchTeams.RealmFactory
