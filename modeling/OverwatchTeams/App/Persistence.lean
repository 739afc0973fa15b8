import OverwatchTeams.App.TeamsScreen

/-!
# Saves of the teams screen

The closures a run puts on the main queue are known in advance: the cached list
is shown, then the network list is saved and shown. `Ran` says that some of them
were executed and the others wait, in this order, whatever the owner does. The
save of a network list is followed by the closure that shows it, which keeps the
presenter, and so the repository, alive: no save is dropped (`Ran.next`).

So a network list is on screen only after its write transaction, and with its teams
in the database if that one has committed (`persist_before_display`); and a whole run
writes exactly the list it received (`launch_database`). Over many launches on one
database nothing is ever deleted, and the cached list is what the responses have
accumulated (`cached_list_accumulates`).
-/

namespace OverwatchTeams

open Combine TeamsPresenterImp

namespace MainClosure

def batch : MainClosure → Option (List TeamModel)
  | save domainModels => some domainModels
  | showContent _ _ => none

end MainClosure

namespace TeamStore

variable {ρ : Type}

def Commits (store : TeamStore ρ) : Prop :=
  ∀ selfAlive commits, store.saveClosure selfAlive commits = store.saveClosure selfAlive true

/-- The closure of a live repository executes one transaction, with its whole batch. -/
def Executes (store : TeamStore ρ) : Prop :=
  ∀ commits domainModels database, (store.saveClosure true commits domainModels database).2 =
    some (domainModels.map TeamRealmEntity.init)

def writeAll (store : TeamStore ρ) (database : ρ) (batches : List (List TeamModel)) : ρ :=
  batches.foldl
    (fun database domainModels => (store.saveClosure true true domainModels database).1) database

/-- The store of an app whose write transactions all commit. -/
def committing (store : TeamStore ρ) : TeamStore ρ where
  get := store.get
  saveClosure := fun selfAlive _ => store.saveClosure selfAlive true

theorem committing_commits (store : TeamStore ρ) : store.committing.Commits := fun _ _ => rfl

end TeamStore

theorem TeamsRealmRepository.store_executes : TeamsRealmRepository.store.Executes :=
  fun commits domainModels realm => congrArg Prod.snd (saveClosure_alive commits domainModels realm)

theorem writeAll_eq (realm : Realm) (batches : List (List TeamModel)) :
    TeamsRealmRepository.store.committing.writeAll realm batches =
      realm.upsertAll (batches.flatten.map TeamRealmEntity.init) := by
  induction batches generalizing realm with
  | nil => rfl
  | cons domainModels batches ih =>
    rw [List.flatten_cons, List.map_append, Keyed.Table.upsertAll_append]
    exact ih (realm.upsertAll (domainModels.map TeamRealmEntity.init))

def NetworkOutcome.lists : NetworkOutcome → List (List TeamModel)
  | .success vs => [asDomainModels vs]
  | .failure _ => []

namespace Screen

variable {ρ : Type} {store : TeamStore ρ} {database : ρ} {o : NetworkOutcome}

/-- The closures a run has put on the main queue at a phase of the service. -/
def closures (localModels : List TeamModel) (o : NetworkOutcome) (p : Phase) : List MainClosure :=
  (cachedEmission localModels).map (fun models => contentClosure (.cached, models)) ++
    match p, o with
    | .waiting, _ | _, .failure _ => []
    | _, .success vs => [.save (asDomainModels vs), contentClosure (.network, asDomainModels vs)]

/-- Which closure runs next: the one that shows the cached list, the save with the
network content behind it, or that content with the save done. -/
theorem next_closure {L : List TeamModel} {p : Phase} {executed q : List MainClosure}
    {closure : MainClosure} (h : executed ++ closure :: q = closures L o p) :
    closure = contentClosure (.cached, L) ∨
    ∃ vs, o = .success vs ∧
      ((closure = .save (asDomainModels vs) ∧ q = [contentClosure (.network, asDomainModels vs)]) ∨
        (closure = contentClosure (.network, asDomainModels vs) ∧
          .save (asDomainModels vs) ∈ executed)) := by
  unfold closures cachedEmission at h
  -- At most three closures: where `executed` ends says which one is next.
  split at h <;> split at h <;> rcases executed with _ | ⟨a, _ | ⟨b, _ | ⟨c, executed⟩⟩⟩ <;>
    simp only [List.map_nil, List.map_cons, List.nil_append, List.cons_append, List.append_nil,
      List.cons.injEq, List.append_eq_nil_iff, List.cons_ne_nil, and_false] at h
  all_goals grind

/-- Where a run is in its closures: those `executed`, then the main queue. -/
structure Ran (store : TeamStore ρ) (database : ρ) (o : NetworkOutcome) (p : Phase)
    (executed : List MainClosure) (s : Screen ρ) : Prop where
  queue : executed ++ s.mainQueue = closures (store.get database) o p
  written : store.Executes →
    s.written = (executed.filterMap MainClosure.batch).map fun m => m.map TeamRealmEntity.init
  database : store.Commits →
    s.database = store.writeAll database (executed.filterMap MainClosure.batch)
  displayed : s.displayed = some .network →
    ∃ vs, o = .success vs ∧ s.view.cellsViewModels = cellsViewModels (asDomainModels vs) ∧
      .save (asDomainModels vs) ∈ executed

theorem ran_init :
    Ran store database o .waiting [] (teamsScreen store database o.publisher).init := by
  rw [init_eq]
  exact ⟨(List.append_nil _).symm, fun _ => rfl, fun _ => rfl, nofun⟩

theorem Ran.execute {p : Phase} {executed q : List MainClosure} {closure : MainClosure}
    {s : Screen ρ} (h : Ran store database o p executed s) (hq : s.mainQueue = closure :: q) :
    (executed ++ [closure]) ++ q = closures (store.get database) o p := by
  rw [← h.queue, hq, List.append_assoc]
  rfl

theorem batch_content (executed : List MainClosure) (viewModel : TeamsViewModel)
    (emission : Emission) :
    (executed ++ [MainClosure.showContent viewModel emission]).filterMap MainClosure.batch =
      executed.filterMap MainClosure.batch := by
  rw [List.filterMap_append]
  exact List.append_nil _

/-- **No save is dropped.** A step puts the run's next closures on the main queue,
or executes the first of those that wait; a save finds the repository alive. -/
theorem Ran.next {p p' : Phase} {executed : List MainClosure} {s t : Screen ρ}
    (h : Ran store database o p executed s) (hp : Progress o p s) (hn : Next store o s p p' t) :
    ∃ executed', Ran store database o p' executed' t := by
  cases hn with
  | list vs ho =>
    subst ho
    refine ⟨executed, ?_, h.written, h.database, h.displayed⟩
    have hq := h.queue
    simp only [closures, List.append_nil] at hq ⊢
    rw [← hq]
    simp only [List.append_assoc, List.cons_append, List.nil_append]
  | failureShown e ho =>
    subst ho
    exact ⟨executed, h.queue, h.written, h.database, h.displayed⟩
  | failureDropped e ho =>
    subst ho
    exact ⟨executed, h.queue, h.written, h.database, h.displayed⟩
  | finished =>
    obtain ⟨vs, rfl⟩ := hp.listed rfl
    exact ⟨executed, h.queue, h.written, h.database, h.displayed⟩
  | save _ commits domainModels q hq =>
    have hqueue := h.queue
    rw [hq] at hqueue
    -- The content behind the save keeps the presenter, and so the repository.
    have halive :
        ({ s with mainQueue := q, executor := .main } : Screen ρ).repositoryAlive = true := by
      obtain heq | ⟨vs, -, ⟨-, rfl⟩ | ⟨heq, -⟩⟩ := next_closure hqueue
      · cases heq
      · simp [repositoryAlive, useCaseAlive, presenterAlive, contentClosure, MainClosure.isContent]
      · cases heq
    have hbatch : (executed ++ [MainClosure.save domainModels]).filterMap MainClosure.batch =
        executed.filterMap MainClosure.batch ++ [domainModels] := List.filterMap_append
    simp only [runClosure, halive]
    refine ⟨executed ++ [.save domainModels], h.execute hq, fun hexecutes => ?_,
      fun hcommits => ?_, fun hd => ?_⟩
    · rw [hbatch, List.map_append, ← h.written hexecutes, hexecutes]
      rfl
    · have hadded : (store.saveClosure true commits domainModels s.database).1 =
          (store.saveClosure true true domainModels s.database).1 := by
        rw [hcommits true commits]
      rw [hbatch, TeamStore.writeAll, List.foldl_append]
      exact hadded.trans (by rw [h.database hcommits]; rfl)
    · obtain ⟨vs, ho, hrows, hmem⟩ := h.displayed hd
      exact ⟨vs, ho, hrows, List.mem_append_left _ hmem⟩
  | content _ viewModel emission q hq =>
    have hqueue := h.queue
    rw [hq] at hqueue
    have hbatch := batch_content executed viewModel emission
    refine ⟨executed ++ [.showContent viewModel emission], h.execute hq, hbatch ▸ h.written,
      hbatch ▸ h.database, fun hd => ?_⟩
    cases hd
    obtain heq | ⟨vs, ho, ⟨heq, -⟩ | ⟨heq, hsaved⟩⟩ := next_closure hqueue
    · cases heq
    · cases heq
    · cases heq
      exact ⟨vs, ho, rfl, List.mem_append_left _ hsaved⟩
  | contentDropped _ viewModel emission q hq =>
    have hbatch := batch_content executed viewModel emission
    refine ⟨executed ++ [.showContent viewModel emission], h.execute hq, hbatch ▸ h.written,
      hbatch ▸ h.database, fun hd => ?_⟩
    obtain ⟨vs, ho, hrows, hmem⟩ := h.displayed hd
    exact ⟨vs, ho, hrows, List.mem_append_left _ hmem⟩
  | select | release => exact ⟨executed, h.queue, h.written, h.database, h.displayed⟩

theorem reachable_ran {s : Screen ρ} (h : (teamsScreen store database o.publisher).Reachable s) :
    ∃ p executed, Progress o p s ∧ Ran store database o p executed s := by
  obtain ⟨p, hp, executed, hran⟩ := reachable_rule
    (P := fun p s => ∃ executed, Ran store database o p executed s) h ⟨_, ran_init⟩
    (fun _ _ _ _ hp ⟨_, hran⟩ hn => hran.next hp hn)
  exact ⟨p, executed, hp, hran⟩

theorem Ran.batches {p : Phase} {executed : List MainClosure} {s : Screen ρ}
    (h : Ran store database o p executed s) :
    List.Sublist (executed.filterMap MainClosure.batch) o.lists := by
  have hclosures : List.Sublist
      ((closures (store.get database) o p).filterMap MainClosure.batch) o.lists := by
    unfold closures cachedEmission
    rw [List.filterMap_append]
    cases p with
    | waiting => split <;> exact List.nil_sublist _
    | listed | ended => cases o <;> split <;> exact List.Sublist.refl _
  refine List.Sublist.trans ?_ hclosures
  rw [← h.queue, List.filterMap_append]
  exact List.sublist_append_left ..

theorem Ran.batches_displayed {p : Phase} {executed : List MainClosure} {s : Screen ρ}
    (h : Ran store database o p executed s) (hdisplayed : s.displayed = some .network) :
    ∃ vs, o = .success vs ∧ s.view.cellsViewModels = cellsViewModels (asDomainModels vs) ∧
      executed.filterMap MainClosure.batch = [asDomainModels vs] := by
  obtain ⟨vs, rfl, hrows, hmem⟩ := h.displayed hdisplayed
  refine ⟨vs, rfl, hrows, ?_⟩
  have hsaved : asDomainModels vs ∈ executed.filterMap MainClosure.batch :=
    List.mem_filterMap.2 ⟨_, hmem, rfl⟩
  rcases List.sublist_singleton.1 h.batches with hnil | hone
  · rw [hnil] at hsaved
    cases hsaved
  · exact hone

theorem run_committing {ls : List ScreenLabel} (hls : .execute false ∉ ls) (s : Screen ρ) :
    (teamsScreen store.committing database o.publisher).run s ls =
      (teamsScreen store database o.publisher).run s ls := by
  induction ls generalizing s with
  | nil => rfl
  | cons l ls ih =>
    rw [List.mem_cons, not_or] at hls
    have hstep : step store.committing o.publisher s l = step store o.publisher s l := by
      cases l with
      | execute commits =>
        cases commits with
        | true => rfl
        | false => exact absurd rfl hls.1
      | deliver | select | release => rfl
    show (step store.committing o.publisher s l).bind _ = (step store o.publisher s l).bind _
    rw [hstep]
    exact Option.bind_congr fun t _ => ih hls.2 t

/-- **Persist before display.** Whatever the interleaving and whenever the owner lets
go, a screen that shows a network list because of its network emission has executed
the write transaction of that list, and no other. If the transactions of the run have
committed, the database is the one of the launch with that list added. -/
theorem persist_before_display (database : Realm) (o : NetworkOutcome) (ls : List ScreenLabel)
    (s : Screen Realm)
    (h : (teamsScreen TeamsRealmRepository.store database o.publisher).run
      (teamsScreen TeamsRealmRepository.store database o.publisher).init ls = some s)
    (hdisplayed : s.displayed = some .network) :
    ∃ vs, o = .success vs ∧ s.view.cellsViewModels = cellsViewModels (asDomainModels vs) ∧
      s.written = [(asDomainModels vs).map TeamRealmEntity.init] ∧
      (.execute false ∉ ls →
        s.database = database.add ((asDomainModels vs).map TeamRealmEntity.init)) := by
  obtain ⟨p, executed, -, hran⟩ := reachable_ran ⟨ls, h⟩
  obtain ⟨vs, rfl, hrows, hbatches⟩ := hran.batches_displayed hdisplayed
  refine ⟨vs, rfl, hrows, ?_, fun hls => ?_⟩
  · rw [hran.written TeamsRealmRepository.store_executes, hbatches]
    rfl
  · have hrun : (teamsScreen TeamsRealmRepository.store.committing database
        (NetworkOutcome.success vs).publisher).run
        (teamsScreen TeamsRealmRepository.store.committing database
          (NetworkOutcome.success vs).publisher).init ls = some s :=
      (run_committing hls _).trans h
    obtain ⟨p', executed', -, hran'⟩ := reachable_ran ⟨ls, hrun⟩
    obtain ⟨vs', ho, -, hbatches'⟩ := hran'.batches_displayed hdisplayed
    cases ho
    rw [hran'.database (TeamStore.committing_commits _), hbatches', writeAll_eq,
      List.flatten_singleton]
    rfl

/-- The Boston Uprising, listed over a cached Dallas Fuel: saved, then shown, and the owner
lets go. -/
theorem persist_before_display_boston :
    ∃ s, (teamsScreen TeamsRealmRepository.store dallasRealm
        (NetworkOutcome.success [bostonUprising]).publisher).run
        (teamsScreen TeamsRealmRepository.store dallasRealm
          (NetworkOutcome.success [bostonUprising]).publisher).init
        [.deliver, .execute true, .execute true, .execute true, .release] = some s ∧
      s.view.cellsViewModels = [⟨"bos.png", "Boston Uprising", "BOS"⟩] ∧
      s.written = [[.init bostonUprising.asDomain]] ∧
      s.database = dallasRealm.add [.init bostonUprising.asDomain] := by
  obtain ⟨s, hs, hdisplayed⟩ : ∃ s, (teamsScreen TeamsRealmRepository.store dallasRealm
        (NetworkOutcome.success [bostonUprising]).publisher).run
        (teamsScreen TeamsRealmRepository.store dallasRealm
          (NetworkOutcome.success [bostonUprising]).publisher).init
        [.deliver, .execute true, .execute true, .execute true, .release] = some s ∧
      s.displayed = some .network := ⟨_, rfl, rfl⟩
  obtain ⟨vs, ho, hrows, hwritten, hdatabase⟩ := persist_before_display _ _ _ s hs hdisplayed
  cases ho
  exact ⟨s, hs, hrows, hwritten, hdatabase (by decide)⟩

end Screen

/-! ## Launches on one database -/

/-- One launch: a screen whose service completed and whose main queue is empty. -/
def Launch (realm : Realm) (o : NetworkOutcome) (realm' : Realm) : Prop :=
  ∃ s, (teamsScreen TeamsRealmRepository.store.committing realm o.publisher).Reachable s ∧
    s.subscribed = false ∧ s.mainQueue = [] ∧ s.database = realm'

inductive Launches : List NetworkOutcome → Realm → Prop where
  | first : Launches [] Keyed.Table.empty
  | next {os : List NetworkOutcome} {o : NetworkOutcome} {realm realm' : Realm} :
      Launches os realm → Launch realm o realm' → Launches (os ++ [o]) realm'

/-- **A launch writes the list it received**, and nothing else. -/
theorem launch_database {realm realm' : Realm} {o : NetworkOutcome} (h : Launch realm o realm') :
    realm' = TeamsRealmRepository.store.committing.writeAll realm o.lists := by
  obtain ⟨s, hs, hcompleted, hq, rfl⟩ := h
  obtain ⟨p, executed, hp, hran⟩ := Screen.reachable_ran hs
  obtain rfl := hp.ended hcompleted
  have hall := hran.queue
  rw [hq, List.append_nil] at hall
  rw [hran.database (TeamStore.committing_commits _), hall]
  congr 1
  unfold Screen.closures cachedEmission
  rw [List.filterMap_append]
  cases o <;> split <;> rfl

theorem launch_writeAll (realm : Realm) (o : NetworkOutcome) :
    Launch realm o (TeamsRealmRepository.store.committing.writeAll realm o.lists) := by
  have hrun : ∃ ls s, (teamsScreen TeamsRealmRepository.store.committing realm o.publisher).run
      (teamsScreen TeamsRealmRepository.store.committing realm o.publisher).init ls = some s ∧
      s.subscribed = false ∧ s.mainQueue = [] ∧
      s.database = TeamsRealmRepository.store.committing.writeAll realm o.lists := by
    rw [Screen.init_eq]
    cases TeamsRealmRepository.store.committing.get realm with
    | nil =>
      cases o with
      | success vs =>
        exact ⟨[.deliver, .execute true, .execute true, .deliver], _, rfl, rfl, rfl, rfl⟩
      | failure e => exact ⟨[.deliver], _, rfl, rfl, rfl, rfl⟩
    | cons m L =>
      cases o with
      | success vs =>
        exact ⟨[.execute true, .deliver, .execute true, .execute true, .deliver], _, rfl, rfl, rfl,
          rfl⟩
      | failure e => exact ⟨[.execute true, .deliver], _, rfl, rfl, rfl, rfl⟩
  obtain ⟨ls, s, hs, h⟩ := hrun
  exact ⟨s, ⟨ls, hs⟩, h⟩

def listed (os : List NetworkOutcome) : List TeamModel := (os.flatMap NetworkOutcome.lists).flatten

def TeamsRealmRepository.key (team : TeamModel) : String := (TeamRealmEntity.init team).id

theorem launches_database {os : List NetworkOutcome} {realm : Realm} (h : Launches os realm) :
    realm = Keyed.Table.empty.upsertAll ((listed os).map TeamRealmEntity.init) := by
  induction h with
  | first => rfl
  | @next os o realm realm' _ hlaunch ih =>
    rw [launch_database hlaunch, writeAll_eq, ih, ← Keyed.Table.upsertAll_append, ← List.map_append]
    congr 2
    simp [listed]

theorem mem_get_launches {os : List NetworkOutcome} {realm : Realm} (h : Launches os realm)
    {team : TeamModel} :
    team ∈ TeamsRealmRepository.get realm ↔
      Keyed.latest TeamsRealmRepository.key (TeamsRealmRepository.key team) (listed os) =
        some team := by
  have hsaved : realm.Saved := by
    rw [launches_database h]
    exact Realm.saved_empty.add (listed os)
  rw [TeamsRealmRepository.mem_get hsaved, launches_database h, Keyed.Table.view_upsertAll,
    Keyed.Table.view_empty, Option.or_none, Keyed.latest_map, Option.map_eq_some_iff]
  constructor
  · rintro ⟨m, hm, heq⟩
    obtain rfl := TeamRealmEntity.init_injective heq
    exact hm
  · intro hm
    exact ⟨team, hm, rfl⟩

theorem get_launches_eq_nil {os : List NetworkOutcome} {realm : Realm} (h : Launches os realm) :
    TeamsRealmRepository.get realm = [] ↔ listed os = [] := by
  constructor
  · intro hnil
    refine List.eq_nil_iff_forall_not_mem.2 fun team hteam => ?_
    -- The last listing of this team's key would be read.
    cases hlast :
      Keyed.latest TeamsRealmRepository.key (TeamsRealmRepository.key team) (listed os) with
    | none => exact Keyed.latest_eq_none.1 hlast team hteam rfl
    | some last =>
      have hmem : last ∈ TeamsRealmRepository.get realm :=
        (mem_get_launches h).2 (by rw [Keyed.key_of_latest hlast, hlast])
      rw [hnil] at hmem
      cases hmem
  · intro hnil
    refine List.eq_nil_iff_forall_not_mem.2 fun team hteam => ?_
    have hlast := (mem_get_launches h).1 hteam
    rw [hnil] at hlast
    cases hlast

theorem listed_eq_nil {os : List NetworkOutcome} :
    listed os = [] ↔ ∀ vs, .success vs ∈ os → vs = [] := by
  unfold listed
  rw [List.flatten_eq_nil_iff]
  constructor
  · intro h vs hvs
    have := h (asDomainModels vs) (List.mem_flatMap.2 ⟨_, hvs, List.mem_singleton.2 rfl⟩)
    exact List.map_eq_nil_iff.1 this
  · intro h models hmodels
    obtain ⟨o, ho, hmem⟩ := List.mem_flatMap.1 hmodels
    cases o with
    | success vs => rw [List.mem_singleton.1 hmem, h vs ho]; rfl
    | failure e => cases hmem

/-- **The cache accumulates.** After any launches, the cached list of the next one
holds exactly the teams that are the last listing of their key in all the
successful responses, and there is one unless all of these were empty. -/
theorem cached_list_accumulates (os : List NetworkOutcome) (realm : Realm) (h : Launches os realm) :
    (∀ models ∈ cachedEmission (TeamsRealmRepository.get realm), ∀ team,
      team ∈ models ↔
        Keyed.latest TeamsRealmRepository.key (TeamsRealmRepository.key team) (listed os) =
          some team) ∧
    (cachedEmission (TeamsRealmRepository.get realm) = [] ↔ ∀ vs, .success vs ∈ os → vs = []) := by
  unfold cachedEmission
  constructor
  · intro models hmodels team
    split at hmodels
    · cases hmodels
    · rw [List.mem_singleton.1 hmodels]
      exact mem_get_launches h
  · rw [← listed_eq_nil, ← get_launches_eq_nil h]
    cases TeamsRealmRepository.get realm <;> simp

theorem launches_dallas_removed :
    Launches [.success [dallasFuel], .success []] Screen.dallasRealm :=
  .next (.next .first (launch_writeAll _ (.success [dallasFuel]))) (launch_writeAll _ (.success []))

theorem cached_list_accumulates_dallas :
    (∀ models ∈ cachedEmission (TeamsRealmRepository.get Screen.dallasRealm), ∀ team,
      team ∈ models ↔
        Keyed.latest TeamsRealmRepository.key (TeamsRealmRepository.key team)
          (listed [.success [dallasFuel], .success []]) = some team) ∧
    (cachedEmission (TeamsRealmRepository.get Screen.dallasRealm) = [] ↔
      ∀ vs, .success vs ∈ [NetworkOutcome.success [dallasFuel], .success []] → vs = []) :=
  cached_list_accumulates _ _ launches_dallas_removed

/-- A team the last response does not list is still in the cached list. -/
theorem removed_team_stays_cached :
    ¬ ∀ (os : List NetworkOutcome) (realm : Realm), Launches os realm →
      ∀ models ∈ cachedEmission (TeamsRealmRepository.get realm), ∀ team ∈ models,
        ∀ last, (os.flatMap NetworkOutcome.lists).getLast? = some last →
          (team.name, team.abbreviatedName) ∈ last.map fun t => (t.name, t.abbreviatedName) := by
  intro h
  have hmem := h _ _ launches_dallas_removed [⟨"dal.png", "Dallas Fuel", "DAL", "Dallas, TX"⟩]
    (by decide) ⟨"dal.png", "Dallas Fuel", "DAL", "Dallas, TX"⟩ (by decide) [] rfl
  cases hmem

end OverwatchTeams
