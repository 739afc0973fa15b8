import OverwatchTeams.App.Persistence

/-!
# Sessions that end anywhere

A launch of `Persistence` runs to its end and all its transactions commit. A
session may end at any point of any run, with the app killed or the screen given
up, and any of its transactions may fail. What is in the database afterwards are
some of the received lists, each whole and in the order they were received
(`sessions_iff`).

Also here: what a list that is received again changes (`launch_unchanged_iff`), what
an offline launch shows (`offline_shows_accumulated`), and that a screen always gets
to its end (`completes`).
-/

namespace OverwatchTeams

open Combine TeamsPresenterImp

/-! ## What is left after a session -/

namespace Screen

variable {realm : Realm} {o : NetworkOutcome} {s t : Screen Realm}

/-- The database holds the start and some of the batches written, each whole. -/
def Kept (realm : Realm) (s : Screen Realm) : Prop :=
  ∃ kept : List (List TeamModel),
    List.Sublist (kept.map fun m => m.map TeamRealmEntity.init) s.written ∧
    s.database = TeamsRealmRepository.store.committing.writeAll realm kept

theorem kept_save (h : Kept realm s) (commits : Bool) (domainModels : List TeamModel) :
    Kept realm (runClosure TeamsRealmRepository.store commits (.save domainModels) s) := by
  obtain ⟨kept, hkept, hdatabase⟩ := h
  cases halive : s.repositoryAlive with
  | false =>
    refine ⟨kept, hkept.trans (List.sublist_append_left ..), ?_⟩
    simp only [runClosure, halive]
    exact hdatabase
  | true =>
    cases commits with
    | false =>
      refine ⟨kept, hkept.trans (List.sublist_append_left ..), ?_⟩
      simp only [runClosure, halive]
      exact hdatabase
    | true =>
      refine ⟨kept ++ [domainModels], ?_, ?_⟩
      · simp only [runClosure, halive, List.map_append]
        exact hkept.append (List.Sublist.refl _)
      · simp only [runClosure, halive]
        unfold TeamStore.writeAll at hdatabase ⊢
        rw [List.foldl_append, ← hdatabase]
        rfl

theorem reachable_kept
    (h : (teamsScreen TeamsRealmRepository.store realm o.publisher).Reachable s) :
    Kept realm s := by
  obtain ⟨p, -, hkept⟩ := reachable_rule (P := fun _ s => Kept realm s) h
    (by rw [init_eq]; exact ⟨[], List.Sublist.refl _, rfl⟩)
    (fun p p' s t _ hs hn => by
      cases hn with
      | save _ commits domainModels q hq => exact kept_save (by exact hs) commits domainModels
      | list | failureShown | failureDropped | finished | content | contentDropped | select
      | release => exact hs)
  exact hkept

theorem kept_sublist
    (h : (teamsScreen TeamsRealmRepository.store realm o.publisher).Reachable s)
    {kept : List (List TeamModel)}
    (hkept : List.Sublist (kept.map fun m => m.map TeamRealmEntity.init) s.written) :
    List.Sublist kept o.lists := by
  obtain ⟨p, executed, -, hran⟩ := reachable_ran h
  rw [hran.written TeamsRealmRepository.store_executes, List.sublist_map_iff] at hkept
  obtain ⟨batches, hbatches, heq⟩ := hkept
  rw [(TeamRealmEntity.init_injective.list_map).list_map heq]
  exact hbatches.trans hran.batches

end Screen

/-- One session: any state of any run, with transactions that commit or fail. -/
def Session (realm : Realm) (o : NetworkOutcome) (realm' : Realm) : Prop :=
  ∃ s, (teamsScreen TeamsRealmRepository.store realm o.publisher).Reachable s ∧
    s.database = realm'

inductive Sessions : List NetworkOutcome → Realm → Prop where
  | first : Sessions [] Keyed.Table.empty
  | next {os : List NetworkOutcome} {o : NetworkOutcome} {realm realm' : Realm} :
      Sessions os realm → Session realm o realm' → Sessions (os ++ [o]) realm'

theorem session_writes (realm : Realm) (vs : List TeamNetworkModel) :
    Session realm (.success vs)
      (TeamsRealmRepository.store.committing.writeAll realm [asDomainModels vs]) := by
  let M := teamsScreen TeamsRealmRepository.store realm (NetworkOutcome.success vs).publisher
  have hrun : ∃ ls s, M.run M.init ls = some s ∧
      s.database = TeamsRealmRepository.store.committing.writeAll realm [asDomainModels vs] := by
    have hinit : M.init = _ := Screen.init_eq realm
    rw [hinit]
    cases TeamsRealmRepository.store.get realm with
    | nil => exact ⟨[.deliver, .execute true], _, rfl, rfl⟩
    | cons m L => exact ⟨[.execute true, .deliver, .execute true], _, rfl, rfl⟩
  obtain ⟨ls, s, hs, hdatabase⟩ := hrun
  exact ⟨s, ⟨ls, hs⟩, hdatabase⟩

/-- **One session keeps all of its list or nothing.** -/
theorem session_iff {realm realm' : Realm} {o : NetworkOutcome} :
    Session realm o realm' ↔ ∃ kept, List.Sublist kept o.lists ∧
      realm' = TeamsRealmRepository.store.committing.writeAll realm kept := by
  constructor
  · rintro ⟨s, hs, rfl⟩
    obtain ⟨kept, hkept, hdatabase⟩ := Screen.reachable_kept hs
    exact ⟨kept, Screen.kept_sublist hs hkept, hdatabase⟩
  · rintro ⟨kept, hkept, rfl⟩
    cases o with
    | failure e =>
      obtain rfl := List.sublist_nil.1 hkept
      exact ⟨_, .start, by rw [Screen.init_eq]; rfl⟩
    | success vs =>
      rcases List.sublist_singleton.1 hkept with rfl | rfl
      · exact ⟨_, .start, by rw [Screen.init_eq]; rfl⟩
      · exact session_writes realm vs

/-- **Crash consistency.** After any sessions, each ended at any point and with
transactions that commit or fail, the database holds some of the received lists, each
whole and in the order they were received; and any choice of them can be what is
left. -/
theorem sessions_iff (os : List NetworkOutcome) (realm : Realm) :
    Sessions os realm ↔ ∃ kept : List (List TeamModel),
      List.Sublist kept (os.flatMap NetworkOutcome.lists) ∧
      realm = Keyed.Table.empty.upsertAll (kept.flatten.map TeamRealmEntity.init) := by
  constructor
  · intro h
    induction h with
    | first => exact ⟨[], List.Sublist.refl _, rfl⟩
    | @next os o realm realm' _ hsession ih =>
      obtain ⟨kept, hkept, rfl⟩ := ih
      obtain ⟨last, hlast, rfl⟩ := session_iff.1 hsession
      refine ⟨kept ++ last, ?_, ?_⟩
      · rw [List.flatMap_append, List.flatMap_singleton]
        exact hkept.append hlast
      · rw [writeAll_eq, ← Keyed.Table.upsertAll_append, ← List.map_append, List.flatten_append]
  · rintro ⟨kept, hkept, rfl⟩
    induction os using List.reverseRecOn generalizing kept with
    | nil =>
      obtain rfl := List.sublist_nil.1 hkept
      exact .first
    | append_singleton os o ih =>
      rw [List.flatMap_append, List.flatMap_singleton] at hkept
      obtain ⟨before, last, rfl, hbefore, hlast⟩ := List.sublist_append_iff.1 hkept
      have hsession := Sessions.next (ih before hbefore) (session_iff.2 ⟨last, hlast, rfl⟩)
      rwa [writeAll_eq, ← Keyed.Table.upsertAll_append, ← List.map_append,
        ← List.flatten_append] at hsession

/-! ## Lists that are received again -/

/-- **What a launch changes.** It leaves the database as it was, the order of the rows
included, exactly when the last listing of each key it received is already cached. So
a response that is received again changes nothing, even when it lists teams that
share a key. -/
theorem launch_unchanged_iff (realm realm' : Realm) (o : NetworkOutcome)
    (h : Launch realm o realm') :
    (realm' = realm ↔ ∀ k entity,
      Keyed.latest TeamRealmEntity.id k (o.lists.flatten.map TeamRealmEntity.init) = some entity →
        realm.view k = some entity) ∧
    ∀ realm'', Launch realm' o realm'' → realm'' = realm' := by
  refine ⟨?_, fun realm'' h' => ?_⟩
  · rw [launch_database h, writeAll_eq, Keyed.Table.upsertAll_eq_self_iff]
  · rw [launch_database h', launch_database h, writeAll_eq, writeAll_eq,
      Keyed.Table.upsertAll_upsertAll]

theorem launch_unchanged_dallas :
    ∃ realm', Launch Screen.dallasRealm (.success [dallasFuel]) realm' ∧
      realm' = Screen.dallasRealm := by
  have hlaunch := launch_writeAll Screen.dallasRealm (.success [dallasFuel])
  refine ⟨_, hlaunch, (launch_unchanged_iff _ _ _ hlaunch).1.2 fun k entity hlatest => ?_⟩
  have hkey := Keyed.key_of_latest hlatest
  obtain rfl := List.mem_singleton.1 (Keyed.mem_of_latest hlatest)
  subst hkey
  decide

/-! ## Offline launches -/

namespace Screen

variable {ρ : Type} {store : TeamStore ρ} {database : ρ} {o : NetworkOutcome} {s t : Screen ρ}

theorem no_error (h : (teamsScreen store database o.publisher).Reachable s)
    (halive : s.released = false) (hshow : store.get database ≠ []) :
    s.view.visible.error = none := by
  obtain ⟨p, shown, pending, -, hat⟩ := reachable_at h halive
  have herrors : errors (store.get database) o p = [] := by
    unfold errors
    split
    · next hnil => exact absurd hnil hshow
    · rfl
  rw [hat.visible, if_pos herrors]
  split <;> rfl

end Screen

/-- **Offline, the app shows what the responses have accumulated.** After launches that
listed some team, a launch whose request fails never shows the error while it is owned
and configures its view on the main thread only; and it ends with a table of exactly
the teams that are the last listing of their key. -/
theorem offline_shows_accumulated (os : List NetworkOutcome) (realm : Realm)
    (h : Launches os realm) (hlisted : ∃ vs, .success vs ∈ os ∧ vs ≠ [])
    (e : NetworkPlataformError) (s : Screen Realm)
    (hs : (teamsScreen TeamsRealmRepository.store realm
      (NetworkOutcome.failure e).publisher).Reachable s) :
    (∀ c ∈ s.configured, c.1 = .main) ∧
    (s.released = false → s.view.visible.error = none) ∧
    (s.released = false → s.subscribed = false → s.mainQueue = [] →
      ∃ models, s.view.visible = ⟨false, none, some (cellsViewModels models)⟩ ∧ models.Nodup ∧
        ∀ team, team ∈ models ↔
          Keyed.latest TeamsRealmRepository.key (TeamsRealmRepository.key team) (listed os) =
            some team) := by
  have hget : TeamsRealmRepository.store.get realm ≠ [] := by
    intro hnil
    obtain ⟨vs, hvs, hne⟩ := hlisted
    exact hne (listed_eq_nil.1 ((get_launches_eq_nil h).1 hnil) vs hvs)
  have hshow : ¬ Screen.NothingToShow (TeamsRealmRepository.store.get realm) (.failure e) :=
    fun hnothing => hget hnothing.1
  refine ⟨Screen.configured_main hs hshow, fun halive => Screen.no_error hs halive hget,
    fun halive hcompleted hq => ?_⟩
  rcases Screen.final_visible hs halive hcompleted hq with ⟨hnothing, -⟩ | ⟨-, hvisible⟩
  · exact absurd hnothing hshow
  · have hsaved : realm.Saved := by
      rw [launches_database h]
      exact Realm.saved_empty.add (listed os)
    exact ⟨_, hvisible, TeamsRealmRepository.get_nodup hsaved, fun team => mem_get_launches h⟩

theorem offline_shows_dallas :
    ∃ s, (teamsScreen TeamsRealmRepository.store Screen.dallasRealm
        (NetworkOutcome.failure .unkown).publisher).Reachable s ∧
      ∃ models, s.view.visible = ⟨false, none, some (cellsViewModels models)⟩ ∧ models.Nodup ∧
        ∀ team, team ∈ models ↔
          Keyed.latest TeamsRealmRepository.key (TeamsRealmRepository.key team)
            (listed [.success [dallasFuel], .success []]) = some team := by
  let M := teamsScreen TeamsRealmRepository.store Screen.dallasRealm
    (NetworkOutcome.failure .unkown).publisher
  obtain ⟨s, hs, halive, hcompleted, hq⟩ : ∃ s, M.run M.init [.deliver, .execute true] = some s ∧
      s.released = false ∧ s.subscribed = false ∧ s.mainQueue = [] := ⟨_, rfl, rfl, rfl, rfl⟩
  have hoffline := offline_shows_accumulated _ _ launches_dallas_removed
    ⟨[dallasFuel], by simp, by simp⟩ .unkown s ⟨_, hs⟩
  exact ⟨s, ⟨_, hs⟩, hoffline.2.2 halive hcompleted hq⟩

/-! ## Getting to the end -/

/-- The service sends an event, or the main queue runs a closure. -/
def ScreenLabel.isInternal : ScreenLabel → Bool
  | .deliver | .execute _ => true
  | .select _ | .release => false

namespace Screen

variable {ρ : Type} {store : TeamStore ρ} {database : ρ} {o : NetworkOutcome} {s t : Screen ρ}

/-- The steps that the events of the service take: a list is delivered, saved and shown,
a completion is delivered. -/
def upstreamWork : List (Event (List TeamNetworkModel) NetworkPlataformError) → Nat
  | [] => 0
  | .value _ :: rest => upstreamWork rest + 3
  | .completion _ :: rest => upstreamWork rest + 1

def work (s : Screen ρ) : Nat := upstreamWork s.upstream + s.mainQueue.length

theorem work_eq_zero : s.work = 0 ↔ s.upstream = [] ∧ s.mainQueue = [] := by
  unfold work
  constructor
  · intro h
    have hqueue : s.mainQueue.length = 0 := by omega
    have hupstream : upstreamWork s.upstream = 0 := by omega
    refine ⟨?_, List.length_eq_zero_iff.1 hqueue⟩
    cases hu : s.upstream with
    | nil => rfl
    | cons event rest =>
      rw [hu] at hupstream
      cases event <;> simp only [upstreamWork] at hupstream <;> omega
  · rintro ⟨hupstream, hqueue⟩
    rw [hupstream, hqueue]
    rfl

theorem step_work_deliver {p : Phase} (hp : Progress o p s)
    (h : step store o.publisher s .deliver = some t) : 1 + t.work = s.work := by
  simp only [step] at h
  split at h
  · cases h
  · next event rest hup =>
    have hended : p ≠ .ended := by
      rintro rfl
      exact List.cons_ne_nil _ _ (hup.symm.trans hp.upstream)
    have halive : s.useCaseAlive = true := by
      simp [useCaseAlive, presenterAlive, hp.subscribed.2 hended]
    cases h
    cases event with
    | value vs =>
      rw [receive_value_of_alive _ vs (by exact halive)]
      simp only [work, hup, upstreamWork, List.length_append, List.length_singleton]
      omega
    | completion c =>
      cases c with
      | finished =>
        rw [receive_finished]
        simp only [work, hup, upstreamWork]
        omega
      | failure e =>
        rw [receive_failure, configureViewController_run]
        have hwork : ∀ u : Screen ρ, u.upstream = rest → u.mainQueue = s.mainQueue →
            1 + u.work = s.work := by
          intro u hu hq
          simp only [work, hup, hu, hq, upstreamWork]
          omega
        split
        · split <;> exact hwork _ rfl rfl
        · exact hwork _ rfl rfl

theorem runClosure_work (commits : Bool) (closure : MainClosure) :
    (runClosure store commits closure s).work = s.work := by
  cases closure with
  | save domainModels => rfl
  | showContent viewModel emission =>
    rw [runClosure, configureViewController_run]
    split <;> rfl

/-- Every internal step does one unit of work, and no other step adds any. -/
theorem step_work {p : Phase} {l : ScreenLabel} (hp : Progress o p s)
    (h : step store o.publisher s l = some t) :
    (if l.isInternal then 1 else 0) + t.work = s.work := by
  cases l with
  | deliver => exact step_work_deliver hp h
  | execute commits =>
    simp only [step] at h
    split at h
    · cases h
    · next closure q hq =>
      cases h
      rw [runClosure_work]
      simp only [work, hq, List.length_cons, ScreenLabel.isInternal, if_true]
      omega
  | select row =>
    simp only [step, selectRow] at h
    split at h
    · obtain ⟨team, -, rfl⟩ := Option.map_eq_some_iff.1 h
      exact Nat.zero_add _
    · cases h
  | release =>
    cases h
    exact Nat.zero_add _

theorem progress_step {l : ScreenLabel} (hs : ∃ p, Progress o p s)
    (h : step store o.publisher s l = some t) : ∃ p, Progress o p t := by
  obtain ⟨p, hp⟩ := hs
  obtain ⟨p', hn⟩ := next_of_step hp h
  exact ⟨p', hn.progress hp⟩

theorem internal_step (hs : ∃ p, Progress o p s) (hwork : s.work ≠ 0) :
    ∃ l t, l.isInternal = true ∧ step store o.publisher s l = some t ∧ t.work < s.work := by
  obtain ⟨p, hp⟩ := hs
  obtain ⟨l, t, hl, ht⟩ : ∃ l t, l.isInternal = true ∧ step store o.publisher s l = some t := by
    cases hq : s.mainQueue with
    | cons closure q => exact ⟨.execute true, _, rfl, by simp only [step, hq]; rfl⟩
    | nil =>
      cases hup : s.upstream with
      | cons event rest => exact ⟨.deliver, _, rfl, by simp only [step, hup]; rfl⟩
      | nil => exact absurd (work_eq_zero.2 ⟨hup, hq⟩) hwork
  have hdone := step_work hp ht
  rw [if_pos hl] at hdone
  exact ⟨l, t, hl, ht, by omega⟩

theorem Progress.completed {p : Phase} (hp : Progress o p s) (hup : s.upstream = []) :
    s.subscribed = false := by
  have hnone := hp.upstream
  rw [hup] at hnone
  cases p with
  | waiting => cases o <;> cases hnone
  | listed => cases hnone
  | ended =>
    cases hsubscribed : s.subscribed with
    | false => rfl
    | true => exact absurd rfl (hp.subscribed.1 hsubscribed)

/-- The internal steps of a launch: one for the cached list, and four with the network
list or one without it. -/
def launchWork (localModels : List TeamModel) : NetworkOutcome → Nat
  | .success _ => (cachedEmission localModels).length + 4
  | .failure _ => (cachedEmission localModels).length + 1

theorem work_init :
    (teamsScreen store database o.publisher).init.work = launchWork (store.get database) o := by
  rw [init_eq]
  unfold work launchWork
  rw [List.length_map]
  cases o with
  | success vs => exact Nat.add_comm ..
  | failure e => exact Nat.add_comm ..

end Screen

end OverwatchTeams
