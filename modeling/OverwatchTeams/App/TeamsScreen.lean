import OverwatchTeams.App.TeamsPresenter

/-!
# What the teams screen shows

Invariants of the assembled screen over every interleaving of the service, the
main queue, the taps and the owner. `Next` lists what one step can do once the
service is at a known point of its run, and every invariant is a case analysis on
it.

`At` is the invariant of a screen that is still owned: the emissions of `getTeams`
so far are those already shown followed by those waiting in the main queue, and
the view has been configured with the loader, with the shown ones in order, and
with the error at the end when there was nothing to show.
-/

namespace OverwatchTeams.Screen

open Combine TeamsPresenterImp

variable {ρ : Type} {store : TeamStore ρ} {database : ρ} {o : NetworkOutcome}

/-! ## The service's progress -/

inductive Phase where
  | waiting
  | listed
  | ended
  deriving DecidableEq

def Phase.upstream (o : NetworkOutcome) :
    Phase → List (Event (List TeamNetworkModel) NetworkPlataformError)
  | .waiting => o.run.events
  | .listed => [.completion .finished]
  | .ended => []

structure Progress (o : NetworkOutcome) (p : Phase) (s : Screen ρ) : Prop where
  upstream : s.upstream = p.upstream o
  subscribed : s.subscribed = true ↔ p ≠ .ended
  listed : p = .listed → ∃ vs, o = .success vs

theorem Progress.ended {p : Phase} {s : Screen ρ} (hp : Progress o p s)
    (hcompleted : s.subscribed = false) : p = .ended := by
  by_contra hne
  exact absurd (hcompleted.symm.trans (hp.subscribed.2 hne)) nofun

/-- What a step can do to a screen whose service is at phase `p`, and the phase
after it. -/
inductive Next (store : TeamStore ρ) (o : NetworkOutcome) (s : Screen ρ) :
    Phase → Phase → Screen ρ → Prop where
  | list (vs : List TeamNetworkModel) (ho : o = .success vs) :
      Next store o s .waiting .listed
        { s with
          upstream := [.completion .finished]
          executor := .urlSession
          emission := .network
          teamsModels := asDomainModels vs
          mainQueue := s.mainQueue ++ [.save (asDomainModels vs)] ++
            [contentClosure (.network, asDomainModels vs)] }
  | failureShown (e : NetworkPlataformError) (ho : o = .failure e) (hempty : s.teamsModels = [])
      (halive : s.released = false) :
      Next store o s .waiting .ended
        { s with
          upstream := []
          executor := .urlSession
          emission := .network
          subscribed := false
          view := s.view.configure errorViewModel
          configured := s.configured ++ [(.urlSession, errorViewModel)] }
  | failureDropped (e : NetworkPlataformError) (ho : o = .failure e)
      (hdrop : s.teamsModels ≠ [] ∨ s.released = true) :
      Next store o s .waiting .ended
        { s with
          upstream := []
          executor := .urlSession
          emission := .network
          subscribed := false }
  | finished :
      Next store o s .listed .ended
        { s with
          upstream := []
          executor := .urlSession
          emission := .network
          subscribed := false }
  | save (p : Phase) (commits : Bool) (domainModels : List TeamModel) (q : List MainClosure)
      (hq : s.mainQueue = .save domainModels :: q) :
      Next store o s p p
        (runClosure store commits (.save domainModels) { s with mainQueue := q, executor := .main })
  | content (p : Phase) (viewModel : TeamsViewModel) (emission : Emission) (q : List MainClosure)
      (hq : s.mainQueue = .showContent viewModel emission :: q) (halive : s.released = false) :
      Next store o s p p
        { s with
          mainQueue := q
          executor := .main
          view := s.view.configure viewModel
          configured := s.configured ++ [(.main, viewModel)]
          displayed := some emission }
  | contentDropped (p : Phase) (viewModel : TeamsViewModel) (emission : Emission)
      (q : List MainClosure) (hq : s.mainQueue = .showContent viewModel emission :: q)
      (hreleased : s.released = true) :
      Next store o s p p { s with mainQueue := q, executor := .main }
  | select (p : Phase) (team : TeamModel) :
      Next store o s p p { s with executor := .main, opened := s.opened ++ [team] }
  | release (p : Phase) : Next store o s p p { s with released := true }

theorem next_of_deliver {p : Phase} {s t : Screen ρ} (hp : Progress o p s)
    (h : step store o.publisher s .deliver = some t) : ∃ p', Next store o s p p' t := by
  have hup := hp.upstream
  simp only [step] at h
  cases p with
  | waiting =>
    cases o with
    | success vs =>
      have hup' : s.upstream = [.value vs, .completion .finished] := hup
      have halive : s.useCaseAlive = true := by
        simp [useCaseAlive, presenterAlive, hp.subscribed.2 nofun]
      rw [hup'] at h
      simp only [Option.some.injEq] at h
      rw [receive_value_of_alive _ vs (by exact halive)] at h
      exact ⟨.listed, h ▸ .list vs rfl⟩
    | failure e =>
      have hup' : s.upstream = [.completion (.failure e)] := hup
      rw [hup'] at h
      simp only [Option.some.injEq] at h
      rw [receive_failure, configureViewController_run] at h
      refine ⟨.ended, ?_⟩
      by_cases hempty : s.teamsModels = []
      · rw [if_pos (List.isEmpty_iff.2 hempty)] at h
        cases hr : s.released with
        | false =>
          rw [if_pos (by simp [viewControllerAlive, hr])] at h
          exact h ▸ .failureShown e rfl hempty hr
        | true =>
          rw [if_neg (by simp [viewControllerAlive, hr])] at h
          exact h ▸ .failureDropped e rfl (.inr hr)
      · rw [if_neg (by simpa using hempty)] at h
        exact h ▸ .failureDropped e rfl (.inl hempty)
  | listed =>
    have hup' : s.upstream = [.completion .finished] := hup
    rw [hup'] at h
    simp only [Option.some.injEq] at h
    rw [receive_finished] at h
    exact ⟨.ended, h ▸ .finished⟩
  | ended =>
    have hup' : s.upstream = [] := hup
    rw [hup'] at h
    cases h

theorem next_of_step {p : Phase} {s t : Screen ρ} {l : ScreenLabel} (hp : Progress o p s)
    (h : step store o.publisher s l = some t) : ∃ p', Next store o s p p' t := by
  cases l with
  | deliver => exact next_of_deliver hp h
  | execute commits =>
    cases hq : s.mainQueue with
    | nil => simp only [step, hq] at h; cases h
    | cons closure q =>
      simp only [step, hq, Option.some.injEq] at h
      refine ⟨p, ?_⟩
      cases closure with
      | save domainModels => exact h ▸ .save p commits domainModels q hq
      | showContent viewModel emission =>
        rw [runClosure, configureViewController_run] at h
        cases hr : s.released with
        | false =>
          have halive : s.viewControllerAlive = true := by simp [viewControllerAlive, hr]
          rw [if_pos (by exact halive), if_pos (by exact halive)] at h
          exact h ▸ .content p viewModel emission q hq hr
        | true =>
          have hgone : ¬ s.viewControllerAlive = true := by simp [viewControllerAlive, hr]
          rw [if_neg (by exact hgone), if_neg (by exact hgone)] at h
          exact h ▸ .contentDropped p viewModel emission q hq hr
  | select row =>
    simp only [step, selectRow] at h
    split at h
    · obtain ⟨team, -, rfl⟩ := Option.map_eq_some_iff.1 h
      exact ⟨p, .select p team⟩
    · cases h
  | release => cases h; exact ⟨p, .release p⟩

theorem Next.progress {p p' : Phase} {s t : Screen ρ} (hn : Next store o s p p' t)
    (hp : Progress o p s) : Progress o p' t := by
  cases hn with
  | list vs ho =>
    exact ⟨rfl, ⟨nofun, fun _ => hp.subscribed.2 nofun⟩, fun _ => ⟨vs, ho⟩⟩
  | failureShown | failureDropped | finished =>
    exact ⟨rfl, ⟨nofun, fun h => absurd rfl h⟩, nofun⟩
  | save | content | contentDropped | select | release =>
    exact ⟨hp.upstream, hp.subscribed, hp.listed⟩

theorem progress_init : Progress o .waiting (teamsScreen store database o.publisher).init := by
  rw [init_eq]
  exact ⟨rfl, ⟨nofun, fun _ => rfl⟩, nofun⟩

/-- **The rule for invariants of the screen**: what holds of the first state and
survives each `Next` holds of every reachable state, at some phase. -/
theorem reachable_rule {P : Phase → Screen ρ → Prop} {s : Screen ρ}
    (h : (teamsScreen store database o.publisher).Reachable s)
    (h0 : P .waiting (teamsScreen store database o.publisher).init)
    (hstep : ∀ p p' s t, Progress o p s → P p s → Next store o s p p' t → P p' t) :
    ∃ p, Progress o p s ∧ P p s := by
  refine h.invariant (P := fun s => ∃ p, Progress o p s ∧ P p s) ⟨.waiting, progress_init, h0⟩ ?_
  rintro s l t ⟨p, hp, hs⟩ ht
  obtain ⟨p', hn⟩ := next_of_step hp ht
  exact ⟨p', hn.progress hp, hstep p p' s t hp hs hn⟩

/-! ## What an owned screen shows -/

def emissions (localModels : List TeamModel) (o : NetworkOutcome) (p : Phase) :
    List (Emission × List TeamModel) :=
  (cachedEmission localModels).map (fun models => (.cached, models)) ++
    match p, o with
    | .waiting, _ | _, .failure _ => []
    | _, .success vs => [(.network, asDomainModels vs)]

def lastModels (es : List (Emission × List TeamModel)) : List TeamModel :=
  (es.getLast?.map Prod.snd).getD []

/-- The error configured at a phase: with nothing cached and nothing received. -/
def errors (localModels : List TeamModel) (o : NetworkOutcome) (p : Phase) :
    List (Executor × TeamsViewModel) :=
  match p, o, localModels with
  | .ended, .failure _, [] => [(.urlSession, errorViewModel)]
  | _, _, _ => []

/-- The invariant of an owned screen, by the emissions `shown` and the emissions
`pending` in the main queue. -/
structure At (localModels : List TeamModel) (o : NetworkOutcome) (p : Phase)
    (shown pending : List (Emission × List TeamModel)) (s : Screen ρ) : Prop where
  emissions : shown ++ pending = emissions localModels o p
  teamsModels : s.teamsModels = lastModels (Screen.emissions localModels o p)
  queue : s.mainQueue.filter MainClosure.isContent = pending.map contentClosure
  configured : s.configured =
    (.main, .init .loading) :: shown.map (fun e => (.main, contentViewModel e.2)) ++
      errors localModels o p
  view : s.view = (s.configured.map Prod.snd).foldl (fun v viewModel => v.configure viewModel) .init

section Owned

variable {L : List TeamModel} {p p' : Phase} {shown pending : List (Emission × List TeamModel)}
  {s t : Screen ρ}

theorem errors_of_emissions (h : emissions L o p ≠ []) :
    errors L o p = [] := by
  unfold errors
  split
  · exact absurd rfl h
  · rfl

theorem at_init : At (store.get database) o .waiting []
    (emissions (store.get database) o .waiting)
    (teamsScreen store database o.publisher).init := by
  rw [init_eq]
  cases hL : store.get database with
  | nil => exact ⟨rfl, rfl, rfl, rfl, rfl⟩
  | cons m L => exact ⟨rfl, rfl, rfl, rfl, rfl⟩

theorem At.teamsModels_waiting (h : At L o .waiting shown pending s) : s.teamsModels = L := by
  rw [h.teamsModels]
  cases L <;> rfl

theorem At.pop {viewModel : TeamsViewModel} {emission : Emission} {q : List MainClosure}
    (h : At L o p shown pending s) (hq : s.mainQueue = .showContent viewModel emission :: q) :
    ∃ models rest, pending = (emission, models) :: rest ∧ viewModel = contentViewModel models ∧
      q.filter MainClosure.isContent = rest.map contentClosure := by
  have hqueue := h.queue
  rw [hq, List.filter_cons_of_pos rfl] at hqueue
  cases pending with
  | nil => cases hqueue
  | cons e rest =>
    obtain ⟨emission', models⟩ := e
    simp only [List.map_cons, contentClosure, List.cons.injEq,
      MainClosure.showContent.injEq] at hqueue
    obtain ⟨⟨rfl, rfl⟩, hrest⟩ := hqueue
    exact ⟨models, rest, rfl, rfl, hrest⟩

/-- One step of an owned screen: a list of the service joins the pending
emissions, a content closure moves the first of them to the shown ones. -/
theorem At.next (h : At L o p shown pending s) (hp : Progress o p s) (hn : Next store o s p p' t)
    (halive : t.released = false) : ∃ shown' pending', At L o p' shown' pending' t := by
  cases hn with
  | list vs ho =>
    subst ho
    refine ⟨shown, pending ++ [(.network, asDomainModels vs)], ?_, ?_, ?_, ?_, h.view⟩
    · rw [← List.append_assoc, h.emissions]
      simp only [Screen.emissions, List.append_nil]
    · simp only [lastModels, Screen.emissions, List.getLast?_concat, Option.map_some,
        Option.getD_some]
    · simp only [List.filter_append, h.queue, List.map_append, List.append_assoc]
      rfl
    · rw [h.configured]
      rfl
  | failureShown e ho hempty =>
    subst ho
    have hL : L = [] := h.teamsModels_waiting.symm.trans hempty
    subst hL
    obtain ⟨rfl, rfl⟩ := List.append_eq_nil_iff.1 h.emissions
    refine ⟨[], [], rfl, h.teamsModels, h.queue, ?_, ?_⟩
    · rw [h.configured]
      rfl
    · simp only [List.map_append, List.foldl_append, h.view]
      rfl
  | failureDropped e ho hdrop =>
    subst ho
    have hL : L ≠ [] := by
      rintro rfl
      rcases hdrop with hne | hreleased
      · exact hne h.teamsModels
      · exact absurd (hreleased.symm.trans halive) nofun
    refine ⟨shown, pending, h.emissions, h.teamsModels, h.queue, ?_, h.view⟩
    rw [h.configured]
    cases L with
    | nil => exact absurd rfl hL
    | cons m L => rfl
  | finished =>
    obtain ⟨vs, rfl⟩ := hp.listed rfl
    exact ⟨shown, pending, h.emissions, h.teamsModels, h.queue, h.configured, h.view⟩
  | save _ commits domainModels q hq =>
    refine ⟨shown, pending, h.emissions, h.teamsModels, ?_, h.configured, h.view⟩
    rw [← h.queue, hq]
    rfl
  | content _ viewModel emission q hq =>
    obtain ⟨models, rest, rfl, rfl, hrest⟩ := h.pop hq
    have herr : errors L o p = [] := errors_of_emissions (by rw [← h.emissions]; simp)
    refine ⟨shown ++ [(emission, models)], rest, ?_, h.teamsModels, hrest, ?_, ?_⟩
    · rw [List.append_assoc]
      exact h.emissions
    · rw [h.configured, herr]
      simp
    · simp only [List.map_append, List.foldl_append, h.view]
      rfl
  | contentDropped _ _ _ _ _ hreleased => exact absurd (hreleased.symm.trans halive) nofun
  | select =>
    exact ⟨shown, pending, h.emissions, h.teamsModels, h.queue, h.configured, h.view⟩
  | release => cases halive

theorem Next.released (hn : Next store o s p p' t) (halive : t.released = false) :
    s.released = false := by
  cases hn with
  | release => cases halive
  | list | failureShown | failureDropped | finished | save | content | contentDropped | select =>
    exact halive

/-- **An owned screen is always at some point of the emissions.** -/
theorem reachable_at (h : (teamsScreen store database o.publisher).Reachable s)
    (halive : s.released = false) :
    ∃ p shown pending, Progress o p s ∧ At (store.get database) o p shown pending s := by
  obtain ⟨p, hp, hs⟩ := reachable_rule
    (P := fun p s => s.released = false →
      ∃ shown pending, At (store.get database) o p shown pending s)
    h (fun _ => ⟨_, _, at_init⟩) (fun p p' s t hp hs hn ht => by
      obtain ⟨shown, pending, hat⟩ := hs (hn.released ht)
      exact hat.next hp hn ht)
  obtain ⟨shown, pending, hat⟩ := hs halive
  exact ⟨p, shown, pending, hp, hat⟩

theorem At.view_eq (h : At L o p shown pending s) (herr : errors L o p = []) :
    s.view = TeamsViewImp.init.configureAll
      (.loading :: (shown.map fun e => cellsViewModels e.2).map .showContent) := by
  rw [h.view, h.configured, herr]
  simp only [TeamsViewImp.configureAll, List.append_nil, List.map_cons, List.map_map,
    List.foldl_cons, List.foldl_map]
  rfl

theorem At.view_error (h : At L o p shown pending s) (herr : errors L o p ≠ []) :
    shown = [] ∧ s.view = TeamsViewImp.init.configureAll
      [.loading, .showError "Sorry, something went wrong! =("] := by
  have hemissions : Screen.emissions L o p = [] := by
    by_contra hne
    exact herr (errors_of_emissions hne)
  obtain ⟨rfl, -⟩ := List.append_eq_nil_iff.1 (h.emissions.trans hemissions)
  refine ⟨rfl, ?_⟩
  rw [h.view, h.configured]
  unfold errors at herr ⊢
  split at herr
  · rfl
  · exact absurd rfl herr

/-- What an owned screen shows: the error when it is configured, else the last
emission shown, else the loader. -/
theorem At.visible (h : At L o p shown pending s) :
    s.view.visible =
      if errors L o p = [] then
        match shown.getLast? with
        | none => ⟨true, none, none⟩
        | some e => ⟨false, none, some (cellsViewModels e.2)⟩
      else ⟨false, some (some "Sorry, something went wrong! =("), none⟩ := by
  by_cases herr : errors L o p = []
  · rw [if_pos herr, h.view_eq herr]
    rcases List.eq_nil_or_concat' shown with rfl | ⟨before, e, rfl⟩
    · exact TeamsViewImp.visible_loading
    · rw [List.map_append, List.getLast?_concat]
      exact TeamsViewImp.visible_content _ _
  · rw [if_neg herr, (h.view_error herr).2]
    exact TeamsViewImp.visible_error _

theorem At.rows (h : At L o p shown pending s) :
    s.view.cellsViewModels = cellsViewModels (lastModels shown) := by
  by_cases herr : errors L o p = []
  · rw [h.view_eq herr]
    rcases List.eq_nil_or_concat' shown with rfl | ⟨before, e, rfl⟩
    · rfl
    · rw [List.map_append, lastModels, List.getLast?_concat]
      exact congrArg TeamsViewImp.cellsViewModels (TeamsViewImp.configureAll_contents _ _ _)
  · obtain ⟨rfl, hview⟩ := h.view_error herr
    rw [hview]
    rfl

theorem At.oneMode (h : At L o p shown pending s) : s.view.visible.OneMode := by
  rw [h.visible]
  unfold TeamsViewImp.Visible.OneMode
  split
  · split
    · exact .inl ⟨rfl, rfl, rfl⟩
    · exact .inr (.inr ⟨rfl, rfl, rfl⟩)
  · exact .inr (.inl ⟨rfl, rfl, rfl⟩)

theorem At.all_shown (h : At L o p shown pending s) (hp : Progress o p s)
    (hcompleted : s.subscribed = false) (hq : s.mainQueue = []) :
    p = .ended ∧ shown = Screen.emissions L o .ended := by
  obtain rfl := hp.ended hcompleted
  have hpending : pending.map contentClosure = [] := by
    rw [← h.queue, hq]
    rfl
  rw [List.map_eq_nil_iff] at hpending
  have hall := h.emissions
  rw [hpending, List.append_nil] at hall
  exact ⟨rfl, hall⟩

theorem shown_cases (h : shown ++ pending = emissions L o p) :
    shown = [] ∨ pending = [] ∨
      ∃ vs, o = .success vs ∧ shown = [(.cached, L)] ∧
        pending = [(.network, asDomainModels vs)] := by
  rcases shown with _ | ⟨e, shown⟩
  · exact .inl rfl
  rcases pending with _ | ⟨e', pending⟩
  · exact .inr (.inl rfl)
  -- Two emissions: the cached list and the network list.
  refine .inr (.inr ?_)
  unfold emissions cachedEmission at h
  by_cases hL : L.isEmpty
  · rw [if_pos hL] at h
    split at h <;> simp at h
  · rw [if_neg hL] at h
    split at h
    · simp at h
    · simp at h
    · next vs _ =>
      simp only [List.cons_append, List.map_cons, List.map_nil, List.nil_append,
        List.cons.injEq] at h
      obtain ⟨rfl, hrest⟩ := h
      rcases shown with _ | ⟨e'', shown⟩
      · exact ⟨vs, rfl, rfl, hrest⟩
      · simp at hrest

end Owned

def finalModels (localModels : List TeamModel) : NetworkOutcome → List TeamModel
  | .success vs => asDomainModels vs
  | .failure _ => localModels

def NothingToShow (localModels : List TeamModel) (o : NetworkOutcome) : Prop :=
  localModels = [] ∧ ∃ e, o = .failure e

theorem final_visible {s : Screen ρ} (h : (teamsScreen store database o.publisher).Reachable s)
    (halive : s.released = false) (hcompleted : s.subscribed = false) (hq : s.mainQueue = []) :
    (NothingToShow (store.get database) o ∧
      s.view.visible = ⟨false, some (some "Sorry, something went wrong! =("), none⟩) ∨
    (¬ NothingToShow (store.get database) o ∧
      s.view.visible =
        ⟨false, none, some (cellsViewModels (finalModels (store.get database) o))⟩) := by
  obtain ⟨p, shown, pending, hp, hat⟩ := reachable_at h halive
  obtain ⟨rfl, rfl⟩ := hat.all_shown hp hcompleted hq
  rw [hat.visible]
  cases o with
  | success vs =>
    refine .inr ⟨(by rintro ⟨-, e, he⟩; cases he), ?_⟩
    rw [if_pos (errors_of_emissions (by simp [emissions]))]
    simp only [emissions, List.getLast?_concat, finalModels]
  | failure e =>
    cases hL : store.get database with
    | nil => exact .inl ⟨⟨rfl, e, rfl⟩, rfl⟩
    | cons m L => exact .inr ⟨(by rintro ⟨hnil, -⟩; cases hnil), rfl⟩

/-- **One mode at a time, and the right one at the end.** For every cached list,
every outcome of the service and every interleaving, an owned screen shows
exactly one of the loader, the error and the table. Once the service completed and
the main queue is empty, it shows the error if nothing was cached and the network
failed, and the table otherwise, with the network's list if there is one. -/
theorem oneMode_and_final (store : TeamStore ρ) (database : ρ) (o : NetworkOutcome) (s : Screen ρ)
    (h : (teamsScreen store database o.publisher).Reachable s) (halive : s.released = false) :
    s.view.visible.OneMode ∧
    (s.subscribed = false → s.mainQueue = [] →
      (s.view.visible.error.isSome ↔ NothingToShow (store.get database) o) ∧
      (¬ NothingToShow (store.get database) o →
        s.view.visible.table = some (cellsViewModels (finalModels (store.get database) o)))) := by
  refine ⟨?_, fun hcompleted hq => ?_⟩
  · obtain ⟨p, shown, pending, hp, hat⟩ := reachable_at h halive
    exact hat.oneMode
  · rcases final_visible h halive hcompleted hq with ⟨hnothing, hv⟩ | ⟨hsome, hv⟩
    · rw [hv]
      exact ⟨⟨fun _ => hnothing, fun _ => rfl⟩, fun hsome => absurd hnothing hsome⟩
    · rw [hv]
      exact ⟨⟨nofun, fun hnothing => absurd hnothing hsome⟩, fun _ => rfl⟩

def dallasRealm : Realm :=
  Keyed.Table.empty.upsert (.init ⟨"dal.png", "Dallas Fuel", "DAL", "Dallas, TX"⟩)

/-- The cached team is on screen when the network lists another one. -/
theorem oneMode_and_final_boston :
    ∃ s, (teamsScreen TeamsRealmRepository.store dallasRealm
        (NetworkOutcome.success [bostonUprising]).publisher).Reachable s ∧
      s.released = false ∧ s.subscribed = false ∧ s.mainQueue = [] ∧
      s.view.visible.OneMode ∧
      s.view.visible.table = some [⟨"bos.png", "Boston Uprising", "BOS"⟩] := by
  let M := teamsScreen TeamsRealmRepository.store dallasRealm
    (NetworkOutcome.success [bostonUprising]).publisher
  obtain ⟨s, hs, halive, hcompleted, hq⟩ : ∃ s, M.run M.init
      [.execute true, .deliver, .execute true, .deliver, .execute true] = some s ∧
      s.released = false ∧ s.subscribed = false ∧ s.mainQueue = [] := ⟨_, rfl, rfl, rfl, rfl⟩
  obtain ⟨hmode, hfinal⟩ := oneMode_and_final TeamsRealmRepository.store dallasRealm
    (.success [bostonUprising]) s ⟨_, hs⟩ halive
  exact ⟨s, ⟨_, hs⟩, halive, hcompleted, hq, hmode,
    (hfinal hcompleted hq).2 (by rintro ⟨-, e, he⟩; cases he)⟩

/-! ## What a tap opens -/

def TapsOpenShown (s : Screen ρ) : Prop :=
  ∀ row cell, s.view.cellsViewModels[row]? = some cell →
    ∃ team, (selectRow row s).map Screen.opened = some (s.opened ++ [team]) ∧
      team.logoAddress = cell.logoAddress ∧ team.name = cell.name ∧
      team.abbreviatedName = cell.abbreviatedName

theorem selectRow_opened {s : Screen ρ} (halive : s.released = false) {row : Nat}
    (hrow : row < s.view.cellsViewModels.length) :
    (selectRow row s).map Screen.opened =
      s.teamsModels[row]?.map fun team => s.opened ++ [team] := by
  rw [selectRow, if_pos ⟨by simp [viewControllerAlive, halive], hrow⟩, Option.map_map]
  rfl

theorem tapsOpenShown_iff {s : Screen ρ} (halive : s.released = false) :
    s.TapsOpenShown ↔ s.view.cellsViewModels <+: cellsViewModels s.teamsModels := by
  rw [List.prefix_iff_getElem?]
  constructor
  · intro h row hrow
    obtain ⟨team, hopen, hlogo, hname, habbreviated⟩ := h row _ (List.getElem?_eq_getElem hrow)
    rw [selectRow_opened halive hrow, Option.map_eq_some_iff] at hopen
    obtain ⟨team', hteam, heq⟩ := hopen
    obtain rfl : team' = team := by simpa using heq
    rw [cellsViewModels, List.getElem?_map, hteam, Option.map_some, hlogo, hname, habbreviated]
  · intro h row cell hget
    obtain ⟨hrow, rfl⟩ := List.getElem?_eq_some_iff.1 hget
    have hcell := h row hrow
    rw [cellsViewModels, List.getElem?_map, Option.map_eq_some_iff] at hcell
    obtain ⟨team, hteam, heq⟩ := hcell
    refine ⟨team, ?_, ?_⟩
    · rw [selectRow_opened halive hrow, hteam]
      rfl
    · rw [← heq]
      exact ⟨rfl, rfl, rfl⟩

theorem reachable_stale (vs : List TeamNetworkModel) (hcached : store.get database ≠ []) :
    ∃ s, (teamsScreen store database (NetworkOutcome.success vs).publisher).Reachable s ∧
      s.released = false ∧ s.view.cellsViewModels = cellsViewModels (store.get database) ∧
      s.teamsModels = asDomainModels vs := by
  have hrun : ∃ s, (teamsScreen store database (NetworkOutcome.success vs).publisher).run
      (teamsScreen store database (NetworkOutcome.success vs).publisher).init
      [.execute true, .deliver] = some s ∧
      s.released = false ∧ s.view.cellsViewModels = cellsViewModels (store.get database) ∧
      s.teamsModels = asDomainModels vs := by
    rw [init_eq]
    cases hL : store.get database with
    | nil => exact absurd hL hcached
    | cons m L => exact ⟨_, rfl, rfl, rfl, rfl⟩
  obtain ⟨s, hs, h⟩ := hrun
  exact ⟨s, ⟨_, hs⟩, h⟩

/-- **When taps open the team on screen.** On every owned screen, whatever the
interleaving, each tap opens the team of its row, if and only if the cached rows
start the rows of the network list, where there is one. -/
theorem taps_open_shown_iff (store : TeamStore ρ) (database : ρ) (o : NetworkOutcome) :
    (∀ s, (teamsScreen store database o.publisher).Reachable s → s.released = false →
      s.TapsOpenShown) ↔
    ∀ vs, o = .success vs →
      cellsViewModels (store.get database) <+: cellsViewModels (asDomainModels vs) := by
  constructor
  · rintro h vs rfl
    by_cases hcached : store.get database = []
    · rw [hcached]
      exact List.nil_prefix
    -- The cached rows are on screen when the presenter takes the network list.
    · obtain ⟨s, hs, halive, hrows, hmodels⟩ := reachable_stale vs hcached
      rw [← hrows, ← hmodels]
      exact (tapsOpenShown_iff halive).1 (h s hs halive)
  · intro h s hs halive
    obtain ⟨p, shown, pending, hp, hat⟩ := reachable_at hs halive
    rw [tapsOpenShown_iff halive, hat.rows, hat.teamsModels, ← hat.emissions]
    rcases shown_cases hat.emissions with rfl | rfl | ⟨vs, ho, rfl, rfl⟩
    · exact List.nil_prefix
    · simp only [List.append_nil, List.prefix_rfl]
    · exact h vs ho

/-- The network lists no team: the row that is still on screen is out of bounds. -/
theorem tap_on_stale_row_traps :
    ¬ ∀ (ρ : Type) (store : TeamStore ρ) (database : ρ) (o : NetworkOutcome) (s : Screen ρ),
      (teamsScreen store database o.publisher).Reachable s → s.released = false →
        s.TapsOpenShown := by
  intro h
  obtain ⟨s, hs, halive, hrows, hmodels⟩ :=
    @reachable_stale Realm TeamsRealmRepository.store dallasRealm [] (by decide)
  have htaps := (tapsOpenShown_iff halive).1 (h _ _ _ _ s hs halive)
  rw [hrows, hmodels] at htaps
  exact absurd htaps (by decide)

/-! ## Which thread configures the view -/

theorem configured_main {s : Screen ρ} (h : (teamsScreen store database o.publisher).Reachable s)
    (hshow : ¬ NothingToShow (store.get database) o) : ∀ c ∈ s.configured, c.1 = .main := by
  obtain ⟨p, -, -, hmain⟩ := reachable_rule
    (P := fun p s => (p = .waiting → s.teamsModels = store.get database) ∧
      ∀ c ∈ s.configured, c.1 = .main) h
    (by rw [init_eq]; exact ⟨fun _ => rfl, by simp⟩)
    (fun p p' s t _ ⟨hmodels, hmain⟩ hn => by
      cases hn with
      | list vs ho => exact ⟨nofun, hmain⟩
      | failureShown e ho hempty =>
        exact absurd ⟨(hmodels rfl).symm.trans hempty, e, ho⟩ hshow
      | failureDropped | finished => exact ⟨nofun, hmain⟩
      | content _ viewModel emission q hq =>
        refine ⟨hmodels, fun c hc => ?_⟩
        rcases List.mem_append.1 hc with hc | hc
        · exact hmain c hc
        · rw [List.mem_singleton.1 hc]
      | save | contentDropped | select | release => exact ⟨hmodels, hmain⟩)
  exact hmain

theorem configured_off_main (h : NothingToShow (store.get database) o) :
    ∃ s, (teamsScreen store database o.publisher).Reachable s ∧
      (.urlSession, errorViewModel) ∈ s.configured := by
  obtain ⟨hL, e, rfl⟩ := h
  have hrun : ∃ s, (teamsScreen store database (NetworkOutcome.failure e).publisher).run
      (teamsScreen store database (NetworkOutcome.failure e).publisher).init [.deliver] = some s ∧
      s.configured = [(.main, .init .loading), (.urlSession, errorViewModel)] := by
    rw [init_eq, hL]
    exact ⟨_, rfl, rfl⟩
  obtain ⟨s, hs, hconfigured⟩ := hrun
  exact ⟨s, ⟨_, hs⟩, by rw [hconfigured]; simp⟩

theorem nothingToShow_networkOutcome {L : List TeamModel} {t : DataTaskOutcome} :
    NothingToShow L t.networkOutcome ↔ ¬ (L ≠ [] ∨ t.accepted.isSome) := by
  unfold NothingToShow DataTaskOutcome.networkOutcome
  cases t.accepted with
  | none => exact ⟨fun ⟨hL, _⟩ => by simp [hL], fun h => ⟨by simpa using h, .unkown, rfl⟩⟩
  | some models => simp

/-- **When the view is only configured on the main thread.** Let the request be
built and its data task end in any way. Over all interleavings every
configuration runs on the main thread if and only if there is a cached list or
the outcome is accepted. -/
theorem configured_on_main_iff (store : TeamStore ρ) (database : ρ)
    (url : URLComponents → Option String) (urlSession : URLRequest → DataTaskOutcome)
    (action : WebServiceAction) (configuration : WebServiceConfiguration) (request : URLRequest)
    (h : URLRequestBuilder.build url action configuration = some request) :
    (∀ s, (teamsScreen store database (TeamsWebServiceImp.getTeams url
        ⟨action, configuration, RequestExecuterImp.execute urlSession⟩)).Reachable s →
      ∀ c ∈ s.configured, c.1 = .main) ↔
    store.get database ≠ [] ∨ (urlSession request).accepted.isSome := by
  rw [getTeams_of_build h]
  constructor
  · intro hmain
    by_contra hneither
    obtain ⟨s, hs, hmem⟩ := configured_off_main (nothingToShow_networkOutcome.2 hneither)
    exact absurd (hmain s hs _ hmem) nofun
  · intro hshow s hs
    exact configured_main hs fun hnothing => nothingToShow_networkOutcome.1 hnothing hshow

def overwatchLeagueURL (components : URLComponents) : Option String :=
  some (components.scheme ++ "://" ++ components.host ++ components.path)

theorem configured_on_main_offline :
    (∀ s, (teamsScreen TeamsRealmRepository.store dallasRealm (TeamsWebServiceImp.getTeams
        overwatchLeagueURL (createTeamsWebService fun _ => .failure ⟨-1009⟩))).Reachable s →
      ∀ c ∈ s.configured, c.1 = .main) ↔
    TeamsRealmRepository.store.get dallasRealm ≠ [] ∨
      (DataTaskOutcome.failure ⟨-1009⟩).accepted.isSome :=
  configured_on_main_iff TeamsRealmRepository.store dallasRealm overwatchLeagueURL
    (fun _ => .failure ⟨-1009⟩) WebServiceActions.GetTeams OverwatchLeagueWebServiceConfiguration
    ⟨"https://api.overwatchleague.com/v2/teams", "GET"⟩ rfl

/-- Offline, with an empty cache: the error is configured on the delegate queue. -/
theorem offline_error_configured_off_main :
    ¬ ∀ (ρ : Type) (store : TeamStore ρ) (database : ρ) (urlSession : URLRequest → DataTaskOutcome)
      (s : Screen ρ),
      (teamsScreen store database (TeamsWebServiceImp.getTeams overwatchLeagueURL
        (createTeamsWebService urlSession))).Reachable s → ∀ c ∈ s.configured, c.1 = .main := by
  intro h
  have hbuild : URLRequestBuilder.build overwatchLeagueURL WebServiceActions.GetTeams
      OverwatchLeagueWebServiceConfiguration =
      some ⟨"https://api.overwatchleague.com/v2/teams", "GET"⟩ := rfl
  obtain ⟨s, hs, hmem⟩ := @configured_off_main Realm TeamsRealmRepository.store Keyed.Table.empty
    (.failure .unkown) ⟨rfl, .unkown, rfl⟩
  have hmain := h Realm TeamsRealmRepository.store Keyed.Table.empty (fun _ => .failure ⟨-1009⟩) s
  rw [createTeamsWebService, getTeams_of_build hbuild] at hmain
  exact absurd (hmain hs _ hmem) nofun

end OverwatchTeams.Screen
