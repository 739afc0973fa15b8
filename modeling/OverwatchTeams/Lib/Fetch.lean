import OverwatchTeams.Lib.Transition
import OverwatchTeams.Lib.Keyed
import Mathlib.Logic.Function.Basic

/-!
# Fetches through a shared cache

Viewers ask for keys. A request whose key is in the cache is answered at once, and
any other starts a fetch. Fetches end in any order, with a value or without, and a
value waits in a queue until it is put into the cache and in front of its viewer.
The cache may lose any key at any time, a viewer may be cleared, and nothing
cancels a fetch.

Two invariants hold over every run. `Sourced` says where a value on display comes
from: its viewer asked for that key at some time. `Answered` says that no request
is lost: a viewer that asked for a key since it was last cleared shows a value, or
one is on its way.
-/

namespace Fetch

/-- A viewer shows a value with the key it was fetched for. -/
@[ext] structure State (V κ β : Type) where
  shown : V → Option (κ × β)
  cache : κ → Option β
  inFlight : List (V × κ)
  queue : List (V × κ × β)
  /-- What each viewer last asked for, since it was last cleared. -/
  asked : V → Option κ

inductive Label (V κ β : Type) where
  | clear (viewer : V)
  | request (viewer : V) (key : κ)
  /-- The fetch at this position ends. -/
  | respond (position : Nat) (value : Option β)
  /-- The first value of the queue is delivered. -/
  | execute
  | evict (key : κ)

variable {V κ β : Type}

namespace State

def init : State V κ β where
  shown := fun _ => none
  cache := fun _ => none
  inFlight := []
  queue := []
  asked := fun _ => none

variable [DecidableEq V] [DecidableEq κ]

def request (viewer : V) (key : κ) (s : State V κ β) : State V κ β :=
  match s.cache key with
  | some value =>
    { s with
      shown := Function.update s.shown viewer (some (key, value))
      asked := Function.update s.asked viewer (some key) }
  | none =>
    { s with
      inFlight := s.inFlight ++ [(viewer, key)]
      asked := Function.update s.asked viewer (some key) }

def step (s : State V κ β) : Label V κ β → Option (State V κ β)
  | .clear viewer =>
    some { s with
      shown := Function.update s.shown viewer none
      asked := Function.update s.asked viewer none }
  | .request viewer key => some (s.request viewer key)
  | .respond position value =>
    match s.inFlight[position]? with
    | none => none
    | some (viewer, key) =>
      some { s with
        inFlight := s.inFlight.eraseIdx position
        queue := s.queue ++ (value.map fun value => (viewer, key, value)).toList }
  | .execute =>
    match s.queue with
    | [] => none
    | (viewer, key, value) :: q =>
      some { s with
        queue := q
        cache := Function.update s.cache key (some value)
        shown := Function.update s.shown viewer (some (key, value)) }
  | .evict key => some { s with cache := Function.update s.cache key none }

end State

def fetches (V κ β : Type) [DecidableEq V] [DecidableEq κ] :
    Transition.System (State V κ β) (Label V κ β) where
  init := .init
  step := State.step

/-! ## Where a value comes from -/

/-- `A viewer key` holds of all that is shown, in flight or queued. -/
structure Sourced (A : V → κ → Prop) (s : State V κ β) : Prop where
  shown : ∀ viewer key value, s.shown viewer = some (key, value) → A viewer key
  inFlight : ∀ viewer key, (viewer, key) ∈ s.inFlight → A viewer key
  queue : ∀ viewer key value, (viewer, key, value) ∈ s.queue → A viewer key

theorem Sourced.mono {A B : V → κ → Prop} {s : State V κ β} (h : Sourced A s)
    (hAB : ∀ viewer key, A viewer key → B viewer key) : Sourced B s :=
  ⟨fun v k b hv => hAB v k (h.shown v k b hv), fun v k hmem => hAB v k (h.inFlight v k hmem),
    fun v k b hmem => hAB v k (h.queue v k b hmem)⟩

theorem sourced_init {A : V → κ → Prop} : Sourced A (.init : State V κ β) :=
  ⟨nofun, nofun, nofun⟩

section Step

variable [DecidableEq V] [DecidableEq κ] {s t : State V κ β} {l : Label V κ β}

omit [DecidableEq κ] in
theorem shown_update {A : V → κ → Prop} {shown : V → Option (κ × β)} {viewer : V} {key : κ}
    {value : β} (h : ∀ v k b, shown v = some (k, b) → A v k) (hnew : A viewer key) :
    ∀ v k b, Function.update shown viewer (some (key, value)) v = some (k, b) → A v k := by
  intro v k b hv
  rw [Function.update_apply] at hv
  split at hv
  · next heq =>
    cases hv
    exact heq ▸ hnew
  · exact h v k b hv

theorem sourced_step {A : V → κ → Prop} (h : Sourced A s) (ht : s.step l = some t)
    (hnew : ∀ viewer key, l = .request viewer key → A viewer key) : Sourced A t := by
  cases l with
  | clear viewer =>
    cases ht
    refine ⟨fun v k b hv => ?_, h.inFlight, h.queue⟩
    simp only [Function.update_apply] at hv
    split at hv
    · cases hv
    · exact h.shown v k b hv
  | request viewer key =>
    cases ht
    have hkey := hnew viewer key rfl
    unfold State.request
    split
    · exact ⟨shown_update h.shown hkey, h.inFlight, h.queue⟩
    · refine ⟨h.shown, fun v k hmem => ?_, h.queue⟩
      rcases List.mem_append.1 hmem with hmem | hmem
      · exact h.inFlight v k hmem
      · cases List.mem_singleton.1 hmem
        exact hkey
  | respond position value =>
    simp only [State.step] at ht
    split at ht
    · cases ht
    · next viewer key hget =>
      cases ht
      refine ⟨h.shown, fun v k hmem => h.inFlight v k (List.mem_of_mem_eraseIdx hmem),
        fun v k b hmem => ?_⟩
      rcases List.mem_append.1 hmem with hmem | hmem
      · exact h.queue v k b hmem
      · obtain ⟨value, -, heq⟩ := Option.map_eq_some_iff.1 (Option.mem_toList.1 hmem)
        cases heq
        exact h.inFlight viewer key (List.mem_of_getElem? hget)
  | execute =>
    simp only [State.step] at ht
    split at ht
    · cases ht
    · next viewer key value q hq =>
      cases ht
      have hkey := h.queue viewer key value (by rw [hq]; exact List.mem_cons_self)
      exact ⟨shown_update h.shown hkey, h.inFlight,
        fun v k b hmem => h.queue v k b (by rw [hq]; exact .tail _ hmem)⟩
  | evict key =>
    cases ht
    exact ⟨h.shown, h.inFlight, h.queue⟩

/-- **A value on display was asked for.** Whatever the interleaving, a viewer that
shows a value of `key` has asked for `key` in the run. -/
theorem shown_requested {ls : List (Label V κ β)} (h : (fetches V κ β).run .init ls = some s)
    {viewer : V} {key : κ} {value : β} (hshown : s.shown viewer = some (key, value)) :
    .request viewer key ∈ ls := by
  have hrun := Transition.System.run_history
    (P := fun done s => Sourced (fun viewer key => .request viewer key ∈ done) s)
    (fun done s l t hs ht => sourced_step (hs.mono fun _ _ => List.mem_append_left _) ht
      fun viewer key hl => hl ▸ List.mem_concat_self)
    [] sourced_init h
  exact hrun.shown viewer key value hshown

/-! ## No request is lost -/

def Label.Succeeds : Label V κ β → Prop
  | .respond _ value => value.isSome
  | .clear _ | .request .. | .execute | .evict _ => True

def Pending (viewer : V) (s : State V κ β) : Prop :=
  (∃ key, (viewer, key) ∈ s.inFlight) ∨ ∃ key value, (viewer, key, value) ∈ s.queue

/-- Every viewer that asked for a key shows a value, or one is on its way. -/
def Answered (s : State V κ β) : Prop :=
  ∀ viewer, (s.asked viewer).isSome → (s.shown viewer).isSome ∨ Pending viewer s

omit [DecidableEq V] [DecidableEq κ] in
theorem pending_respond {inFlight : List (V × κ)} {queue : List (V × κ × β)} {position : Nat}
    {viewer v : V} {key : κ} {value : β} (hget : inFlight[position]? = some (viewer, key))
    (h : (∃ k, (v, k) ∈ inFlight) ∨ ∃ k b, (v, k, b) ∈ queue) :
    (∃ k, (v, k) ∈ inFlight.eraseIdx position) ∨
      ∃ k b, (v, k, b) ∈ queue ++ [(viewer, key, value)] := by
  rcases h with ⟨k, hmem⟩ | ⟨k, b, hmem⟩
  · by_cases hv : (v, k) = (viewer, key)
    · cases hv
      exact .inr ⟨key, value, List.mem_concat_self⟩
    · refine .inl ⟨k, ?_⟩
      rw [List.mem_eraseIdx_iff_getElem?]
      obtain ⟨i, hi⟩ := List.mem_iff_getElem?.1 hmem
      refine ⟨i, fun hne => hv ?_, hi⟩
      rw [hne, hget] at hi
      exact (Option.some.inj hi).symm
  · exact .inr ⟨k, b, List.mem_append_left _ hmem⟩

omit [DecidableEq V] [DecidableEq κ] in
theorem answered_init : Answered (.init : State V κ β) := by
  intro viewer hasked
  cases hasked

theorem answered_step (h : Answered s) (ht : s.step l = some t) (hl : l.Succeeds) :
    Answered t := by
  intro v hasked
  cases l with
  | clear viewer =>
    cases ht
    by_cases heq : v = viewer
    · simp [heq] at hasked
    · simp only [Function.update_of_ne heq] at hasked ⊢
      exact h v hasked
  | request viewer key =>
    cases ht
    unfold State.request at hasked ⊢
    by_cases heq : v = viewer
    · subst heq
      cases hcache : s.cache key with
      | some value => exact .inl (by simp)
      | none => exact .inr (.inl ⟨key, List.mem_concat_self⟩)
    · cases hcache : s.cache key with
      | some value =>
        simp only [hcache, Function.update_of_ne heq] at hasked ⊢
        exact h v hasked
      | none =>
        simp only [hcache, Function.update_of_ne heq] at hasked ⊢
        rcases h v hasked with hshown | ⟨k, hmem⟩ | hqueue
        · exact .inl hshown
        · exact .inr (.inl ⟨k, List.mem_append_left _ hmem⟩)
        · exact .inr (.inr hqueue)
  | respond position value =>
    obtain ⟨value, rfl⟩ := Option.isSome_iff_exists.1 hl
    simp only [State.step] at ht
    split at ht
    · cases ht
    · next viewer key hget =>
      cases ht
      rcases h v hasked with hshown | hpending
      · exact .inl hshown
      · exact .inr (pending_respond hget hpending)
  | execute =>
    simp only [State.step] at ht
    split at ht
    · cases ht
    · next viewer key value q hq =>
      cases ht
      by_cases heq : v = viewer
      · exact .inl (by simp [heq])
      · rcases h v hasked with hshown | hfetch | ⟨k, b, hmem⟩
        · refine .inl ?_
          simp only [Function.update_of_ne heq]
          exact hshown
        · exact .inr (.inl hfetch)
        · rw [hq, List.mem_cons] at hmem
          rcases hmem with hmem | hmem
          · cases hmem
            exact absurd rfl heq
          · exact .inr (.inr ⟨k, b, hmem⟩)
  | evict key =>
    cases ht
    exact h v hasked

/-- **No request is lost.** When every fetch of a run ended with a value, and none is
left in flight or in the queue, every viewer that asked for a key since it was last
cleared shows a value. -/
theorem asked_shown {ls : List (Label V κ β)} (h : (fetches V κ β).run .init ls = some s)
    (hls : ∀ l ∈ ls, l.Succeeds) (hflight : s.inFlight = []) (hqueue : s.queue = []) {viewer : V}
    (hasked : (s.asked viewer).isSome) : (s.shown viewer).isSome := by
  have hrun := Transition.System.run_history
    (P := fun done s => (∀ l ∈ done, l.Succeeds) → Answered s)
    (fun done s l t hs ht hdone => by
      rw [List.forall_mem_append, List.forall_mem_singleton] at hdone
      exact answered_step (hs hdone.1) ht hdone.2)
    [] (fun _ => answered_init) h
  rcases hrun hls viewer hasked with hshown | ⟨key, hmem⟩ | ⟨key, value, hmem⟩
  · exact hshown
  · rw [hflight] at hmem
    cases hmem
  · rw [hqueue] at hmem
    cases hmem

end Step

end Fetch
