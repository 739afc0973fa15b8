import Mathlib.Data.List.Nodup
import Mathlib.Logic.Function.Basic
import OverwatchTeams.Lib.ListEdits

/-!
# Tables with a primary key

A `Table key` is a list of rows in which no two rows have the same key.
`upsert` replaces the row with the new row's key, in place, or adds the new row
at the end. Seen from outside, a table is the finite map `view` from keys to
rows: `upsert` is a point update of it (`view_upsert`), and a whole batch leaves
at each key the last row the batch has for that key, or what was there before
(`view_upsertAll`).
-/

namespace Keyed

variable {β κ : Type} [DecidableEq κ] {key : β → κ}

theorem forall_update {f : κ → Option β} {P : κ → β → Prop} (h : ∀ k b, f k = some b → P k b)
    {k₀ : κ} {o : Option β} (ho : ∀ b, o = some b → P k₀ b) :
    ∀ k b, Function.update f k₀ o k = some b → P k b := by
  intro k b hk
  rw [Function.update_apply] at hk
  split at hk
  · next heq => exact heq ▸ ho b hk
  · exact h k b hk

/-! ## Lists of rows -/

/-- `x` in the place of the first row with its key, or at the end. -/
def upsertRow (key : β → κ) (x : β) : List β → List β
  | [] => [x]
  | y :: ys => if key y = key x then x :: ys else y :: upsertRow key x ys

/-- The last row of a list that has key `k`. -/
def latest (key : β → κ) (k : κ) (xs : List β) : Option β :=
  xs.reverse.find? fun y => key y = k

theorem find?_upsertRow (k : κ) (x : β) (l : List β) :
    (upsertRow key x l).find? (fun y => key y = k) =
      if k = key x then some x else l.find? fun y => key y = k := by
  induction l with
  | nil => by_cases h : k = key x <;> simp [upsertRow, h, eq_comm]
  | cons y ys ih =>
    by_cases hy : key y = key x
    · by_cases h : k = key x
      · simp [upsertRow, hy, h]
      · simp [upsertRow, hy, h, Ne.symm h]
    · simp only [upsertRow, if_neg hy, List.find?_cons, ih]
      by_cases h : k = key x
      · simp [h, hy]
      · simp [h]

theorem mem_keys_upsertRow {k : κ} {x : β} {l : List β} :
    k ∈ (upsertRow key x l).map key ↔ k = key x ∨ k ∈ l.map key := by
  induction l with
  | nil => simp [upsertRow]
  | cons y ys ih =>
    unfold upsertRow
    split
    · next h => simp only [List.map_cons, List.mem_cons, h]; tauto
    · simp only [List.map_cons, List.mem_cons, ih]; tauto

theorem nodup_upsertRow (x : β) {l : List β} (h : (l.map key).Nodup) :
    ((upsertRow key x l).map key).Nodup := by
  induction l with
  | nil => simp [upsertRow]
  | cons y ys ih =>
    simp only [List.map_cons, List.nodup_cons] at h
    unfold upsertRow
    split
    · next hy => simpa only [List.map_cons, List.nodup_cons, ← hy] using h
    · next hy =>
      simp only [List.map_cons, List.nodup_cons, mem_keys_upsertRow]
      exact ⟨fun hk => hk.elim hy h.1, ih h.2⟩

theorem mem_iff_find? {l : List β} (h : (l.map key).Nodup) {z : β} :
    z ∈ l ↔ l.find? (fun y => key y = key z) = some z := by
  constructor
  · intro hz
    have hsome : (l.find? fun y => decide (key y = key z)).isSome := by
      rw [List.find?_isSome]; exact ⟨z, hz, by simp⟩
    obtain ⟨w, hw⟩ := Option.isSome_iff_exists.1 hsome
    have hk : key w = key z := by simpa using List.find?_some hw
    rw [hw, List.inj_on_of_nodup_map h (List.mem_of_find?_eq_some hw) hz hk]
  · exact List.mem_of_find?_eq_some

theorem latest_eq_none {k : κ} {xs : List β} :
    latest key k xs = none ↔ ∀ x ∈ xs, key x ≠ k := by
  simp [latest]

theorem latest_append (k : κ) (xs ys : List β) :
    latest key k (xs ++ ys) = (latest key k ys).or (latest key k xs) := by
  simp [latest, List.find?_append]

theorem mem_of_latest {k : κ} {x : β} {xs : List β} (h : latest key k xs = some x) : x ∈ xs :=
  List.mem_reverse.1 (List.mem_of_find?_eq_some h)

theorem key_of_latest {k : κ} {x : β} {xs : List β} (h : latest key k xs = some x) : key x = k := by
  simpa using List.find?_some h

theorem latest_map {γ : Type} (f : γ → β) (k : κ) (xs : List γ) :
    latest key k (xs.map f) = (latest (key ∘ f) k xs).map f := by
  rw [latest, ← List.map_reverse, List.find?_map]
  rfl

/-- The keys of a list of distinct rows are distinct exactly when every row is
the last one with its key. -/
theorem nodup_keys_iff_latest {xs : List β} (hxs : xs.Nodup) :
    (xs.map key).Nodup ↔ ∀ x ∈ xs, latest key (key x) xs = some x := by
  constructor
  · intro h x hx
    have hr : (xs.reverse.map key).Nodup := by rw [List.map_reverse]; exact List.nodup_reverse.2 h
    exact (mem_iff_find? hr).1 (List.mem_reverse.2 hx)
  · intro h
    refine hxs.map_on fun x hx y hy hxy => ?_
    have hx' := h x hx
    rw [hxy, h y hy] at hx'
    exact (Option.some.inj hx').symm

/-! ## Tables -/

structure Table (key : β → κ) where
  rows : List β
  nodup : (rows.map key).Nodup

namespace Table

def empty : Table key := ⟨[], List.nodup_nil⟩

def upsert (t : Table key) (x : β) : Table key :=
  ⟨upsertRow key x t.rows, nodup_upsertRow x t.nodup⟩

def upsertAll (t : Table key) (xs : List β) : Table key := xs.foldl upsert t

theorem upsertAll_append (t : Table key) (xs ys : List β) :
    t.upsertAll (xs ++ ys) = (t.upsertAll xs).upsertAll ys := List.foldl_append

/-- The finite map a table stands for. -/
def view (t : Table key) (k : κ) : Option β := t.rows.find? fun y => key y = k

theorem mem_rows {t : Table key} {z : β} : z ∈ t.rows ↔ t.view (key z) = some z :=
  mem_iff_find? t.nodup

omit [DecidableEq κ] in
theorem rows_nodup (t : Table key) : t.rows.Nodup := List.Nodup.of_map key t.nodup

@[simp] theorem view_empty (k : κ) : (empty : Table key).view k = none := rfl

/-- **An upsert is a point update of the map.** -/
theorem view_upsert (t : Table key) (x : β) :
    (t.upsert x).view = Function.update t.view (key x) (some x) := by
  funext k
  rw [Function.update_apply]
  exact find?_upsertRow k x t.rows

/-- **A batch leaves the last row it has for each key.** -/
theorem view_upsertAll (t : Table key) (xs : List β) (k : κ) :
    (t.upsertAll xs).view k = (latest key k xs).or (t.view k) := by
  induction xs generalizing t with
  | nil => rfl
  | cons x xs ih =>
    have hcons : latest key k (x :: xs) = (latest key k xs).or (latest key k [x]) :=
      latest_append k [x] xs
    have hone : latest key k [x] = if k = key x then some x else none := by
      by_cases h : k = key x <;> simp [latest, h, eq_comm]
    calc (t.upsertAll (x :: xs)).view k
        = (latest key k xs).or ((t.upsert x).view k) := ih (t.upsert x)
      _ = (latest key k xs).or ((latest key k [x]).or (t.view k)) := by
          rw [view_upsert, Function.update_apply, hone]; split <;> rfl
      _ = (latest key k (x :: xs)).or (t.view k) := by rw [hcons, Option.or_assoc]

theorem forall_rows_upsertAll {P : β → Prop} {t : Table key} {xs : List β}
    (ht : ∀ y ∈ t.rows, P y) (hxs : ∀ x ∈ xs, P x) : ∀ y ∈ (t.upsertAll xs).rows, P y := by
  intro y hy
  rw [mem_rows, view_upsertAll] at hy
  cases hl : latest key (key y) xs with
  | none => rw [hl, Option.none_or] at hy; exact ht y (mem_rows.2 hy)
  | some z =>
    rw [hl, Option.some_or, Option.some.injEq] at hy
    exact hxs y (hy ▸ mem_of_latest hl)

/-! ### Batches that change nothing -/

theorem keys_upsertRow {x : β} {l : List β} (h : key x ∈ l.map key) :
    (upsertRow key x l).map key = l.map key := by
  induction l with
  | nil => cases h
  | cons y ys ih =>
    unfold upsertRow
    split
    · next hy => rw [List.map_cons, List.map_cons, hy]
    · next hy =>
      rw [List.map_cons, List.mem_cons] at h
      rw [List.map_cons, List.map_cons, ih (h.resolve_left fun heq => hy heq.symm)]

theorem keys_upsertAll {xs : List β} {t : Table key} (h : ∀ x ∈ xs, key x ∈ t.rows.map key) :
    (t.upsertAll xs).rows.map key = t.rows.map key := by
  induction xs generalizing t with
  | nil => rfl
  | cons x xs ih =>
    rw [List.forall_mem_cons] at h
    have hx : (t.upsert x).rows.map key = t.rows.map key := keys_upsertRow h.1
    have hrest := ih (t := t.upsert x) (by rw [hx]; exact h.2)
    exact hrest.trans hx

theorem mem_keys_iff {t : Table key} {k : κ} : k ∈ t.rows.map key ↔ (t.view k).isSome := by
  simp [view, List.find?_isSome]

theorem ext_of_keys {t t' : Table key} (hkeys : t.rows.map key = t'.rows.map key)
    (hview : t.view = t'.view) : t = t' := by
  have hlength : t.rows.length = t'.rows.length := by
    have hlengths := congrArg List.length hkeys
    simpa using hlengths
  have hrows : t.rows = t'.rows := by
    refine List.ext_getElem hlength fun i hi hi' => ?_
    have hkey : key t.rows[i] = key t'.rows[i] := by
      have hget := congrArg (fun ks => ks[i]?) hkeys
      simpa [hi, hi'] using hget
    have hrow := mem_rows.1 (List.getElem_mem hi)
    rw [hview, hkey, mem_rows.1 (List.getElem_mem hi'), Option.some.injEq] at hrow
    exact hrow.symm
  cases t
  cases t'
  cases hrows
  rfl

/-- **When a batch changes nothing**: when the last row it has for each key is stored. -/
theorem upsertAll_eq_self_iff {t : Table key} {xs : List β} :
    t.upsertAll xs = t ↔ ∀ k b, latest key k xs = some b → t.view k = some b := by
  constructor
  · intro h k b hlatest
    rw [← h, view_upsertAll, hlatest, Option.some_or]
  · intro h
    refine ext_of_keys (keys_upsertAll fun x hx => ?_) (funext fun k => ?_)
    · rw [mem_keys_iff]
      cases hlatest : latest key (key x) xs with
      | none => exact absurd rfl (latest_eq_none.1 hlatest x hx)
      | some b => rw [h _ b hlatest, Option.isSome_some]
    · rw [view_upsertAll]
      cases hlatest : latest key k xs with
      | none => exact Option.none_or
      | some b => rw [h k b hlatest, Option.some_or]

theorem upsertAll_upsertAll (t : Table key) (xs : List β) :
    (t.upsertAll xs).upsertAll xs = t.upsertAll xs := by
  rw [upsertAll_eq_self_iff]
  intro k b hlatest
  rw [view_upsertAll, hlatest, Option.some_or]

/-! ### Removing a row -/

/-- The last row takes the place of the row with key `k`. -/
def erase (t : Table key) (k : κ) : Table key :=
  match h : t.rows.findIdx? fun y => key y = k with
  | none => t
  | some i =>
    { rows := ListEdits.moveLastOver i t.rows
      nodup := by
        have hi := (List.findIdx?_eq_some_iff_getElem.1 h).1
        have hperm := ListEdits.moveLastOver_perm hi
        rw [(hperm.map key).nodup_iff]
        exact t.nodup.sublist ((List.eraseIdx_sublist _ _).map key) }

theorem mem_rows_erase {t : Table key} {k : κ} {z : β} :
    z ∈ (t.erase k).rows ↔ z ∈ t.rows ∧ key z ≠ k := by
  unfold erase
  split
  · next h =>
    have hno : ∀ y ∈ t.rows, key y ≠ k := by simpa using List.findIdx?_eq_none_iff.1 h
    exact ⟨fun hz => ⟨hz, hno z hz⟩, fun hz => hz.1⟩
  · next i h =>
    obtain ⟨hi, hk, -⟩ := List.findIdx?_eq_some_iff_getElem.1 h
    have hkey : key t.rows[i] = k := by simpa using hk
    rw [(ListEdits.moveLastOver_perm hi).mem_iff, List.mem_eraseIdx_iff_getElem]
    constructor
    · rintro ⟨j, hj, hne, rfl⟩
      refine ⟨List.getElem_mem hj, fun hjk => hne ?_⟩
      have hinj := List.inj_on_of_nodup_map t.nodup (List.getElem_mem hj) (List.getElem_mem hi)
        (hjk.trans hkey.symm)
      exact (t.rows_nodup.getElem_inj_iff).1 hinj
    · rintro ⟨hz, hne⟩
      obtain ⟨j, hj, rfl⟩ := List.getElem_of_mem hz
      refine ⟨j, hj, ?_, rfl⟩
      rintro rfl
      exact hne hkey

theorem view_erase (t : Table key) (k : κ) :
    (t.erase k).view = Function.update t.view k none := by
  funext k'
  have hrow : ∀ (t : Table key) (z : β), t.view k' = some z ↔ z ∈ t.rows ∧ key z = k' := by
    intro t z
    constructor
    · intro h
      have hk : key z = k' := by simpa using List.find?_some h
      exact ⟨List.mem_of_find?_eq_some h, hk⟩
    · rintro ⟨hz, rfl⟩
      exact mem_rows.1 hz
  rw [Function.update_apply]
  apply Option.ext
  intro z
  rw [hrow, mem_rows_erase]
  split
  · next h => simp [h]
  · next h =>
    rw [hrow]
    constructor
    · rintro ⟨⟨hz, -⟩, hk⟩
      exact ⟨hz, hk⟩
    · rintro ⟨hz, rfl⟩
      exact ⟨⟨hz, h⟩, rfl⟩

end Table

end Keyed
