import Mathlib.Order.Lattice
import Mathlib.Data.List.Basic

/-!
# Walking two sorted lists together

`walk` goes through two lists that are sorted by a key and visits every element
once: together with the element of the other list that has its key, or alone
when there is none. It looks at the two heads only. On strictly sorted lists it
visits the same pairs as looking every element up in the other list
(`walk_left`, `walk_right`).
-/

namespace MergeJoin

variable {α β κ : Type} [LinearOrder κ]

/-- The visits from the element `x` on, `next` being the walk from its successor on. -/
def walkFrom (key : α → κ) (key' : β → κ) (x : α) (next : List β → List (Option α × Option β)) :
    List β → List (Option α × Option β)
  | [] => (some x, none) :: next []
  | y :: ys =>
    if key x = key' y then (some x, some y) :: next ys
    else if key x < key' y then (some x, none) :: next (y :: ys)
    else (none, some y) :: walkFrom key key' x next ys

def walk (key : α → κ) (key' : β → κ) : List α → List β → List (Option α × Option β)
  | [], ys => ys.map fun y => (none, some y)
  | x :: xs, ys => walkFrom key key' x (walk key key' xs) ys

def lefts (visits : List (Option α × Option β)) : List (α × Option β) :=
  visits.filterMap fun v => v.1.map fun x => (x, v.2)

def rights (visits : List (Option α × Option β)) : List (Option α × β) :=
  visits.filterMap fun v => v.2.map fun y => (v.1, y)

@[simp] theorem lefts_cons_some (x : α) (o : Option β) (vs : List (Option α × Option β)) :
    lefts ((some x, o) :: vs) = (x, o) :: lefts vs := rfl

@[simp] theorem lefts_cons_none (o : Option β) (vs : List (Option α × Option β)) :
    lefts ((none, o) :: vs) = lefts vs := rfl

theorem mem_lefts {x : α} {o : Option β} {vs : List (Option α × Option β)} :
    (x, o) ∈ lefts vs ↔ (some x, o) ∈ vs := by
  simp only [lefts, List.mem_filterMap, Option.map_eq_some_iff, Prod.mk.injEq]
  constructor
  · rintro ⟨v, hv, _, hx, rfl, rfl⟩
    rwa [← hx]
  · intro h
    exact ⟨_, h, x, rfl, rfl, rfl⟩

theorem mem_rights {o : Option α} {y : β} {vs : List (Option α × Option β)} :
    (o, y) ∈ rights vs ↔ (o, some y) ∈ vs := by
  simp only [rights, List.mem_filterMap, Option.map_eq_some_iff, Prod.mk.injEq]
  constructor
  · rintro ⟨v, hv, _, hy, rfl, rfl⟩
    rwa [← hy]
  · intro h
    exact ⟨_, h, y, rfl, rfl, rfl⟩

variable {key : α → κ} {key' : β → κ}

theorem walk_nil_right (xs : List α) :
    walk key key' xs [] = xs.map fun x => (some x, none) := by
  induction xs with
  | nil => rfl
  | cons x xs ih => simp only [walk, walkFrom, ih, List.map_cons]

theorem map_fst_lefts_walk (key : α → κ) (key' : β → κ) (xs : List α) (ys : List β) :
    (lefts (walk key key' xs ys)).map Prod.fst = xs := by
  induction xs generalizing ys with
  | nil => simp [walk, lefts]
  | cons x xs ih =>
    simp only [walk]
    induction ys with
    | nil => simp only [walkFrom, lefts_cons_some, List.map_cons, ih]
    | cons y ys ihy =>
      unfold walkFrom
      split
      · rw [lefts_cons_some, List.map_cons, ih]
      · split
        · rw [lefts_cons_some, List.map_cons, ih]
        · rw [lefts_cons_none, ihy]

/-! ## Sorted lists -/

/-- Sorted by a key, without repetitions. -/
def Sorted (key : α → κ) (xs : List α) : Prop := xs.Pairwise fun x y => key x < key y

theorem find?_eq_none_of_lt {k : κ} {ys : List β} (h : ∀ y ∈ ys, k < key' y) :
    ys.find? (fun y => key' y = k) = none := by
  rw [List.find?_eq_none]
  intro y hy
  simpa using (h y hy).ne'

theorem Sorted.find?_head_lt {x : α} {xs : List α} (h : Sorted key (x :: xs)) {k : κ}
    (hk : k ≤ key x) : xs.find? (fun z => key z = k) = none :=
  find?_eq_none_of_lt fun z hz => lt_of_le_of_lt hk ((List.pairwise_cons.1 h).1 z hz)

theorem Sorted.find?_eq_some_iff {xs : List α} (h : Sorted key xs) {x : α} {k : κ} :
    xs.find? (fun z => key z = k) = some x ↔ x ∈ xs ∧ key x = k := by
  constructor
  · intro hf
    exact ⟨List.mem_of_find?_eq_some hf, by simpa using List.find?_some hf⟩
  · rintro ⟨hx, rfl⟩
    induction xs with
    | nil => cases hx
    | cons z zs ih =>
      rcases List.mem_cons.1 hx with rfl | hmem
      · simp
      · have hlt : key z < key x := (List.pairwise_cons.1 h).1 x hmem
        rw [List.find?_cons_of_neg (by simpa using hlt.ne)]
        exact ih (List.pairwise_cons.1 h).2 hmem

theorem Sorted.inj {xs : List α} (h : Sorted key xs) {x y : α} (hx : x ∈ xs) (hy : y ∈ xs)
    (hk : key x = key y) : x = y := by
  have h1 := h.find?_eq_some_iff.2 ⟨hx, rfl⟩
  have h2 := h.find?_eq_some_iff.2 ⟨hy, hk.symm⟩
  exact Option.some.inj (h1.symm.trans h2)

/-- What the elements of a sorted list give, restricted to what has the key of one of them. -/
theorem Sorted.filter_flatMap {xs : List α} (h : Sorted key xs) (key' : β → κ) {f : α → List β}
    (hf : ∀ x ∈ xs, ∀ y ∈ f x, key' y = key x) {x : α} (hx : x ∈ xs) :
    (xs.flatMap f).filter (fun y => key' y = key x) = f x := by
  induction xs with
  | nil => cases hx
  | cons z zs ih =>
    have hzs := (List.pairwise_cons.1 h).2
    have hlt := (List.pairwise_cons.1 h).1
    rw [List.flatMap_cons, List.filter_append]
    rcases List.mem_cons.1 hx with rfl | hmem
    · have hself : (f x).filter (fun y => key' y = key x) = f x := by
        rw [List.filter_eq_self]
        intro y hy
        simpa using hf x hx y hy
      have hrest : (zs.flatMap f).filter (fun y => key' y = key x) = [] := by
        rw [List.filter_eq_nil_iff]
        intro y hy
        obtain ⟨z, hz, hyz⟩ := List.mem_flatMap.1 hy
        have hkey := hf z (List.mem_cons_of_mem _ hz) y hyz
        simpa [hkey] using (hlt z hz).ne'
      rw [hself, hrest, List.append_nil]
    · have hhead : (f z).filter (fun y => key' y = key x) = [] := by
        rw [List.filter_eq_nil_iff]
        intro y hy
        have hkey := hf z List.mem_cons_self y hy
        simpa [hkey] using (hlt x hmem).ne
      rw [hhead, List.nil_append]
      exact ih hzs (fun w hw => hf w (List.mem_cons_of_mem _ hw)) hmem

theorem map_find?_cons {xs : List α} {y : β} {ys : List β} (h : ∀ x ∈ xs, key x ≠ key' y) :
    (xs.map fun x => (x, (y :: ys).find? fun z => key' z = key x)) =
      xs.map fun x => (x, ys.find? fun z => key' z = key x) := by
  refine List.map_congr_left fun x hx => ?_
  rw [List.find?_cons_of_neg (by simpa using (h x hx).symm)]

/-- **The walk looks every element up.** Among the visits of two sorted lists those
of an element of the first list are one for each element, in order, together with
the element of the second list that has its key. -/
theorem walk_left {xs : List α} {ys : List β} (hx : Sorted key xs) (hy : Sorted key' ys) :
    lefts (walk key key' xs ys) = xs.map fun x => (x, ys.find? fun y => key' y = key x) := by
  induction xs generalizing ys with
  | nil => simp [walk, lefts]
  | cons x xs ih =>
    have hxs := (List.pairwise_cons.1 hx).2
    have hlt := (List.pairwise_cons.1 hx).1
    simp only [walk]
    induction ys with
    | nil =>
      simp only [walkFrom, walk_nil_right]
      simp [lefts, List.filterMap_map]
    | cons y ys ihy =>
      have hys := (List.pairwise_cons.1 hy).2
      unfold walkFrom
      split
      · next heq =>
        have hne : ∀ z ∈ xs, key z ≠ key' y := fun z hz => heq ▸ (hlt z hz).ne'
        rw [lefts_cons_some, ih hxs hys, List.map_cons, map_find?_cons hne,
          List.find?_cons_of_pos (by simpa using heq.symm)]
      · next hne =>
        split
        · next hxy =>
          have hnone : (y :: ys).find? (fun z => key' z = key x) = none := by
            rw [List.find?_cons_of_neg (by simpa using hxy.ne')]
            exact hy.find?_head_lt hxy.le
          rw [lefts_cons_some, ih hxs hy, List.map_cons, hnone]
        · next hyx =>
          have hlty : key' y < key x := lt_of_le_of_ne (not_lt.1 hyx) (Ne.symm hne)
          have hskip : ∀ z ∈ x :: xs, key z ≠ key' y := by
            intro z hz
            rcases List.mem_cons.1 hz with rfl | hz
            · exact hne
            · exact (hlty.trans (hlt z hz)).ne'
          rw [lefts_cons_none, ihy hys, map_find?_cons hskip]

theorem walk_swap (xs : List α) (ys : List β) :
    (walk key key' xs ys).map Prod.swap = walk key' key ys xs := by
  induction xs generalizing ys with
  | nil => rw [walk_nil_right]; simp [walk]
  | cons x xs ih =>
    simp only [walk]
    induction ys with
    | nil => simp [walk, walkFrom, walk_nil_right]
    | cons y ys ihy =>
      rw [walk, walkFrom, walkFrom]
      by_cases heq : key x = key' y
      · rw [if_pos heq, if_pos heq.symm, List.map_cons, ih]
        rfl
      · rw [if_neg heq, if_neg (Ne.symm heq)]
        by_cases hlt : key x < key' y
        · rw [if_pos hlt, if_neg hlt.not_gt, List.map_cons, ih]
          rfl
        · rw [if_neg hlt, if_pos (lt_of_le_of_ne (not_lt.1 hlt) (Ne.symm heq)), List.map_cons, ihy]
          rfl

theorem walk_right {xs : List α} {ys : List β} (hx : Sorted key xs) (hy : Sorted key' ys) :
    rights (walk key key' xs ys) = ys.map fun y => (xs.find? (fun x => key x = key' y), y) := by
  have h := congrArg (List.map Prod.swap) (walk_left hy hx)
  rw [← walk_swap xs ys, lefts, List.filterMap_map, List.map_filterMap, List.map_map] at h
  simpa [rights, Function.comp_def, Option.map_map] using h

end MergeJoin
