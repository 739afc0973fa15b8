import Mathlib.Data.List.Basic

/-!
# Publishers and subscribers

Two views of a Combine publisher.

* As data: a `Run` is what one subscription sees, values and then at most one
  completion, and a `Publisher` is a run with the executor that delivers it.
  `map`, `mapError` and `tryMap` change the run and leave the executor alone.
* As callbacks: a `Subscriber` acts on a state `σ` for each value and for the
  completion. A `Chain` of operators turns the subscriber at its end into the
  subscriber its source feeds, together with what is delivered synchronously
  when the subscription is made (`prepend`).

`drive` feeds a subscriber the signals of one subscription. Whatever follows a
completion or a cancellation is dropped, so that any list of signals is a run
(`drive_eq_receiveRun`).
-/

namespace Combine

inductive Completion (ε : Type) where
  | finished
  | failure (error : ε)
  deriving DecidableEq, Repr

inductive Event (α ε : Type) where
  | value (a : α)
  | completion (c : Completion ε)
  deriving DecidableEq, Repr

def Completion.mapError {ε δ : Type} (g : ε → δ) : Completion ε → Completion δ
  | .finished => .finished
  | .failure e => .failure (g e)

/-- What one subscription sees: values, then at most one completion. -/
structure Run (α ε : Type) where
  values : List α
  completion : Option (Completion ε)
  deriving DecidableEq, Repr

namespace Run

variable {α β ε δ : Type}

def events (r : Run α ε) : List (Event α ε) :=
  r.values.map .value ++ (r.completion.map .completion).toList

def fail (e : ε) : Run α ε := ⟨[], some (.failure e)⟩

def just (a : α) : Run α ε := ⟨[a], some .finished⟩

def cons (a : α) (r : Run α ε) : Run α ε := { r with values := a :: r.values }

def map (f : α → β) (r : Run α ε) : Run β ε := ⟨r.values.map f, r.completion⟩

def mapError (g : ε → δ) (r : Run α ε) : Run α δ :=
  ⟨r.values, r.completion.map (·.mapError g)⟩

/-- The values `f` accepts, up to the first it throws on; the thrown error then
ends the run, and what the source still sends is dropped. -/
def tryMapValues (f : α → Except δ β) (c : Option (Completion δ)) : List α → Run β δ
  | [] => ⟨[], c⟩
  | a :: as =>
    match f a with
    | .ok b => (tryMapValues f c as).cons b
    | .error e => fail e

/-- `tryMap`; `lift` makes the source's own error an error of the result. -/
def tryMap (lift : ε → δ) (f : α → Except δ β) (r : Run α ε) : Run β δ :=
  tryMapValues f (r.completion.map (·.mapError lift)) r.values

theorem tryMap_just (lift : ε → δ) (f : α → Except δ β) (a : α) :
    (just a : Run α ε).tryMap lift f =
      match f a with
      | .ok b => just b
      | .error e => fail e := by
  simp only [tryMap, just, tryMapValues]
  cases f a <;> rfl

end Run

structure Publisher (X α ε : Type) where
  executor : X
  run : Run α ε

namespace Publisher

variable {X α β ε δ : Type}

def map (f : α → β) (p : Publisher X α ε) : Publisher X β ε := { p with run := p.run.map f }

def mapError (g : ε → δ) (p : Publisher X α ε) : Publisher X α δ :=
  { p with run := p.run.mapError g }

def tryMap (lift : ε → δ) (f : α → Except δ β) (p : Publisher X α ε) : Publisher X β δ :=
  { p with run := p.run.tryMap lift f }

end Publisher

/-! ## Subscribers -/

theorem run_bind {σ α β : Type} (x : StateM σ α) (f : α → StateM σ β) (s : σ) :
    (x >>= f).run s = (f (x.run s).1).run (x.run s).2 := rfl

structure Subscriber (σ α ε : Type) where
  receiveValue : α → StateM σ Unit
  receiveCompletion : Completion ε → StateM σ Unit

namespace Subscriber

variable {σ α ε : Type} (d : Subscriber σ α ε)

def receive : Event α ε → StateM σ Unit
  | .value a => d.receiveValue a
  | .completion c => d.receiveCompletion c

def receiveAll : List (Event α ε) → StateM σ Unit
  | [] => pure ()
  | e :: es => do d.receive e; receiveAll es

def receiveRun (r : Run α ε) : StateM σ Unit := d.receiveAll r.events

end Subscriber

/-- What can happen to a subscription. -/
inductive Signal (α ε : Type) where
  | event (e : Event α ε)
  | cancel
  deriving DecidableEq, Repr

/-- The run a list of signals amounts to: the values before the first completion
or cancellation, and that completion. -/
def settle {α ε : Type} : List (Signal α ε) → Run α ε
  | [] => ⟨[], none⟩
  | .cancel :: _ => ⟨[], none⟩
  | .event (.completion c) :: _ => ⟨[], some c⟩
  | .event (.value a) :: rest => (settle rest).cons a

def drive {σ α ε : Type} (d : Subscriber σ α ε) : List (Signal α ε) → StateM σ Unit
  | [] => pure ()
  | .cancel :: _ => pure ()
  | .event (.completion c) :: _ => d.receiveCompletion c
  | .event (.value a) :: rest => do d.receiveValue a; drive d rest

/-- **Nothing reaches a subscriber after a completion or a cancellation.** -/
theorem drive_eq_receiveRun {σ α ε : Type} (d : Subscriber σ α ε) :
    ∀ sigs : List (Signal α ε), drive d sigs = d.receiveRun (settle sigs)
  | [] => rfl
  | .cancel :: _ => rfl
  | .event (.completion c) :: _ => by
    simp [drive, settle, Subscriber.receiveRun, Run.events, Subscriber.receiveAll,
      Subscriber.receive]
  | .event (.value a) :: rest => by
    have ih := drive_eq_receiveRun d rest
    simp only [drive, ih]
    rfl

/-! ## Chains of operators -/

/-- Operators between a source of `α` and `ε` and a subscriber of `β` and `δ`.
`subscribe d` is what `d` receives while the subscription is made, and the
subscriber the source feeds afterwards. -/
structure Chain (σ α ε β δ : Type) where
  subscribe : Subscriber σ β δ → StateM σ Unit × Subscriber σ α ε

namespace Chain

variable {σ α β γ ε δ ζ : Type}

def source : Chain σ α ε α ε := ⟨fun d => (pure (), d)⟩

/-- `map` with a closure that may act on the state before it returns. -/
def map (f : β → StateM σ γ) (p : Chain σ α ε β δ) : Chain σ α ε γ δ :=
  ⟨fun d => p.subscribe
    { receiveValue := fun b => do d.receiveValue (← f b)
      receiveCompletion := d.receiveCompletion }⟩

def mapError (g : δ → ζ) (p : Chain σ α ε β δ) : Chain σ α ε β ζ :=
  ⟨fun d => p.subscribe
    { receiveValue := d.receiveValue
      receiveCompletion := fun c => d.receiveCompletion (c.mapError g) }⟩

/-- `prepend`: the subscriber gets `b` before the rest is subscribed to. -/
def prepend (b : β) (p : Chain σ α ε β δ) : Chain σ α ε β δ :=
  ⟨fun d => (do d.receiveValue b; (p.subscribe d).1, (p.subscribe d).2)⟩

/-- A whole subscription: what is delivered synchronously, then the signals. -/
def sink (p : Chain σ α ε β δ) (d : Subscriber σ β δ) (sigs : List (Signal α ε)) :
    StateM σ Unit := do
  (p.subscribe d).1
  drive (p.subscribe d).2 sigs

end Chain

end Combine
