import SpillStorage.Failure

/-!
Two shapes of answers. An `Outcome` is the state that an operation leaves, on success and on failure
alike, beside its answer. A `Transfer` is the run of bytes that was read before reading stopped.
-/

namespace SpillStorage

theorem eq_ok_of_toOption {α : Type} {e : Except Failure α} {a : α} (h : e.toOption = some a) :
    e = .ok a := by
  cases e with
  | error f => cases h
  | ok b => exact congrArg _ (Option.some.inj h)

/-- The state that an operation leaves, and its answer. -/
structure Outcome (σ α : Type) where
  state : σ
  answer : Except Failure α

namespace Outcome

variable {σ τ α β : Type}

def ok (state : σ) (a : α) : Outcome σ α := ⟨state, .ok a⟩

def fail (state : σ) (f : Failure) : Outcome σ α := ⟨state, .error f⟩

/-- Goes on after a success; a failure is final. -/
def andThen (o : Outcome σ α) (next : σ → α → Outcome σ β) : Outcome σ β :=
  match o.answer with
  | .ok a => next o.state a
  | .error f => fail o.state f

/-- The same answer beside another state. -/
def onState (o : Outcome σ α) (f : σ → τ) : Outcome τ α := ⟨f o.state, o.answer⟩

/-- Another answer beside the same state. -/
def map (o : Outcome σ α) (f : α → β) : Outcome σ β :=
  o.andThen fun state a => ok state (f a)

@[simp] theorem andThen_ok (state : σ) (a : α) (next : σ → α → Outcome σ β) :
    (ok state a).andThen next = next state a := rfl

/-- A success was one at every step. -/
theorem of_andThen_ok {o : Outcome σ α} {next : σ → α → Outcome σ β} {state : σ} {b : β}
    (h : o.andThen next = ok state b) :
    ∃ state' a, o = ok state' a ∧ next state' a = ok state b := by
  obtain ⟨state', answer⟩ := o
  cases answer with
  | error reason => cases h
  | ok a => exact ⟨state', a, rfl, h⟩

/-- An answer that was mapped was an answer before. -/
theorem of_map_ok {o : Outcome σ α} {f : α → β} {state : σ} {b : β} (h : o.map f = ok state b) :
    ∃ a, o = ok state a ∧ b = f a := by
  obtain ⟨state', answer⟩ := o
  cases answer with
  | error reason => cases h
  | ok a =>
    cases h
    exact ⟨a, rfl, rfl⟩

end Outcome

/-- The bytes that were read, and what stopped the reading before the end, if anything did. -/
structure Transfer where
  bytes : List UInt8
  stopped : Option Failure

namespace Transfer

def whole (bytes : List UInt8) : Transfer := ⟨bytes, none⟩

def refused (f : Failure) : Transfer := ⟨[], some f⟩

/-- The bytes, if all of them came. -/
def complete (t : Transfer) : Except Failure (List UInt8) :=
  match t.stopped with
  | none => .ok t.bytes
  | some f => .error f

/-- Goes on reading after the bytes so far, unless reading stopped. -/
def followedBy (t : Transfer) (rest : Transfer) : Transfer :=
  match t.stopped with
  | none => ⟨t.bytes ++ rest.bytes, rest.stopped⟩
  | some _ => t

end Transfer

end SpillStorage
