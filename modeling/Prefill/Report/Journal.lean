import Prefill.Report.Diagnostic

/-!
Journals: a result, or the error that ended the work, together with the events on the way. Work
that fails keeps the events before the failure.
-/

namespace Prefill

structure Journal (ε α : Type) where
  events : List Event
  result : Except ε α

namespace Journal

variable {ε α β : Type}

/-- A result with nothing to tell. -/
def done (a : α) : Journal ε α := ⟨[], .ok a⟩

def fail (e : ε) : Journal ε α := ⟨[], .error e⟩

/-- Records an event. -/
def tell (event : Event) : Journal ε Unit := ⟨[event], .ok ()⟩

/-- Goes on with the result; an error skips the rest. -/
def andThen (first : Journal ε α) (next : α → Journal ε β) : Journal ε β :=
  match first.result with
  | .ok a => ⟨first.events ++ (next a).events, (next a).result⟩
  | .error e => ⟨first.events, .error e⟩

instance : Monad (Journal ε) where
  pure := done
  bind := andThen

/-- A result that was found without events. -/
def ofExcept (result : Except ε α) : Journal ε α := ⟨[], result⟩

/-- The same work with its error put into other terms. -/
def mapError {δ : Type} (f : ε → δ) (j : Journal ε α) : Journal δ α := ⟨j.events, j.result.mapError f⟩

@[simp] theorem pure_eq (a : α) : (pure a : Journal ε α) = done a := rfl

@[simp] theorem bind_eq (first : Journal ε α) (next : α → Journal ε β) :
    first >>= next = first.andThen next := rfl

@[simp] theorem done_andThen (a : α) (next : α → Journal ε β) : (done a).andThen next = next a := by
  simp [done, andThen]

end Journal

end Prefill
