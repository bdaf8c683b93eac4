import CheckedScript.Error
import CheckedScript.Log

/-!
Runs: a value or an error, together with the log entries made on the way. The entries of a run
that fails are kept. `result_bind` and its like let a statement on results ignore the log.
-/

namespace CheckedScript

/-- What a computation reports, and how it ends. -/
structure Run (α : Type) where
  log : List Log.Entry
  result : Except CompileError α

namespace Run

variable {α β : Type}

def bind (x : Run α) (f : α → Run β) : Run β :=
  match x.result with
  | .ok a =>
    let y := f a
    ⟨x.log ++ y.log, y.result⟩
  | .error e => ⟨x.log, .error e⟩

instance : Monad Run where
  pure a := ⟨[], .ok a⟩
  bind := bind

def fail (e : CompileError) : Run α := ⟨[], .error e⟩

def ofExcept (r : Except CompileError α) : Run α := ⟨[], r⟩

/-- Adds one entry to the log. -/
def report (level : Log.Level) (origin : Log.Origin) (message : String) : Run Unit :=
  ⟨[⟨level, origin, message⟩], .ok ()⟩

@[simp] theorem result_pure (a : α) : (pure a : Run α).result = .ok a := rfl

@[simp] theorem log_pure (a : α) : (pure a : Run α).log = [] := rfl

@[simp] theorem result_bind (x : Run α) (f : α → Run β) :
    (x >>= f).result = x.result.bind fun a => (f a).result := by
  show (bind x f).result = _
  unfold bind
  cases x.result <;> rfl

@[simp] theorem result_map (f : α → β) (x : Run α) : (f <$> x).result = x.result.map f := by
  show (bind x fun a => pure (f a)).result = _
  unfold bind
  cases x.result <;> rfl

@[simp] theorem result_fail (e : CompileError) : (fail e : Run α).result = .error e := rfl

@[simp] theorem result_ofExcept (r : Except CompileError α) : (ofExcept r).result = r := rfl

@[simp] theorem result_report (level : Log.Level) (origin : Log.Origin) (message : String) :
    (report level origin message).result = .ok () := rfl

end Run

end CheckedScript
