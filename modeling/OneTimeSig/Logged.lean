import OneTimeSig.Error

/-!
# Computations that keep a record

A computation of type `Logged ω α` writes a list of records of type `ω` and then ends with a value
or an error. What was written before an error stays written.
-/

namespace OneTimeSig

/-- What a computation has written, and how it ended. -/
structure Logged (ω : Type) (α : Type) where
  /-- The records in the order in which they were written. -/
  written : List ω
  /-- The value or the error. -/
  outcome : Except Error α

namespace Logged

variable {ω ω' α β : Type}

/-- Two computations are equal when they write the same and end the same. -/
@[ext]
theorem ext {x y : Logged ω α} (hw : x.written = y.written) (ho : x.outcome = y.outcome) :
    x = y := by
  cases x; cases y; simp_all

/-- Ends with a value. -/
protected def pure (a : α) : Logged ω α :=
  ⟨[], .ok a⟩

/-- Goes on with the value, unless there is none. -/
protected def bind (x : Logged ω α) (f : α → Logged ω β) : Logged ω β :=
  match x.outcome with
  | .ok a => ⟨x.written ++ (f a).written, (f a).outcome⟩
  | .error e => ⟨x.written, .error e⟩

instance : Monad (Logged ω) where
  pure := Logged.pure
  bind := Logged.bind

/-- Writes a record. -/
def write (record : ω) : Logged ω Unit :=
  ⟨[record], .ok ()⟩

/-- A computation that writes nothing. -/
def ofExcept (outcome : Except Error α) : Logged ω α :=
  ⟨[], outcome⟩

instance : MonadLift (Except Error) (Logged ω) where
  monadLift := ofExcept

/-- Ends with an error. -/
def fail (e : Error) : Logged ω α :=
  ⟨[], .error e⟩

/-- The same computation with other records. -/
def mapWritten (f : ω → ω') (x : Logged ω α) : Logged ω' α :=
  ⟨x.written.map f, x.outcome⟩

@[simp]
theorem pure_written (a : α) : (pure a : Logged ω α).written = [] := rfl

@[simp]
theorem pure_outcome (a : α) : (pure a : Logged ω α).outcome = .ok a := rfl

theorem bind_def (x : Logged ω α) (f : α → Logged ω β) :
    x >>= f = match x.outcome with
      | .ok a => ⟨x.written ++ (f a).written, (f a).outcome⟩
      | .error e => ⟨x.written, .error e⟩ := rfl

/-- Going on never depends on how the steps are grouped. -/
instance : LawfulMonad (Logged ω) :=
  LawfulMonad.mk' (Logged ω)
    (fun x => by
      cases x with
      | mk w o => cases o <;> simp [Functor.map, Logged.bind, Logged.pure])
    (fun a f => by simp [bind_def])
    (fun x f g => by
      cases x with
      | mk w o =>
        cases o with
        | error e => simp [bind_def]
        | ok a =>
          simp only [bind_def]
          cases (f a).outcome <;> simp)

end Logged

end OneTimeSig
