import Courier.Log.Basic
import Mathlib.Tactic.Common

/-!
# Computations that report

What a computation ends in does not depend on what has been reported before it.  `Logging.Yields`
says so for computations that only report, and `Ends` for those that may also end in a fault.  Each
of the lemmas below takes one step off, so that a proof about such a computation follows its text.
-/

namespace Courier

variable {α β ε : Type}

namespace Logging

/-- The computation has a value, whatever has been reported before. -/
def Yields (x : Logging α) (a : α) : Prop := ∀ entries, (x.run entries).run.1 = a

variable {x : Logging α} {a : α}

theorem Yields.pure (a : α) : Yields (Pure.pure a) a := fun _ => rfl

theorem Yields.bind {f : α → Logging β} {b : β} (hx : Yields x a) (hf : Yields (f a) b) :
    Yields (x >>= f) b := by
  intro entries
  rw [← hf ((x.run entries).run.2), ← hx entries]
  rfl

theorem yields_report (level : Log.Level) (text : String) : Yields (report level text) () :=
  fun _ => rfl

theorem yields_reportAll (level : Log.Level) (texts : List String) :
    Yields (reportAll level texts) () := fun _ => rfl

theorem yields_forM (level : Log.Level) (text : Option String) :
    Yields (text.forM (report level ·)) () := by
  cases text
  · exact .pure ()
  · exact yields_report _ _

end Logging

open Logging (Yields)

/-- The computation ends in a result, whatever has been reported before. -/
def Ends (x : ExceptT ε Logging α) (result : Except ε α) : Prop := Yields x.run result

namespace Ends

variable {x : ExceptT ε Logging α} {f : α → ExceptT ε Logging β} {a : α} {fault : ε}

theorem pure (a : α) : Ends (Pure.pure a : ExceptT ε Logging α) (.ok a) := fun _ => rfl

theorem throw (fault : ε) : Ends (throw fault : ExceptT ε Logging α) (.error fault) := fun _ => rfl

theorem ofExcept (result : Except ε α) :
    Ends (ExceptT.mk (Pure.pure result) : ExceptT ε Logging α) result := fun _ => rfl

/-- A computation that only reports. -/
theorem lift {y : Logging α} (h : Yields y a) : Ends (liftM y : ExceptT ε Logging α) (.ok a) := by
  intro entries
  rw [← h entries]
  rfl

/-- A computation goes on with the reports of the one before it, unless that ended in a fault. -/
theorem run_bind (x : ExceptT ε Logging α) (f : α → ExceptT ε Logging β)
    (entries : List Log.Entry) :
    ((x >>= f).run.run entries).run =
      match (x.run.run entries).run with
      | (.ok a, reported) => ((f a).run.run reported).run
      | (.error fault, reported) => (.error fault, reported) := by
  simp only [Bind.bind, ExceptT.bind, ExceptT.run, ExceptT.mk, StateT.bind, StateT.run, Id.run]
  rcases x entries with ⟨result, reported⟩
  cases result <;> rfl

theorem bind {result : Except ε β} (hx : Ends x (.ok a)) (hf : Ends (f a) result) :
    Ends (x >>= f) result := by
  intro entries
  have hfirst := hx entries
  rw [run_bind]
  rcases hrun : (x.run.run entries).run with ⟨first, reported⟩
  rw [hrun] at hfirst
  cases hfirst
  exact hf reported

theorem bind_error (hx : Ends x (.error fault)) : Ends (x >>= f) (.error fault) := by
  intro entries
  have hfirst := hx entries
  rw [run_bind]
  rcases hrun : (x.run.run entries).run with ⟨first, reported⟩
  rw [hrun] at hfirst
  cases hfirst
  rfl

theorem unique {r r' : Except ε α} (h : Ends x r) (h' : Ends x r') : r = r' :=
  (h []).symm.trans (h' [])

end Ends

end Courier
