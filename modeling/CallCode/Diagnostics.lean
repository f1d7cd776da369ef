import CallCode.Error

/-!
# Diagnostics

Errors that do not stop lowering are collected in the order of their reports.
-/

namespace CallCode

/-- The errors reported so far, in order. -/
structure Diagnostics where
  errors : Array LoweringError := #[]
  deriving Repr

namespace Diagnostics

def report (diagnostics : Diagnostics) (error : LoweringError) : Diagnostics :=
  ⟨diagnostics.errors.push error⟩

def hasErrors (diagnostics : Diagnostics) : Bool := !diagnostics.errors.isEmpty

/-- One line for each error. -/
def text (diagnostics : Diagnostics) : String :=
  String.join
    (diagnostics.errors.toList.map fun error => "error: " ++ error.message ++ "\n")

/-- Hand over the collected errors and start again with none. -/
def take (diagnostics : Diagnostics) : Array LoweringError × Diagnostics :=
  (diagnostics.errors, {})

@[simp]
theorem toList_report (diagnostics : Diagnostics) (error : LoweringError) :
    (diagnostics.report error).errors.toList = diagnostics.errors.toList ++ [error] := by
  simp [report]

end Diagnostics

end CallCode
