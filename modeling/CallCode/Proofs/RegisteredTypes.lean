import CallCode.TypeTable.Builtin
import Mathlib.Data.List.Nodup

/-!
# Registered types

Types that are registered one after another have names of their own, so the name of a
type tells it from all others.
-/

namespace CallCode

namespace TypeTable

/-- The tables that registering types one after another leads to, with the built-in types
or without them. -/
inductive Registered : TypeTable → Prop
  | empty : Registered empty
  | builtin : Registered builtin
  | register {table later : TypeTable} {decl : TypeDecl} : Registered table →
      table.register decl = .ok later → Registered later

variable {table later : TypeTable} {decl : TypeDecl}

/-- A type is registered only under a new name. -/
theorem register_ok (registers : table.register decl = .ok later) :
    later = table.insert decl ∧ ∀ other ∈ table.decls, other.name ≠ decl.name := by
  unfold register at registers
  split at registers
  · cases registers
  · rename_i new
    split at registers
    · cases registers
    · cases registers
      rw [Bool.or_eq_true, not_or, Option.not_isSome_iff_eq_none] at new
      refine ⟨rfl, fun other member same => ?_⟩
      simpa [same] using List.find?_eq_none.mp new.2 other member

namespace Registered

theorem nodup_names (registered : table.Registered) : (table.decls.map (·.name)).Nodup := by
  induction registered with
  | empty => exact List.nodup_nil
  | builtin => decide
  | register _ registers ih =>
      obtain ⟨rfl, new⟩ := register_ok registers
      refine List.nodup_cons.mpr ⟨?_, ih⟩
      simpa using new

/-- The name of a registered type belongs to no other one. -/
theorem eq_of_typeName (registered : table.Registered) {first second : Identity}
    (knowsFirst : table.contains first = true) (knowsSecond : table.contains second = true)
    (same : table.typeName first = table.typeName second) : first = second := by
  obtain ⟨firstDecl, foundFirst⟩ := Option.isSome_iff_exists.mp knowsFirst
  obtain ⟨secondDecl, foundSecond⟩ := Option.isSome_iff_exists.mp knowsSecond
  simp only [typeName, foundFirst, foundSecond] at same
  have equal : firstDecl = secondDecl := List.inj_on_of_nodup_map registered.nodup_names
    (List.mem_of_find?_eq_some foundFirst) (List.mem_of_find?_eq_some foundSecond) same
  rw [← id_of_find? foundFirst, ← id_of_find? foundSecond, equal]

end Registered

end TypeTable

end CallCode
