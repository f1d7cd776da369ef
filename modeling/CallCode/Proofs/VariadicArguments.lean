import CallCode.Proofs.BoundArguments

/-!
# Arrays given for a variadic parameter

Where there is one argument for each parameter, the last one is either passed on as the
array of a variadic parameter or wrapped in a new one.  Its static type decides, and only
whether that is an array, not whether the array fits.
-/

namespace CallCode

open Lower

variable {context : Context} {before after : LoweringState}

/-- The value on top is passed on as an array of the given type. -/
def PassedOn (context : Context) (array : ValueType) (loaded after : LoweringState) : Prop :=
  Runs (coerceTo array) context loaded () after

/-- The value on top is made the only element of an array of the given type. -/
def Wrapped (context : Context) (array : ValueType) (loaded after : LoweringState) : Prop :=
  ∃ element converted, array.component = some element ∧
    Runs (coerceTo element) context loaded () converted ∧
    after = { converted with
      assembler := converted.assembler.arrayInit element.signature 1
      stack := array :: converted.stack.drop 1 }

/-- No value is both passed on and wrapped. -/
theorem not_wrapped_of_passedOn {array : ValueType} {loaded : LoweringState}
    (passed : PassedOn context array loaded after) : ¬Wrapped context array loaded after := by
  rintro ⟨element, converted, component, converts, wrapped⟩
  exact not_wrapped_of_converted (TypeTable.isPrimitive_of_component component) (.inr passed)
    (items_le_of_coerceTo converts) (by rw [wrapped])

/-- Only arrays fit where an array is expected. -/
theorem TypeTable.isArray_of_isAssignable {types : TypeTable} {source target : ValueType}
    (array : target.isArray = true) (fits : types.isAssignable source target = true) :
    source.isArray = true := by
  have deep : target.dims ≠ 0 := by simpa [ValueType.isArray] using array
  have noInterface : types.isInterface target = false := by simp [isInterface, deep]
  rw [isAssignable, noInterface, Bool.and_false, Bool.false_and, Bool.or_false,
    isDerivedFrom_iff] at fits
  rcases fits with rfl | ⟨-, -, rfl | ⟨dims, -⟩⟩
  · exact array
  · cases array
  · simpa [ValueType.isArray, dims] using deep

/-- With one argument for each parameter, the static type of the last one decides. -/
theorem packsSurplus_concat (typeOf : Expr → ValueType) {front : List Operand}
    {params : List Param} (count : front.length = params.length) (last : Operand)
    (variadic : Param) :
    packsSurplus typeOf (front ++ [last]) (params ++ [variadic]) =
      !(typeOf last.source).isArray := by
  simp [packsSurplus, count]

section Decision

variable {front : List Operand} {last : Operand} {params : List Param} {variadic : Param}

/-- The arguments in front are loaded first, then the last one is loaded, and what happens to
its value depends on its static type. -/
theorem bindArguments_concat (count : front.length = params.length)
    (array : variadic.type.isArray = true)
    (run : Runs (bindArguments (front ++ [last]) (params ++ [variadic])) context before () after) :
    ∃ received loaded, Runs (loadEach front params) context before () received ∧
      Runs last.load context received () loaded ∧
      ((context.typeOf last.source).isArray = true ∧ PassedOn context variadic.type loaded after ∨
        (context.typeOf last.source).isArray = false ∧
          Wrapped context variadic.type loaded after) := by
  have decides := packsSurplus_concat context.typeOf count last variadic
  rcases bindArguments_cases run with
    ⟨plain, -, loads⟩ | ⟨surplus, fixed, _, element, received, split, component, -, loads, packing⟩
  · have isArray : (context.typeOf last.source).isArray = true := by
      have isVariadic : (variadicElement (params ++ [variadic])).isSome = true := by
        rw [variadicElement, List.getLast?_concat, Option.bind_some, ValueType.isSome_component,
          array]
      by_contra scalar
      exact plain ⟨isVariadic, by rw [decides]; simpa using scalar⟩
    rw [loadEach, List.zip_append count, List.zip_cons_cons, List.zip_nil_left,
      runs_forM_concat] at loads
    obtain ⟨received, leading, load⟩ := loads
    simp only [loadAs, runs_bind] at load
    obtain ⟨_, loaded, load, passed⟩ := load
    exact ⟨received, loaded, leading, load, .inl ⟨isArray, passed⟩⟩
  · have scalar : (context.typeOf last.source).isArray = false := by
      simpa [decides] using surplus.2
    obtain ⟨rfl, single⟩ := List.append_inj' split rfl
    obtain rfl := List.singleton_inj.mp single
    rw [← count, List.take_left] at loads
    rw [← count, List.drop_left] at packing
    have packs : Runs (packWith loadAs [last] element) context received () after := packing
    obtain ⟨converted, load, wrapped⟩ := runs_packWith_one packs
    rw [loadAs, runs_bind] at load
    obtain ⟨_, loaded, load, converts⟩ := load
    rw [ValueType.array_of_component component] at wrapped
    exact ⟨received, loaded, loads, load,
      .inr ⟨scalar, element, converted, component, converts, wrapped⟩⟩

end Decision

/-- The static type of an argument and the type of its value decide differently: an array
that does not fit is passed on, or an array that fits is wrapped since its static type does
not show that it is one. -/
def Misjudged (types : TypeTable) (static value array : ValueType) : Prop :=
  (static.isArray = true ∧ types.isAssignable static array = false ∧
      types.isAssignable value array = false) ∨
    (static.isArray = false ∧ types.isAssignable value array = true)

theorem not_misjudged_iff {types : TypeTable} {static value array : ValueType}
    (isArray : array.isArray = true) :
    (static.isArray = true ↔
        types.isAssignable value array = true ∨ types.isAssignable static array = true) ↔
      ¬Misjudged types static value array := by
  cases shown : static.isArray with
  | true =>
      rw [Misjudged]
      cases types.isAssignable value array <;> cases types.isAssignable static array <;>
        simp [shown]
  | false =>
      have unfit : types.isAssignable static array = false := by
        by_contra fits
        rw [Bool.not_eq_false] at fits
        rw [TypeTable.isArray_of_isAssignable isArray fits] at shown
        cases shown
      simp [Misjudged, shown, unfit]

/-- With one argument for each parameter, the last one is passed on to a variadic parameter
exactly if its static type is an array, and is wrapped otherwise.  It is passed on exactly
if its value or its static type fits, unless one of two things happens: an array that does
not fit is passed on, or an array that fits is wrapped once more. -/
theorem variadic_argument_of_bindArguments (context : Context) (front : List Expr) (last : Expr)
    (params : List Param) (variadic : Param) (before after : LoweringState)
    (count : front.length = params.length) (array : variadic.type.isArray = true)
    (run : Runs (bindArguments (operandsOf (front ++ [last])) (params ++ [variadic])) context
      before () after) :
    ∃ received loaded value,
      Runs (loadEach (operandsOf front) params) context before () received ∧
      Runs last.lower context received () loaded ∧ loaded.stack = value :: received.stack ∧
      (PassedOn context variadic.type loaded after ↔ (context.typeOf last).isArray = true) ∧
      (Wrapped context variadic.type loaded after ↔ (context.typeOf last).isArray = false) ∧
      ((PassedOn context variadic.type loaded after ↔
          context.types.isAssignable value variadic.type = true ∨
            context.types.isAssignable (context.typeOf last) variadic.type = true) ↔
        ¬Misjudged context.types (context.typeOf last) value variadic.type) := by
  have split : operandsOf (front ++ [last]) = operandsOf front ++ [last.operand] := by
    simp [operandsOf_eq_map]
  have lengths : (operandsOf front).length = params.length := by
    rw [operandsOf_eq_map, List.length_map, count]
  rw [split] at run
  obtain ⟨received, loaded, leading, load, decided⟩ := bindArguments_concat lengths array run
  obtain ⟨_, value, -, pushed⟩ := (inductive_trivial context).steady last _ _ load
  -- one outcome rules out the other, so each of them tells what the static type is
  have outcome :
      (PassedOn context variadic.type loaded after ↔ (context.typeOf last).isArray = true) ∧
        (Wrapped context variadic.type loaded after ↔
          (context.typeOf last).isArray = false) := by
    rcases decided with ⟨isArray, passed⟩ | ⟨scalar, wrapped⟩
    · change (context.typeOf last).isArray = true at isArray
      exact ⟨iff_of_true passed isArray,
        iff_of_false (not_wrapped_of_passedOn passed) (by simp [isArray])⟩
    · change (context.typeOf last).isArray = false at scalar
      exact ⟨iff_of_false (fun passed => not_wrapped_of_passedOn passed wrapped)
        (by simp [scalar]), iff_of_true wrapped scalar⟩
  refine ⟨received, loaded, value, leading, load, pushed.stack, outcome.1, outcome.2, ?_⟩
  rw [outcome.1]
  exact not_misjudged_iff array

/-- The static type of what stands for the elements of an array does not show the array,
which is wrapped therefore. -/
theorem variadic_argument_of_spread_names :
    let context : Context := { types := .builtin, frame := .method .object }
    let names : Expr := .spread (.read ⟨"names", 1, .arrayOf .string, false⟩)
    let count : Param := ⟨"count", .int⟩
    let variadic : Param := ⟨"names", .arrayOf .string⟩
    let before : LoweringState := { ledger := { classId := .object, keyOf := fun _ => 0 } }
    ∃ after, Runs (bindArguments (operandsOf ([.int 5] ++ [names])) ([count] ++ [variadic]))
        context before () after ∧
      ∃ received loaded, Runs names.lower context received () loaded ∧
        loaded.stack = .arrayOf .string :: received.stack ∧
        ¬PassedOn context variadic.type loaded after ∧
        Wrapped context variadic.type loaded after ∧
        Misjudged context.types (context.typeOf names) (.arrayOf .string) variadic.type := by
  intro context names count variadic before
  obtain ⟨after, run⟩ := exists_runs_of_answer? (show answer?
    (bindArguments (operandsOf ([.int 5] ++ [names])) ([count] ++ [variadic])) context before =
      some () by decide +kernel)
  obtain ⟨received, loaded, value, leading, load, stack, passes, wraps, -⟩ :=
    variadic_argument_of_bindArguments context [.int 5] names [count] variadic before after rfl
      rfl run
  have scalar : (context.typeOf names).isArray = false := rfl
  have pushed : loaded.stack = .arrayOf .string :: received.stack := by
    simp only [names, Expr.lower, runs_bind, runs_write, runs_push] at load
    obtain ⟨_, _, rfl, rfl⟩ := load
    rfl
  exact ⟨after, run, received, loaded, load, pushed, by simp [passes, scalar],
    wraps.mpr scalar, .inr ⟨scalar, by decide⟩⟩

end CallCode
