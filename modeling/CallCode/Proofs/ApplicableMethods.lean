import CallCode.Proofs.ChainedOperands

/-!
# Applicable methods

Whether a method could take a number of arguments is asked before a call is bound, and binding
asks again, in its own way and with the types of the arguments at hand.  Both agree for every
list of parameters, and binding asks before it loads anything.
-/

namespace CallCode

open Lower

/-- So many arguments can be bound to parameters: one for each, or else any number from one
fewer than the parameters on where the last parameter is an array. -/
def Takes (params : List Param) (count : Nat) : Prop :=
  params.length = count ∨ isVariadic params = true ∧ params.length ≤ count + 1

theorem Method.accepts_iff (method : Method) (count : Nat) :
    method.accepts count = true ↔ Takes method.params count := by
  simp [accepts, Takes, isVariadic]

theorem isSome_variadicElement (params : List Param) :
    (variadicElement params).isSome = isVariadic params := by
  unfold variadicElement isVariadic
  cases params.getLast? with
  | none => rfl
  | some last => exact last.type.isSome_component

/-- Binding, with the way to load an argument and the fault of a mismatch left open. -/
def bindOrStop (load : Operand → ValueType → Lower Unit) (mismatch : Fault)
    (arguments : List Operand) (params : List Param) : Lower Unit := do
  let typeOf := (← read).typeOf
  if arguments.length + 1 < params.length then
    throw mismatch
  match variadicElement params, packsSurplus typeOf arguments params with
  | some element, true =>
      let fixed := params.length - 1
      loadEachWith load ((arguments.take fixed).zip params)
      packWith load (arguments.drop fixed) element
  | _, _ =>
      if arguments.length = params.length then loadEachWith load (arguments.zip params)
      else throw mismatch

theorem bindOrStop_arityMismatch (load : Operand → ValueType → Lower Unit)
    (arguments : List Operand) (params : List Param) :
    bindOrStop load (.rejected (arityMismatch arguments params)) arguments params =
      bindWith load arguments params := rfl

/-- Binding stops because of the number of the arguments itself, and not in one of them: it
stops with whatever fault stands for a mismatch. -/
def Refuses (context : Context) (arguments : List Operand) (params : List Param)
    (before after : LoweringState) : Prop :=
  ∀ mismatch, bindOrStop loadAs mismatch arguments params context before = .error mismatch after

section Binding

variable {context : Context} {load : Operand → ValueType → Lower Unit}
  {arguments : List Operand} {params : List Param} {before after : LoweringState}

/-- Arguments of a number that is not taken are refused at once. -/
theorem bindOrStop_of_not_takes (mismatch : Fault)
    (refused : ¬Takes params arguments.length) :
    bindOrStop load mismatch arguments params context before = .error mismatch before := by
  have other : arguments.length ≠ params.length := fun same => refused (.inl same.symm)
  by_cases few : arguments.length + 1 < params.length
  · simp only [bindOrStop, if_pos few]
    rfl
  · -- enough arguments are refused only where none of them can be packed
    have fixed : variadicElement params = none := by
      rw [← Option.not_isSome_iff_eq_none, isSome_variadicElement]
      exact fun variadic => refused (.inr ⟨variadic, Nat.le_of_not_lt few⟩)
    simp only [bindOrStop, if_neg few, fixed, if_neg other]
    rfl

/-- Where the number of the arguments is taken, a mismatch does not come up. -/
theorem bindOrStop_of_takes (taken : Takes params arguments.length) (mismatch other : Fault) :
    bindOrStop load mismatch arguments params context before =
      bindOrStop load other arguments params context before := by
  have enough : ¬arguments.length + 1 < params.length := by
    rcases taken with same | ⟨-, atMost⟩ <;> omega
  simp only [bindOrStop, if_neg enough]
  by_cases same : arguments.length = params.length
  · simp only [if_pos same]
  · -- other than one for each parameter, arguments are taken only to be packed
    have variadic : (variadicElement params).isSome = true := by
      rw [isSome_variadicElement]
      exact (taken.resolve_left (Ne.symm same)).1
    obtain ⟨element, found⟩ := Option.isSome_iff_exists.mp variadic
    have packs : packsSurplus context.typeOf arguments params = true := by
      simp [packsSurplus, same]
    simp only [bind, ReaderT.bind, EStateM.bind, read, readThe, MonadReaderOf.read, ReaderT.read,
      pure, EStateM.pure, found, packs]

theorem refuses_iff :
    Refuses context arguments params before after ↔
      ¬Takes params arguments.length ∧ after = before := by
  constructor
  · intro refuses
    by_cases taken : Takes params arguments.length
    · -- two faults cannot both be the one that stopped it
      have first := refuses (.rejected (.internal .siteTableFull))
      have second := refuses (.rejected (.internal .sitesExhausted))
      rw [bindOrStop_of_takes taken _ (.rejected (.internal .siteTableFull)), first] at second
      cases second
    · have stopped := refuses (.rejected (.internal .siteTableFull))
      rw [bindOrStop_of_not_takes _ taken] at stopped
      cases stopped
      exact ⟨taken, rfl⟩
  · rintro ⟨refused, rfl⟩ mismatch
    exact bindOrStop_of_not_takes mismatch refused

end Binding

/-- Whether a class has a possible method for a call and whether the arguments can be bound to
one are the same question: some method of the name, of the class or of a superclass, does not
refuse them.  Arguments that are refused are not loaded, so that nothing has changed. -/
theorem hasPossibleMethod_iff_not_refuses (context : Context) (classId : Identity)
    (name : String) (arguments : List Operand) (before : LoweringState) :
    (context.types.hasPossibleMethod classId name arguments.length = true ↔
      ∃ decl ∈ context.types.superclassChain classId, ∃ method ∈ decl.methods,
        method.name = name ∧ ¬∃ after, Refuses context arguments method.params before after) ∧
    ∀ params after, Refuses context arguments params before after →
      after = before ∧
        bindArguments arguments params context before =
          .error (.rejected (arityMismatch arguments params)) before ∧
        ∀ load, bindWith load arguments params context before =
          .error (.rejected (arityMismatch arguments params)) before := by
  constructor
  · simp only [TypeTable.hasPossibleMethod, List.any_eq_true, TypeDecl.methodsNamed,
      List.mem_filter, beq_iff_eq, Method.accepts_iff, refuses_iff, exists_eq_right, not_not,
      and_assoc]
  · intro params after refuses
    obtain ⟨refused, rfl⟩ := refuses_iff.mp refuses
    have stops (load : Operand → ValueType → Lower Unit) :
        bindWith load arguments params context after =
          .error (.rejected (arityMismatch arguments params)) after := by
      rw [← bindOrStop_arityMismatch]
      exact bindOrStop_of_not_takes _ refused
    exact ⟨rfl, stops loadAs, stops⟩

/-- A class below one that declares `log(Object, Object[])`. -/
def loggingTypes : TypeTable :=
  ⟨[{ name := "Sub", id := ⟨2⟩, kind := .classType, superclass := some ⟨1⟩ },
    { name := "Base", id := ⟨1⟩, kind := .classType,
      methods := [⟨⟨3⟩, "log", ⟨1⟩, [⟨"level", .object⟩, ⟨"rest", .objectArray⟩], .object,
        .openAccess⟩] }]⟩

/-- The inherited method is possible with one argument, for which the array stays empty, and
is not with none, which is refused before anything is written. -/
theorem hasPossibleMethod_log :
    let context : Context := { types := loggingTypes, frame := .method ⟨2⟩ }
    let before : LoweringState := { ledger := { classId := ⟨2⟩ } }
    loggingTypes.hasPossibleMethod ⟨2⟩ "log" 1 = true ∧
      loggingTypes.hasPossibleMethod ⟨2⟩ "log" 0 = false ∧
      (∃ decl ∈ loggingTypes.superclassChain ⟨2⟩, ∃ method ∈ decl.methods, method.name = "log" ∧
        ¬∃ after, Refuses context [Expr.null.operand] method.params before after) ∧
      bindArguments [] [⟨"level", .object⟩, ⟨"rest", .objectArray⟩] context before =
        .error (.rejected (.internal (.arityMismatch 0 2))) before := by
  intro context before
  have one := hasPossibleMethod_iff_not_refuses context ⟨2⟩ "log" [Expr.null.operand] before
  have none := hasPossibleMethod_iff_not_refuses context ⟨2⟩ "log" [] before
  have possible : loggingTypes.hasPossibleMethod ⟨2⟩ "log" 1 = true := by decide
  have refuses : Refuses context [] [⟨"level", .object⟩, ⟨"rest", .objectArray⟩] before before :=
    fun _ => rfl
  obtain ⟨-, refused, -⟩ := none.2 _ _ refuses
  exact ⟨possible, by decide, one.1.mp possible, refused⟩

end CallCode
