import CallCode.Proofs.CandidateTable
import CallCode.Proofs.Lowering.AgreeingCalls
import CallCode.Proofs.TypeHierarchy
import Mathlib.Data.List.Perm.Basic

/-!
# The order of constructors

Candidates are sorted by their descriptors.  Where these are distinct, the order in which a
class lists its constructors matters neither to its candidate table nor to the calls that
are dispatched by it.  It does matter to an anonymous class, which runs the first of them.
-/

namespace CallCode

open Lower

/-! ## Reordered declarations -/

/-- The declarations differ at most in the order of their constructors. -/
structure TypeDecl.Reorders (first second : TypeDecl) : Prop where
  bare : first.bare = second.bare
  constructors : first.constructors.Perm second.constructors

namespace TypeDecl.Reorders

variable {first second : TypeDecl}

theorem id_eq (same : first.Reorders second) : first.id = second.id := by
  simpa using congrArg TypeDecl.id same.bare

theorem name_eq (same : first.Reorders second) : first.name = second.name := by
  simpa using congrArg TypeDecl.name same.bare

theorem supertypes_eq (same : first.Reorders second) : first.supertypes = second.supertypes := by
  simpa using congrArg TypeDecl.supertypes same.bare

end TypeDecl.Reorders

theorem Constructor.find?_of_perm {constructors others : List Constructor}
    (perm : constructors.Perm others) (distinct : (constructors.map (·.id)).Nodup)
    (id : Identity) : others.find? (·.id == id) = constructors.find? (·.id == id) := by
  cases found : constructors.find? (·.id == id) with
  | none =>
      rw [List.find?_eq_none] at found ⊢
      intro constructor listed
      exact found constructor (perm.mem_iff.mpr listed)
  | some constructor =>
      have listed := List.mem_of_find?_eq_some found
      have named : constructor.id = id := by simpa using List.find?_some found
      obtain ⟨other, again⟩ : ∃ other, others.find? (·.id == id) = some other := by
        rw [← Option.isSome_iff_exists, List.find?_isSome]
        exact ⟨constructor, perm.mem_iff.mp listed, by simpa using named⟩
      have otherNamed : other.id = id := by simpa using List.find?_some again
      have otherListed := perm.mem_iff.mpr (List.mem_of_find?_eq_some again)
      rw [again, List.inj_on_of_nodup_map distinct otherListed listed
        (otherNamed.trans named.symm)]

namespace TypeTable

/-- The types of two tables differ at most in the order of their constructors. -/
def Reorders (first second : TypeTable) : Prop :=
  List.Forall₂ TypeDecl.Reorders first.decls second.decls

namespace Reorders

variable {first second : TypeTable} {decl other : TypeDecl}

theorem bare (reorders : first.Reorders second) : first.bare = second.bare := by
  obtain ⟨decls⟩ := first
  obtain ⟨others⟩ := second
  change List.Forall₂ TypeDecl.Reorders decls others at reorders
  apply congrArg TypeTable.mk
  induction reorders with
  | nil => rfl
  | cons same _ ih => rw [List.map_cons, List.map_cons, same.bare, ih]

/-- A type is declared in both tables or in neither. -/
theorem find? (reorders : first.Reorders second) (id : Identity) :
    first.find? id = none ∧ second.find? id = none ∨
      ∃ decl other, first.find? id = some decl ∧ second.find? id = some other ∧
        decl.Reorders other := by
  obtain ⟨decls⟩ := first
  obtain ⟨others⟩ := second
  change List.Forall₂ TypeDecl.Reorders decls others at reorders
  unfold TypeTable.find?
  induction reorders with
  | nil => exact .inl ⟨rfl, rfl⟩
  | @cons decl other _ _ same _ ih =>
      simp only [List.find?_cons, same.id_eq]
      split
      · exact .inr ⟨decl, other, rfl, rfl, same⟩
      · exact ih

/-- A declaration is registered or rejected whatever the order is. -/
theorem offer (reorders : first.Reorders second) (same : decl.Reorders other) :
    (first.offer decl).Reorders (second.offer other) := by
  have contains : first.contains = second.contains := by
    funext id
    rw [← first.contains_bare, reorders.bare, second.contains_bare]
  have named (name : String) :
      (first.findNamed? name).isSome = (second.findNamed? name).isSome := by
    have bare := congrArg (fun table => (table.findNamed? name).isSome) reorders.bare
    simpa only [findNamed?_bare, Option.isSome_map] using bare
  simp only [TypeTable.offer, register, same.id_eq, same.name_eq, same.supertypes_eq, contains,
    named]
  by_cases taken : second.contains other.id || (second.findNamed? other.name).isSome
  · simp only [taken, if_true]
    exact reorders
  · simp only [taken]
    cases other.supertypes.find? (!second.contains ·) with
    | some missing => exact reorders
    | none => exact .cons same reorders

theorem offered {decls others : List TypeDecl}
    (reorders : List.Forall₂ TypeDecl.Reorders decls others) (builtins : Bool) :
    (TypeTable.offered builtins decls).Reorders (TypeTable.offered builtins others) := by
  have offers (first second : TypeTable) (start : first.Reorders second) :
      (decls.foldl TypeTable.offer first).Reorders (others.foldl TypeTable.offer second) := by
    induction reorders generalizing first second with
    | nil => exact start
    | cons same _ ih => exact ih _ _ (start.offer same)
  exact offers _ _ (List.forall₂_same.mpr fun decl _ => ⟨rfl, .refl _⟩)

/-- Where no class declares two constructors of one identity, each is found by its own. -/
theorem constructor? (reorders : first.Reorders second)
    (distinct : ∀ decl ∈ first.decls, (decl.constructors.map (·.id)).Nodup) (id : Identity) :
    second.constructor? id = first.constructor? id := by
  obtain ⟨decls⟩ := first
  obtain ⟨others⟩ := second
  change List.Forall₂ TypeDecl.Reorders decls others at reorders
  unfold TypeTable.constructor?
  induction reorders with
  | nil => rfl
  | @cons decl other decls others same _ ih =>
      have later := ih fun decl listed => distinct decl (List.mem_cons_of_mem _ listed)
      have found : other.constructors.reverse.find? (·.id == id) =
          decl.constructors.reverse.find? (·.id == id) := by
        refine Constructor.find?_of_perm ?_ ?_ id
        · exact (List.reverse_perm _).trans (same.constructors.trans (List.reverse_perm _).symm)
        · rw [List.map_reverse]
          exact List.nodup_reverse.mpr (distinct decl List.mem_cons_self)
      simp only [List.findSome?_cons, found, later]

end Reorders

/-- The descriptors of the constructors of a class, as far as these have one. -/
def descriptorsOf (types : TypeTable) (classId : Identity) : List String :=
  match types.find? classId with
  | some decl => decl.constructors.filterMap (types.signatureDescriptor ·.params)
  | none => []

end TypeTable

/-! ## Candidates in one order -/

namespace CandidateTable

variable {types shuffled : TypeTable} {keyOf : KeyFunction}

theorem descriptors_of_candidate? {constructors : List Constructor}
    {candidates : List Candidate}
    (made : List.Forall₂ (fun constructor candidate =>
      candidate? types keyOf constructor = some candidate) constructors candidates) :
    constructors.filterMap (types.signatureDescriptor ·.params) =
      candidates.map (·.descriptor) := by
  induction made with
  | nil => rfl
  | cons first _ ih =>
      rw [candidate?, Option.bind_eq_bind, Option.bind_eq_some_iff] at first
      obtain ⟨descriptor, known, first⟩ := first
      cases first
      simp only [List.filterMap_cons, known, ih, List.map_cons]

/-- Sorting by distinct descriptors forgets the order there was. -/
theorem mergeSort_of_perm {candidates others : List Candidate} (perm : candidates.Perm others)
    (distinct : (candidates.map (·.descriptor)).Nodup) :
    (candidates.mergeSort fun first second =>
        decide (first.descriptor ≤ second.descriptor)) =
      others.mergeSort fun first second =>
        decide (first.descriptor ≤ second.descriptor) := by
  apply List.Perm.eq_of_pairwise _ (sorted_mergeSort candidates) (sorted_mergeSort others)
  · exact (List.mergeSort_perm _ _).trans (perm.trans (List.mergeSort_perm _ _).symm)
  · intro first second listed otherListed below above
    rw [List.mem_mergeSort] at listed otherListed
    exact List.inj_on_of_nodup_map distinct listed (perm.mem_iff.mpr otherListed)
      (String.le_antisymm below above)

theorem candidate?_bare (types : TypeTable) (keyOf : KeyFunction) :
    candidate? types.bare keyOf = candidate? types keyOf := by
  funext constructor
  rw [candidate?, TypeTable.signatureDescriptor_bare, candidate?]

/-- Permuted constructors have permuted candidates. -/
theorem mapM_of_perm {constructors others : List Constructor} {candidates : List Candidate}
    (perm : constructors.Perm others)
    (listed : constructors.mapM (candidate? types keyOf) = some candidates) :
    ∃ permuted, others.mapM (candidate? types keyOf) = some permuted ∧
      candidates.Perm permuted := by
  obtain ⟨permuted, made, same⟩ :=
    List.perm_comp_forall₂ perm.symm (candidate?_of_mapM listed)
  exact ⟨permuted, mapM_of_candidate? made, same.symm⟩

/-- Where the descriptors are distinct, the table of a class does not depend on the order of
its constructors. -/
theorem build_of_reordered (reorders : types.Reorders shuffled) {classId : Identity}
    (distinct : (types.descriptorsOf classId).Nodup) (position : Position) :
    build shuffled classId position keyOf = build types classId position keyOf := by
  have blind : candidate? shuffled keyOf = candidate? types keyOf := by
    rw [← candidate?_bare types, reorders.bare, candidate?_bare]
  unfold build
  rcases reorders.find? classId with
    ⟨missing, otherMissing⟩ | ⟨decl, other, found, otherFound, same⟩
  · rw [missing, otherMissing]
  · simp only [TypeTable.descriptorsOf, found] at distinct
    have empty : decl.constructors.isEmpty = other.constructors.isEmpty := by
      simpa using same.constructors.isEmpty_eq
    rw [found, otherFound]
    simp only [same.name_eq, empty, blind]
    split
    · rfl
    · cases listed : decl.constructors.mapM (candidate? types keyOf) with
      | some candidates =>
          obtain ⟨permuted, otherListed, perm⟩ := mapM_of_perm same.constructors listed
          rw [descriptors_of_candidate? (candidate?_of_mapM listed)] at distinct
          rw [otherListed]
          simp only [mergeSort_of_perm perm distinct]
      | none =>
          cases otherListed : other.constructors.mapM (candidate? types keyOf) with
          | none => rfl
          | some permuted =>
              obtain ⟨candidates, some, -⟩ := mapM_of_perm same.constructors.symm otherListed
              rw [listed] at some
              cases some

end CandidateTable

/-! ## Chained calls -/

theorem Ledger.candidateTable_of_reordered {types shuffled : TypeTable}
    (reorders : types.Reorders shuffled) {classId : Identity}
    (distinct : (types.descriptorsOf classId).Nodup) (position : Position) :
    Ledger.candidateTable shuffled classId position =
      Ledger.candidateTable types classId position := by
  funext ledger
  simp only [Ledger.candidateTable, CandidateTable.build_of_reordered reorders distinct]

/-- The types that expressions state do not depend on constructors. -/
theorem annotatedType_bare (types : TypeTable) :
    annotatedType types.bare = annotatedType types := by
  funext frame expr
  have target : targetType types.bare = targetType types := by
    funext target
    rw [targetType, funext types.method?_bare, targetType]
  have super : superType types.bare frame.classId = superType types frame.classId := by
    rw [superType, TypeTable.find?_bare, Option.bind_map, superType]
    rfl
  unfold annotatedType
  rw [target, super]

/-- A `new` call that does not make an anonymous class finds its constructor in every order,
if no class declares two constructors of one identity. -/
theorem NewCall.findsAlike_of_named {first second : Context}
    (reorders : first.types.Reorders second.types) (frame : second.frame = first.frame)
    (distinct : ∀ decl ∈ first.types.decls, (decl.constructors.map (·.id)).Nodup)
    {call : NewCall Operand} (named : call.anonymous = false) :
    call.FindsAlike first second := by
  have same : second.types.constructor? = first.types.constructor? :=
    funext (reorders.constructor? distinct)
  rw [FindsAlike, named, if_neg Bool.false_ne_true, fastConstructor, same, frame,
    fastConstructor]

/-- A table may as well have been built before. -/
theorem lowerDeclined_tabled {call : ChainCall Operand} {context : Context}
    {state : LoweringState} {classId : Identity} {table : CandidateTable}
    (called : call.calledClass context = .ok classId)
    (missing : state.ledger.tables.find? (·.classId == classId) = none)
    (built : CandidateTable.build context.types classId call.position state.ledger.keyOf =
      .ok table) :
    lowerDeclined call context state = lowerDeclined call context
      { state with ledger := { state.ledger with tables := table :: state.ledger.tables } } := by
  have same : table.classId = classId := by
    obtain ⟨_, _, -, -, -, rfl⟩ := CandidateTable.build_ok built
    rfl
  obtain ⟨finish, runs⟩ : ∃ finish : CandidateTable → Lower Construction,
      ∀ state, lowerDeclined call context state =
        (consult (Ledger.candidateTable context.types classId call.position) >>= finish)
          context state := by
    apply Exists.intro
    intro state
    change (accept (call.calledClass context) >>= fun classId => _) context state = _
    rw [called]
    rfl
  rw [runs, runs]
  change EStateM.bind _ _ _ = EStateM.bind _ _ _
  simp [EStateM.bind, consult, Ledger.candidateTable, missing, built, same]

/-- Where the constructors of a class have distinct descriptors, the order in which they are
declared matters neither to its candidates and their keys, nor to the code of a chained call
in which every `new` call finds the constructor it found before. -/
theorem chained_code_of_reordered {decls others : List TypeDecl}
    (reorders : List.Forall₂ TypeDecl.Reorders decls others) (builtins : Bool) :
    let types := TypeTable.offered builtins decls
    let shuffled := TypeTable.offered builtins others
    (∀ classId position keyOf, (types.descriptorsOf classId).Nodup →
      CandidateTable.build shuffled classId position keyOf =
        CandidateTable.build types classId position keyOf) ∧
      ∀ (frame : Frame) (resolver : TypeResolver) (hook : ChainHook) (call : ChainCall Expr),
        let context : Context := { types, frame, resolver }
        let other : Context := { types := shuffled, frame, resolver }
        other.typeOf = context.typeOf → Alike context other (hook call.operands) →
        (∀ creation ∈ creationsIn call.arguments,
          creation.operands.FindsAlike context other) →
        (∀ classId, call.operands.calledClass context = .ok classId →
          (types.descriptorsOf classId).Nodup) →
        ∀ state, lowerChainCall hook call.operands other state =
          lowerChainCall hook call.operands context state := by
  intro types shuffled
  have same : types.Reorders shuffled := .offered reorders builtins
  constructor
  · intro classId position keyOf distinct
    exact CandidateTable.build_of_reordered same distinct position
  · intro frame resolver hook call context other typed hooked find distinct state
    have agrees : context.Agrees other := ⟨same.bare, rfl, typed⟩
    have declined : Alike context other (lowerDeclined call.operands) := by
      apply call.alike_declined agrees find
      intro classId called
      exact Ledger.candidateTable_of_reordered same (distinct classId called) _
    have alike : Alike context other (lowerChainCall hook call.operands) := by
      rw [lowerChainCall_eq]
      have marks : Alike context other (markLine call.operands.position) := .ite rfl rfl
      exact .bind marks fun _ => .bind hooked fun _ => .ite rfl declined
    exact congrFun alike state

/-- `Cell(int value)` -/
def cellOfInt : Constructor := ⟨⟨101⟩, ⟨100⟩, [⟨"value", .int⟩], .openAccess⟩

/-- `Cell(Object value)` -/
def cellOfObject : Constructor := ⟨⟨102⟩, ⟨100⟩, [⟨"value", .object⟩], .openAccess⟩

/-- `Cell(Object value, Object next)` -/
def cellOfPair : Constructor :=
  ⟨⟨103⟩, ⟨100⟩, [⟨"value", .object⟩, ⟨"next", .object⟩], .openAccess⟩

/-- The class of cells, with its constructors in some order. -/
def cellDecl (constructors : List Constructor) : TypeDecl where
  name := "Cell"
  id := ⟨100⟩
  kind := .classType
  superclass := some .object
  constructors := constructors

/-- Cells whose constructors are in the order of their descriptors. -/
def cellTypes : TypeTable :=
  TypeTable.offered true [cellDecl [cellOfInt, cellOfObject, cellOfPair]]

def cellTable : CandidateTable :=
  ⟨⟨100⟩, [⟨cellOfInt, "(I)V", 4⟩, ⟨cellOfObject, "(LObject;)V", 11⟩,
    ⟨cellOfPair, "(LObject;LObject;)V", 19⟩]⟩

/-- Nothing is dispatched yet, and the key of a descriptor is its length. -/
def cellLedger : Ledger where
  classId := ⟨100⟩
  keyOf text := Int32.ofNat text.length

theorem descriptorsOf_cellTypes : (cellTypes.descriptorsOf ⟨100⟩).Nodup := by decide +kernel

theorem build_cellTypes (position : Position) :
    CandidateTable.build cellTypes ⟨100⟩ position cellLedger.keyOf = .ok cellTable := by
  have found : cellTypes.find? ⟨100⟩ =
      some (cellDecl [cellOfInt, cellOfObject, cellOfPair]) := by decide +kernel
  have listed : [cellOfInt, cellOfObject, cellOfPair].mapM
      (CandidateTable.candidate? cellTypes cellLedger.keyOf) =
        some cellTable.candidates := by
    decide +kernel
  have sorted : cellTable.candidates.mergeSort (fun first second =>
      decide (first.descriptor ≤ second.descriptor)) = cellTable.candidates :=
    List.mergeSort_of_pairwise (by decide +kernel)
  simp only [CandidateTable.build, found, cellDecl, listed, sorted]
  rfl

/-- `new Cell(x) {}` -/
def anonymousCell : NewCall Expr :=
  ⟨⟨100⟩, [.read ⟨"x", 1, .object, false⟩], none, true, .synthetic⟩

/-- `this(new Cell(x) {}, null)` -/
def chainedAnonymous : ChainCall Expr :=
  ⟨.sameClass, [.call (.create anonymousCell), .null], .synthetic⟩

/-- In every order of the constructors, the call is lowered with the same table. -/
theorem sizeAfter_chainedAnonymous {constructors : List Constructor}
    (reorders : TypeDecl.Reorders (cellDecl [cellOfInt, cellOfObject, cellOfPair])
      (cellDecl constructors)) :
    let context : Context :=
      { types := .offered true [cellDecl constructors], frame := .constructor ⟨100⟩ }
    sizeAfter (lowerChainCall noHook chainedAnonymous.operands) context
        { ledger := cellLedger } =
      sizeAfter (lowerDeclined chainedAnonymous.operands) context
        { ledger := { cellLedger with tables := [cellTable] } } := by
  intro context
  have same : cellTypes.Reorders context.types := .offered (.cons reorders .nil) true
  have built := (CandidateTable.build_of_reordered same descriptorsOf_cellTypes .synthetic).trans
    (build_cellTypes _)
  have tabled : lowerDeclined chainedAnonymous.operands context { ledger := cellLedger } = _ :=
    lowerDeclined_tabled rfl rfl built
  have enters : lowerChainCall noHook chainedAnonymous.operands context
      { ledger := cellLedger } =
        lowerDeclined chainedAnonymous.operands context { ledger := cellLedger } := rfl
  rw [sizeAfter, enters, tabled]
  rfl

/-- The call has the same code when the second and the third constructor change places. -/
theorem chained_code_of_reordered_cells :
    let shuffled := TypeTable.offered true [cellDecl [cellOfInt, cellOfPair, cellOfObject]]
    let context : Context := { types := cellTypes, frame := .constructor ⟨100⟩ }
    let other : Context := { types := shuffled, frame := .constructor ⟨100⟩ }
    let state : LoweringState := { ledger := cellLedger }
    sizeAfter (lowerChainCall noHook chainedAnonymous.operands) context state = some 19 ∧
      lowerChainCall noHook chainedAnonymous.operands other state =
        lowerChainCall noHook chainedAnonymous.operands context state := by
  intro shuffled context other state
  have reorders : List.Forall₂ TypeDecl.Reorders
      [cellDecl [cellOfInt, cellOfObject, cellOfPair]]
      [cellDecl [cellOfInt, cellOfPair, cellOfObject]] := .cons ⟨rfl, by decide⟩ .nil
  constructor
  · apply (sizeAfter_chainedAnonymous ⟨rfl, .refl _⟩).trans
    decide +kernel
  · apply (chained_code_of_reordered reorders true).2 _ annotatedType noHook chainedAnonymous
    · have bare : context.types.bare = other.types.bare :=
        (TypeTable.Reorders.offered reorders true).bare
      have same : annotatedType shuffled = annotatedType cellTypes := by
        rw [← annotatedType_bare, ← bare, annotatedType_bare]
      exact congrFun same _
    · rfl
    · intro creation member
      have only : creation = anonymousCell := by
        simpa [chainedAnonymous, anonymousCell, creationsIn, Expr.creations,
          Call.creations] using member
      rw [only]
      rfl
    · intro classId called
      cases called
      exact descriptorsOf_cellTypes

/-- An anonymous class runs the constructor that is declared first, so that the code of a
chained call with such an argument is longer where this one takes an `int`. -/
theorem anonymous_argument_depends_on_order :
    let shuffled := TypeTable.offered true [cellDecl [cellOfObject, cellOfInt, cellOfPair]]
    let state : LoweringState := { ledger := cellLedger }
    List.Forall₂ TypeDecl.Reorders [cellDecl [cellOfInt, cellOfObject, cellOfPair]]
        [cellDecl [cellOfObject, cellOfInt, cellOfPair]] ∧
      (cellTypes.descriptorsOf ⟨100⟩).Nodup ∧
      sizeAfter (lowerChainCall noHook chainedAnonymous.operands)
          { types := cellTypes, frame := .constructor ⟨100⟩ } state = some 19 ∧
      sizeAfter (lowerChainCall noHook chainedAnonymous.operands)
          { types := shuffled, frame := .constructor ⟨100⟩ } state = some 16 := by
  intro shuffled state
  have reorders : TypeDecl.Reorders (cellDecl [cellOfInt, cellOfObject, cellOfPair])
      (cellDecl [cellOfObject, cellOfInt, cellOfPair]) := ⟨rfl, by decide⟩
  refine ⟨.cons reorders .nil, descriptorsOf_cellTypes, ?_, ?_⟩
  · rw [cellTypes, sizeAfter_chainedAnonymous ⟨rfl, .refl _⟩]
    decide +kernel
  · rw [sizeAfter_chainedAnonymous reorders]
    decide +kernel

end CallCode
