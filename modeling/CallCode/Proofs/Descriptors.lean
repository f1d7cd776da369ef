import CallCode.TypeTable.Descriptor
import CallCode.Proofs.TypeHierarchy

/-!
# Descriptors can be read back

The descriptor of a parameter list has no separators, but each type in it tells where it
ends: after its brackets stands one letter, or a name up to a semicolon.  So the text has
one reading only, as long as names are free of the characters that a descriptor writes
itself.
-/

namespace CallCode

/-! ## Names -/

/-- A slashed name with its dots back. -/
def dotted (name : String) : String :=
  name.map fun letter => if letter = '/' then '.' else letter

theorem dotted_slashed {name : String} (plain : '/' ∉ name.toList) :
    dotted (slashed name) = name := by
  have restores : ∀ letter ∈ name.toList,
      (if (if letter = '.' then '/' else letter) = '/' then '.'
        else if letter = '.' then '/' else letter) = letter := by
    intro letter member
    have different : letter ≠ '/' := fun same => plain (same ▸ member)
    by_cases dot : letter = '.' <;> simp [dot, different]
  apply String.toList_inj.mp
  rw [dotted, slashed, String.toList_map, String.toList_map, List.map_map]
  exact (List.map_congr_left restores).trans (List.map_id _)

theorem slashed_inj {first second : String} (plainFirst : '/' ∉ first.toList)
    (plainSecond : '/' ∉ second.toList) (same : slashed first = slashed second) :
    first = second := by
  rw [← dotted_slashed plainFirst, same, dotted_slashed plainSecond]

theorem semicolon_mem_slashed {name : String} (member : ';' ∈ (slashed name).toList) :
    ';' ∈ name.toList := by
  rw [slashed, String.toList_map, List.mem_map] at member
  obtain ⟨letter, among, written⟩ := member
  by_cases dot : letter = '.'
  · rw [if_pos dot] at written
    exact absurd written (by decide)
  · rw [if_neg dot] at written
    exact written ▸ among

/-! ## Where a part of a text ends -/

/-- What stands before the first mark is determined. -/
theorem eq_of_append_mark {mark : Char} {first second rest others : List Char}
    (endsFirst : mark ∉ first) (endsSecond : mark ∉ second)
    (same : first ++ mark :: rest = second ++ mark :: others) :
    first = second ∧ rest = others := by
  induction first generalizing second with
  | nil =>
      cases second with
      | nil => exact ⟨rfl, (List.cons.inj same).2⟩
      | cons letter second => exact absurd (List.cons.inj same).1 (List.ne_of_not_mem_cons endsSecond)
  | cons letter first ih =>
      cases second with
      | nil => exact absurd (List.cons.inj same).1.symm (List.ne_of_not_mem_cons endsFirst)
      | cons other second =>
          obtain ⟨rfl, tails⟩ := List.cons.inj same
          obtain ⟨rfl, after⟩ := ih (List.not_mem_of_not_mem_cons endsFirst)
            (List.not_mem_of_not_mem_cons endsSecond) tails
          exact ⟨rfl, after⟩

/-- How often a mark is repeated is determined when another letter follows. -/
theorem eq_of_replicate_append {mark : Char} {count other : Nat} {rest others : List Char}
    (endsRest : rest.head? ≠ some mark) (endsOthers : others.head? ≠ some mark)
    (same : List.replicate count mark ++ rest = List.replicate other mark ++ others) :
    count = other ∧ rest = others := by
  induction count generalizing other with
  | zero =>
      cases other with
      | zero => exact ⟨rfl, same⟩
      | succ other =>
          have begins : rest = mark :: (List.replicate other mark ++ others) := same
          exact absurd (by rw [begins]; rfl) endsRest
  | succ count ih =>
      cases other with
      | zero =>
          have begins : mark :: (List.replicate count mark ++ rest) = others := same
          exact absurd (by rw [← begins]; rfl) endsOthers
      | succ other =>
          obtain ⟨rfl, after⟩ := ih (List.cons.inj same).2
          exact ⟨rfl, after⟩

/-! ## One type -/

theorem Primitive.descriptor_inj {first second : Primitive}
    (same : first.descriptor = second.descriptor) : first = second := by
  revert same
  cases first <;> cases second <;> decide

theorem Primitive.descriptor_ne (primitive : Primitive) :
    primitive.descriptor ≠ 'L' ∧ primitive.descriptor ≠ '[' ∧ primitive.descriptor ≠ ')' := by
  cases primitive <;> decide

namespace TypeDecl

variable {decl : TypeDecl}

theorem toList_descriptor_of_primitive {primitive : Primitive}
    (kind : decl.primitive? = some primitive) :
    decl.descriptor.toList = [primitive.descriptor] := by
  rw [descriptor, kind]
  exact String.toList_singleton _

theorem toList_descriptor_of_named (kind : decl.primitive? = none) :
    decl.descriptor.toList = 'L' :: ((slashed decl.name).toList ++ [';']) := by
  rw [descriptor, kind]
  simp

/-- A base type does not begin like an array or like the end of a parameter list. -/
theorem head?_descriptor (decl : TypeDecl) : ∃ letter,
    decl.descriptor.toList.head? = some letter ∧ letter ≠ '[' ∧ letter ≠ ')' := by
  cases kind : decl.primitive? with
  | none =>
      refine ⟨'L', ?_, by decide, by decide⟩
      rw [toList_descriptor_of_named kind]
      rfl
  | some primitive =>
      refine ⟨primitive.descriptor, ?_, primitive.descriptor_ne.2⟩
      rw [toList_descriptor_of_primitive kind]
      rfl

end TypeDecl

/-- A list is mapped as a whole exactly if each of its members is. -/
theorem isSome_mapM_iff {Thing Image : Type} {image? : Thing → Option Image}
    {things : List Thing} :
    (things.mapM image?).isSome = true ↔ ∀ thing ∈ things, (image? thing).isSome = true := by
  induction things with
  | nil => simp
  | cons thing things ih =>
      rw [List.forall_mem_cons, ← ih, List.mapM_cons]
      cases image? thing with
      | none => simp
      | some image => simp [Option.isSome_bind]

namespace TypeTable

/-- No name has a character that stands for something else in a descriptor. -/
def NamesPlain (table : TypeTable) : Prop :=
  ∀ decl ∈ table.decls, '/' ∉ decl.name.toList ∧ ';' ∉ decl.name.toList

/-- The only primitives are the built-in ones. -/
def PrimitivesBuiltin (table : TypeTable) : Prop :=
  ∀ decl ∈ table.decls, decl.primitive?.isSome = true → decl ∈ Builtin.decls

instance (table : TypeTable) : Decidable table.NamesPlain :=
  inferInstanceAs (Decidable (∀ decl ∈ table.decls, _))

instance (table : TypeTable) : Decidable table.PrimitivesBuiltin :=
  inferInstanceAs (Decidable (∀ decl ∈ table.decls, _))

/-- The built-in primitives have letters of their own. -/
theorem eq_of_builtin_primitive {first second : TypeDecl} (memberFirst : first ∈ Builtin.decls)
    (memberSecond : second ∈ Builtin.decls) {primitive : Primitive}
    (kindFirst : first.primitive? = some primitive)
    (kindSecond : second.primitive? = some primitive) : first = second := by
  have distinct : ∀ first ∈ Builtin.decls, ∀ second ∈ Builtin.decls,
      first.primitive?.isSome = true → first.primitive? = second.primitive? → first = second := by
    decide
  exact distinct first memberFirst second memberSecond (Option.isSome_of_eq_some kindFirst)
    (kindFirst.trans kindSecond.symm)

variable {table : TypeTable}

theorem descriptor_eq_some_iff {type : ValueType} {text : String} :
    table.descriptor type = some text ↔ ∃ decl, table.find? type.base = some decl ∧
      text = String.ofList (List.replicate type.dims.toNat '[') ++ decl.descriptor := by
  refine Option.bind_eq_some_iff.trans (exists_congr fun decl => and_congr_right fun _ => ?_)
  rw [pure, eq_comm]
  exact Option.some_inj

theorem isSome_descriptor_iff {type : ValueType} :
    (table.descriptor type).isSome = true ↔ table.contains type.base = true := by
  simp [descriptor, contains, Option.isSome_bind]

/-- The descriptor of a type is not the end of a parameter list. -/
theorem head?_of_descriptor {type : ValueType} {text : String}
    (spells : table.descriptor type = some text) (rest : List Char) :
    (text.toList ++ rest).head? ≠ some ')' := by
  obtain ⟨decl, -, rfl⟩ := descriptor_eq_some_iff.mp spells
  obtain ⟨letter, begins, -, notEnd⟩ := decl.head?_descriptor
  rw [String.toList_append, String.toList_ofList]
  cases type.dims.toNat with
  | zero => simpa [List.head?_append, begins] using notEnd
  | succ dims => simp [List.replicate_succ]

section Reading

variable (registered : table.Registered) (plain : table.NamesPlain)
  (primitives : table.PrimitivesBuiltin)
include registered plain primitives

/-- The declaration of a base type can be told from its descriptor, whatever follows. -/
theorem eq_of_descriptor_append {first second : TypeDecl} {rest others : List Char}
    (memberFirst : first ∈ table.decls) (memberSecond : second ∈ table.decls)
    (same : first.descriptor.toList ++ rest = second.descriptor.toList ++ others) :
    first = second ∧ rest = others := by
  cases kindFirst : first.primitive? with
  | some primitive =>
      rw [TypeDecl.toList_descriptor_of_primitive kindFirst] at same
      have builtinFirst := primitives first memberFirst (Option.isSome_of_eq_some kindFirst)
      cases kindSecond : second.primitive? with
      | some other =>
          rw [TypeDecl.toList_descriptor_of_primitive kindSecond] at same
          obtain ⟨letters, after⟩ := List.cons.inj same
          rw [Primitive.descriptor_inj letters] at kindFirst
          have builtinSecond := primitives second memberSecond (Option.isSome_of_eq_some kindSecond)
          exact ⟨eq_of_builtin_primitive builtinFirst builtinSecond kindFirst kindSecond, after⟩
      | none =>
          rw [TypeDecl.toList_descriptor_of_named kindSecond] at same
          exact absurd (List.cons.inj same).1 primitive.descriptor_ne.1
  | none =>
      rw [TypeDecl.toList_descriptor_of_named kindFirst] at same
      cases kindSecond : second.primitive? with
      | some other =>
          rw [TypeDecl.toList_descriptor_of_primitive kindSecond] at same
          exact absurd (List.cons.inj same).1.symm other.descriptor_ne.1
      | none =>
          rw [TypeDecl.toList_descriptor_of_named kindSecond, List.cons_append, List.cons_append,
            List.append_assoc, List.append_assoc] at same
          have endsFirst := mt semicolon_mem_slashed (plain first memberFirst).2
          have endsSecond := mt semicolon_mem_slashed (plain second memberSecond).2
          obtain ⟨names, after⟩ := eq_of_append_mark endsFirst endsSecond (List.cons.inj same).2
          have named : first.name = second.name :=
            slashed_inj (plain first memberFirst).1 (plain second memberSecond).1
              (String.toList_inj.mp names)
          exact ⟨List.inj_on_of_nodup_map registered.nodup_names memberFirst memberSecond named,
            after⟩

theorem type_eq_of_descriptor_append {first second : ValueType} {text other : String}
    {rest others : List Char} (spellsFirst : table.descriptor first = some text)
    (spellsSecond : table.descriptor second = some other)
    (same : text.toList ++ rest = other.toList ++ others) : first = second ∧ rest = others := by
  obtain ⟨firstDecl, foundFirst, rfl⟩ := descriptor_eq_some_iff.mp spellsFirst
  obtain ⟨secondDecl, foundSecond, rfl⟩ := descriptor_eq_some_iff.mp spellsSecond
  rw [String.toList_append, String.toList_append, String.toList_ofList, String.toList_ofList,
    List.append_assoc, List.append_assoc] at same
  have noBracket (decl : TypeDecl) (rest : List Char) :
      (decl.descriptor.toList ++ rest).head? ≠ some '[' := by
    obtain ⟨letter, begins, notBracket, -⟩ := decl.head?_descriptor
    simpa [List.head?_append, begins] using notBracket
  obtain ⟨dims, bases⟩ := eq_of_replicate_append (noBracket firstDecl rest)
    (noBracket secondDecl others) same
  obtain ⟨rfl, after⟩ := eq_of_descriptor_append registered plain primitives
    (List.mem_of_find?_eq_some foundFirst) (List.mem_of_find?_eq_some foundSecond) bases
  have sameBase : first.base = second.base := by
    rw [← id_of_find? foundFirst, id_of_find? foundSecond]
  cases first
  cases second
  cases UInt8.toNat_inj.mp dims
  cases sameBase
  exact ⟨rfl, after⟩

/-- Type by type, two parameter lists of one descriptor agree. -/
theorem types_eq_of_descriptors {first second : List Param} {parts others : List String}
    (spellsFirst : first.mapM (fun param => table.descriptor param.type) = some parts)
    (spellsSecond : second.mapM (fun param => table.descriptor param.type) = some others)
    (same : parts.flatMap String.toList ++ [')', 'V'] =
      others.flatMap String.toList ++ [')', 'V']) :
    first.map (·.type) = second.map (·.type) := by
  induction first generalizing second parts others with
  | nil =>
      cases spellsFirst
      cases second with
      | nil => rfl
      | cons param second =>
          simp only [List.mapM_cons, bind, Option.bind_eq_some_iff, pure, Option.some.injEq]
            at spellsSecond
          obtain ⟨text, spells, texts, -, rfl⟩ := spellsSecond
          rw [List.flatMap_cons, List.append_assoc] at same
          exact absurd (by rw [← same]; rfl) (head?_of_descriptor spells _)
  | cons param first ih =>
      simp only [List.mapM_cons, bind, Option.bind_eq_some_iff, pure, Option.some.injEq]
        at spellsFirst
      obtain ⟨text, spells, texts, further, rfl⟩ := spellsFirst
      rw [List.flatMap_cons, List.append_assoc] at same
      cases second with
      | nil =>
          cases spellsSecond
          exact absurd (by rw [same]; rfl) (head?_of_descriptor spells _)
      | cons other second =>
          simp only [List.mapM_cons, bind, Option.bind_eq_some_iff, pure, Option.some.injEq]
            at spellsSecond
          obtain ⟨otherText, otherSpells, otherTexts, otherFurther, rfl⟩ := spellsSecond
          rw [List.flatMap_cons, List.append_assoc] at same
          obtain ⟨types, after⟩ := type_eq_of_descriptor_append registered plain primitives
            spells otherSpells same
          rw [List.map_cons, List.map_cons, types, ih further otherFurther after]

end Reading

theorem signatureDescriptor_eq_some_iff {params : List Param} {text : String} :
    table.signatureDescriptor params = some text ↔ ∃ parts,
      params.mapM (fun param => table.descriptor param.type) = some parts ∧
        text = "(" ++ String.join parts ++ ")V" := by
  refine Option.bind_eq_some_iff.trans (exists_congr fun parts => and_congr_right fun _ => ?_)
  rw [pure, eq_comm]
  exact Option.some_inj

theorem isSome_signatureDescriptor_iff {params : List Param} :
    (table.signatureDescriptor params).isSome = true ↔
      ∀ param ∈ params, table.contains param.type.base = true := by
  simp only [← isSome_descriptor_iff, ← isSome_mapM_iff]
  simp [signatureDescriptor, Option.isSome_bind]

/-- Where names are plain and the primitives are built in, the descriptor of a constructor
determines the types of its parameters, position by position.  Every constructor whose
parameters are of registered types has a descriptor. -/
theorem constructor_types_of_descriptor (builtins : Bool) (decls : List TypeDecl)
    (plain : (offered builtins decls).NamesPlain)
    (primitives : (offered builtins decls).PrimitivesBuiltin) :
    let table := offered builtins decls
    (∀ constructor : Constructor, (table.signatureDescriptor constructor.params).isSome = true ↔
      ∀ param ∈ constructor.params, table.contains param.type.base = true) ∧
    ∀ (first second : Constructor) (text : String),
      table.signatureDescriptor first.params = some text →
      table.signatureDescriptor second.params = some text →
      first.params.map (·.type) = second.params.map (·.type) := by
  intro table
  have registered : table.Registered :=
    offered_induction .empty (fun _ _ _ => .register) builtins decls
  refine ⟨fun constructor => isSome_signatureDescriptor_iff, ?_⟩
  intro first second text spellsFirst spellsSecond
  obtain ⟨parts, foundFirst, rfl⟩ := signatureDescriptor_eq_some_iff.mp spellsFirst
  obtain ⟨others, foundSecond, same⟩ := signatureDescriptor_eq_some_iff.mp spellsSecond
  apply types_eq_of_descriptors registered plain primitives foundFirst foundSecond
  simpa [← String.toList_inj] using same

/-- Constructors for an array of arrays and a name with dots. -/
theorem constructor_types_of_descriptor_node :
    let node : TypeDecl :=
      { name := "tree.Node", id := ⟨201⟩, kind := .classType, superclass := some .object }
    let table := offered true [node]
    let first : Constructor :=
      .declare ⟨201⟩ [⟨"rows", ⟨.int, 2⟩⟩, ⟨"next", .simple ⟨201⟩⟩] .openAccess
    let second : Constructor :=
      .declare ⟨201⟩ [⟨"cells", ⟨.int, 2⟩⟩, ⟨"parent", .simple ⟨201⟩⟩] .openAccess
    (table.NamesPlain ∧ table.PrimitivesBuiltin) ∧
      (table.signatureDescriptor first.params = some "([[ILtree/Node;)V" ∧
        table.signatureDescriptor second.params = some "([[ILtree/Node;)V") ∧
      first.params.map (·.type) = second.params.map (·.type) := by
  intro node table first second
  have plain : table.NamesPlain := by decide
  have primitives : table.PrimitivesBuiltin := by decide
  have spellsFirst : table.signatureDescriptor first.params = some "([[ILtree/Node;)V" := by
    decide +kernel
  have spellsSecond : table.signatureDescriptor second.params = some "([[ILtree/Node;)V" := by
    decide +kernel
  refine ⟨⟨plain, primitives⟩, ⟨spellsFirst, spellsSecond⟩, ?_⟩
  exact (constructor_types_of_descriptor true [node] plain primitives).2 first second
    "([[ILtree/Node;)V" spellsFirst spellsSecond

-- a slash in a name is taken for a dot
example :
    let dotted : TypeDecl := { name := "tree.Node", id := ⟨201⟩, kind := .classType }
    let slashed : TypeDecl := { name := "tree/Node", id := ⟨202⟩, kind := .classType }
    let table := offered true [dotted, slashed]
    table.signatureDescriptor [⟨"node", .simple ⟨201⟩⟩] = some "(Ltree/Node;)V" ∧
      table.signatureDescriptor [⟨"node", .simple ⟨202⟩⟩] = some "(Ltree/Node;)V" := by
  decide +kernel

end TypeTable

end CallCode
