import CallCode.TypeTable.Index
import CallCode.Proofs.TypeHierarchy

/-!
# The index of types is consistent

The four maps of an index stay in step with one another and with the table of
declarations, whatever was offered for registration.
-/

namespace CallCode

namespace TypeDecl

/-- The declarations that come from an empty one by adding to it. -/
inductive Built : TypeDecl → Prop
  | new (name : String) (id : Identity) (kind : TypeKind) : Built { name, id, kind }
  | withSuper {decl : TypeDecl} (super : Identity) : Built decl →
      Built { decl with superclass := some super }
  | withInterface {decl : TypeDecl} (interface : Identity) : Built decl →
      Built { decl with interfaces := decl.interfaces ++ [interface] }
  | withOuter {decl : TypeDecl} (outer : Identity) : Built decl →
      Built { decl with outer := some outer }
  | withModifiers {decl : TypeDecl} (modifiers : Modifiers) : Built decl →
      Built { decl with modifiers }
  | addConstructor {decl : TypeDecl} (params : List Param) : Built decl →
      Built (decl.addConstructor params)
  | addMethod {decl : TypeDecl} (name : String) (params : List Param) (returnType : ValueType)
      (modifiers : Modifiers) : Built decl →
      Built (decl.addMethod name params returnType modifiers)
  | addField {decl : TypeDecl} (field : Field) : Built decl → Built (decl.addField field)

namespace Built

theorem ofClass (name : String) : (TypeDecl.ofClass name).Built :=
  .withSuper .object (.new name _ .classType)

theorem ofInterface (name : String) : (TypeDecl.ofInterface name).Built :=
  .withModifiers _ (.new name _ .interfaceType)

theorem ofEnum (name : String) : (TypeDecl.ofEnum name).Built :=
  .withModifiers _ (.withSuper .enumBase (.new name _ .enumType))

end Built

/-- Every member of a declaration names the declared type as its owner. -/
def OwnsMembers (decl : TypeDecl) : Prop :=
  (∀ method ∈ decl.methods, method.owner = decl.id) ∧
    ∀ constructor ∈ decl.constructors, constructor.owner = decl.id

instance (decl : TypeDecl) : Decidable decl.OwnsMembers :=
  inferInstanceAs (Decidable (_ ∧ _))

theorem Built.ownsMembers {decl : TypeDecl} (built : decl.Built) : decl.OwnsMembers := by
  induction built with
  | new => exact ⟨by simp, by simp⟩
  | withSuper _ _ ih | withInterface _ _ ih | withOuter _ _ ih | withModifiers _ _ ih
  | addField _ _ ih => exact ih
  | addConstructor params _ ih =>
      refine ⟨ih.1, fun constructor member => ?_⟩
      rcases List.mem_append.mp member with old | new
      · exact ih.2 constructor old
      · rw [List.mem_singleton.mp new]
        rfl
  | addMethod name params returnType modifiers _ ih =>
      refine ⟨fun method member => ?_, ih.2⟩
      rcases List.mem_append.mp member with old | new
      · exact ih.1 method old
      · rw [List.mem_singleton.mp new]
        rfl

end TypeDecl

namespace TypeIndex

variable {member : Type} {index : TypeIndex} {table : TypeTable} {decl : TypeDecl}

/-! ## Members and their slots -/

section Members

variable {types : Std.HashMap Identity TypeDecl} {slots : Std.HashMap Identity MemberSlot}
  {members : TypeDecl → List member} {key : member → Identity}
  {search : Identity → Option member}

/-- Of the entered members of an identity, the last one is found. -/
theorem getElem?_enterMembers (owner : Identity) (entered : List member)
    (slots : Std.HashMap Identity MemberSlot) (id : Identity) :
    (enterMembers owner entered key slots)[id]? =
      ((entered.zipIdx.reverse.find? (key ·.1 == id)).map (⟨owner, ·.2⟩)).or slots[id]? := by
  induction entered using List.reverseRecOn with
  | nil => rfl
  | append_singleton entered last ih =>
      rw [enterMembers] at ih ⊢
      rw [List.zipIdx_append, List.foldl_append, List.reverse_append]
      by_cases same : key last = id
      · simp [same]
      · simp [Std.HashMap.getElem?_insert, same, ih]

/-- The slots of one kind of members lead to what a search among all declarations finds. -/
structure SlotsLead (types : Std.HashMap Identity TypeDecl)
    (slots : Std.HashMap Identity MemberSlot) (members : TypeDecl → List member)
    (search : Identity → Option member) : Prop where
  found : ∀ id : Identity, memberAt? types slots members id = search id
  owners : ∀ (id : Identity) (slot : MemberSlot), slots[id]? = some slot → slot.owner ∈ types

theorem find?_zipIdx_reverse (entered : List member) (id : Identity) :
    (entered.zipIdx.reverse.find? (key ·.1 == id)).map (·.1) =
      entered.reverse.find? (key · == id) := by
  have firsts : entered.reverse = entered.zipIdx.reverse.map (·.1) := by
    rw [List.map_reverse, List.zipIdx_map_fst]
  rw [firsts, List.find?_map]
  rfl

theorem findSome?_cons_eq_or (found : TypeDecl → Option member) (decl : TypeDecl)
    (older : List TypeDecl) :
    (decl :: older).findSome? found = (found decl).or (older.findSome? found) := by
  rw [List.findSome?_cons]
  cases found decl <;> rfl

/-- A member of the new declaration hides the older ones of its identity. -/
theorem SlotsLead.enter {later : Identity → Option member}
    (leads : SlotsLead types slots members search) (new : decl.id ∉ types)
    (hides : ∀ id, later id = ((members decl).reverse.find? (key · == id)).or (search id)) :
    SlotsLead (types.insert decl.id decl) (enterMembers decl.id (members decl) key slots)
      members later := by
  constructor
  · intro id
    rw [hides, ← leads.found, ← find?_zipIdx_reverse, memberAt?, getElem?_enterMembers]
    generalize last : (members decl).zipIdx.reverse.find? (key ·.1 == id) = found
    cases found with
    | none =>
        rw [Option.map_none, Option.none_or, Option.map_none, Option.none_or, memberAt?]
        cases old : slots[id]? with
        | none => rfl
        | some slot =>
            -- an old slot leads to an old type, whose declaration stays
            have older : decl.id ≠ slot.owner := fun same => new (same ▸ leads.owners id slot old)
            simp [Std.HashMap.getElem?_insert, older]
    | some entry =>
        have entered := List.mem_reverse.mp (List.mem_of_find?_eq_some last)
        simpa using List.mem_zipIdx_iff_getElem?.mp entered
  · intro id slot entered
    rw [getElem?_enterMembers] at entered
    rcases Option.or_eq_some_iff.mp entered with new | ⟨-, old⟩
    · obtain ⟨entry, -, rfl⟩ := Option.map_eq_some_iff.mp new
      simp
    · simp [leads.owners id slot old]

end Members

/-! ## The index and the table -/

/-- Checking items one after another fails at the first that does not pass. -/
theorem forM_unless {item error state : Type} (passes : item → Bool) (fails : item → error)
    (items : List item) (before : state) :
    (items.forM fun item => unless passes item do (throw (fails item) : EStateM error state Unit))
        before =
      match items.find? (!passes ·) with
      | some item => .error (fails item) before
      | none => .ok () before := by
  induction items with
  | nil => rfl
  | cons item items ih =>
      rw [List.find?_cons, List.forM]
      cases passes item with
      | false => rfl
      | true => exact ih

/-- An index gives the answers of a table. -/
structure Reflects (index : TypeIndex) (table : TypeTable) : Prop where
  types : ∀ id : Identity, index.types[id]? = table.find? id
  names : ∀ name : String, index.names[name]? = (table.findNamed? name).map (·.id)
  methods : SlotsLead index.types index.methods (·.methods) table.method?
  constructors : SlotsLead index.types index.constructors (·.constructors) table.constructor?
  size : index.types.size = table.typeCount

theorem Reflects.empty : Reflects {} .empty := by
  constructor
  · intro id; simp [TypeTable.empty, TypeTable.find?]
  · intro id; simp [TypeTable.empty, TypeTable.findNamed?]
  · constructor <;> simp [TypeTable.empty, TypeTable.method?, memberAt?]
  · constructor <;> simp [TypeTable.empty, TypeTable.constructor?, memberAt?]
  · simp [TypeTable.empty, TypeTable.typeCount]

namespace Reflects

variable (reflects : index.Reflects table)
include reflects

theorem mem_types (id : Identity) : id ∈ index.types ↔ table.contains id = true := by
  rw [← Std.HashMap.isSome_getElem?_iff_mem, reflects.types, TypeTable.contains]

theorem insert (newId : ∀ other ∈ table.decls, other.id ≠ decl.id) :
    (index.insert decl).Reflects (table.insert decl) := by
  have new : decl.id ∉ index.types := by
    rw [reflects.mem_types, TypeTable.contains_iff]
    rintro ⟨other, member, same⟩
    exact newId other member same
  constructor
  · intro id
    rw [TypeTable.find?_insert]
    simp [TypeIndex.insert, Std.HashMap.getElem?_insert, reflects.types]
  · intro name
    by_cases same : decl.name = name
    · simp [TypeIndex.insert, TypeTable.insert, TypeTable.findNamed?, same]
    · simpa [TypeIndex.insert, TypeTable.insert, TypeTable.findNamed?, same,
        Std.HashMap.getElem?_insert] using reflects.names name
  · exact reflects.methods.enter new fun id => findSome?_cons_eq_or _ decl table.decls
  · exact reflects.constructors.enter new fun id => findSome?_cons_eq_or _ decl table.decls
  · simpa [TypeIndex.insert, TypeTable.insert, TypeTable.typeCount,
      Std.HashMap.size_insert, new] using reflects.size

/-- Registration at the index succeeds when it does at the table, with the same error
otherwise, and an error leaves the index as it was. -/
theorem register_eq (decl : TypeDecl) :
    register decl index =
      match table.register decl with
      | .ok _ => .ok decl.id (index.insert decl)
      | .error error => .error error index := by
  have knows (id : Identity) : index.types.contains id = table.contains id := by
    rw [Bool.eq_iff_iff, Std.HashMap.contains_iff_mem, reflects.mem_types]
  have named : index.names.contains decl.name = (table.findNamed? decl.name).isSome := by
    rw [Std.HashMap.contains_eq_isSome_getElem?, reflects.names, Option.isSome_map]
  have supers := forM_unless (table.contains ·) (RegistrationError.missingSupertype decl.name)
    decl.supertypes index
  have reads : register decl index = (do
      if index.types.contains decl.id || index.names.contains decl.name then
        throw (.duplicateType decl.name)
      decl.supertypes.forM fun super =>
        unless index.types.contains super do
          throw (.missingSupertype decl.name super)
      set (index.insert decl)
      return decl.id : EStateM RegistrationError TypeIndex Identity) index := rfl
  rw [reads, TypeTable.register]
  simp only [knows, named]
  split
  · rfl
  · rename_i new
    simp only [bind, EStateM.bind, supers]
    cases decl.supertypes.find? (!table.contains ·) with
    | none => rfl
    | some missing => rfl

theorem offer (decl : TypeDecl) : (index.offer decl).Reflects (table.offer decl) := by
  rw [TypeIndex.offer, TypeTable.offer, reflects.register_eq]
  cases registers : table.register decl with
  | error error => exact reflects
  | ok later =>
      obtain ⟨rfl, newId, -⟩ := TypeTable.register_eq_ok_iff.mp registers
      exact reflects.insert newId

/-- Declarations that pass the checks of registration may go in without them. -/
theorem foldl_insert {decls : List TypeDecl} {later : TypeTable}
    (register : decls.foldlM TypeTable.register table = .ok later) :
    (decls.foldl TypeIndex.insert index).Reflects later := by
  induction decls generalizing index table with
  | nil =>
      cases register
      exact reflects
  | cons decl decls ih =>
      rw [List.foldlM_cons] at register
      cases registers : table.register decl with
      | error error => simp [registers, bind, Except.bind] at register
      | ok middle =>
          obtain ⟨rfl, newId, -⟩ := TypeTable.register_eq_ok_iff.mp registers
          rw [registers] at register
          exact ih (reflects.insert newId) register

end Reflects

theorem Reflects.builtin : builtin.Reflects .builtin :=
  empty.foldl_insert (by rfl)

theorem Reflects.offered (builtins : Bool) (decls : List TypeDecl) :
    (offered builtins decls).Reflects (.offered builtins decls) := by
  have start : Reflects (if builtins then TypeIndex.builtin else {})
      (if builtins then .builtin else .empty) := by
    cases builtins with
    | false => exact .empty
    | true => exact .builtin
  rw [TypeIndex.offered, TypeTable.offered]
  induction decls using List.reverseRecOn with
  | nil => exact start
  | append_singleton decls decl ih =>
      rw [List.foldl_append, List.foldl_append]
      exact ih.offer decl

/-! ## Consistency -/

/-- The members of one kind that an index finds are those of the registered types. -/
structure MembersConsistent (index : TypeIndex) (find : Identity → Option member)
    (members : TypeDecl → List member) (key owner : member → Identity) : Prop where
  isSome_iff : ∀ id, (find id).isSome = true ↔
    ∃ (type : Identity) (decl : TypeDecl), index.types[type]? = some decl ∧
      ∃ item ∈ members decl, key item = id
  declared : ∀ id item, find id = some item →
    key item = id ∧ ∃ decl : TypeDecl, index.types[owner item]? = some decl ∧ item ∈ members decl

/-- The four maps of an index are in step. -/
structure Consistent (index : TypeIndex) : Prop where
  typed : ∀ (id : Identity) (decl : TypeDecl), index.types[id]? = some decl → decl.id = id
  named : ∀ (name : String) (id : Identity), index.names[name]? = some id ↔
    ∃ decl : TypeDecl, index.types[id]? = some decl ∧ decl.name = name
  methods : index.MembersConsistent index.method? (·.methods) (·.id) (·.owner)
  constructors : index.MembersConsistent index.constructor? (·.constructors) (·.id) (·.owner)

theorem find?_eq_some_iff_of_nodup {name : Type} [DecidableEq name] {key : TypeDecl → name}
    {decls : List TypeDecl} (distinct : (decls.map key).Nodup) (sought : name) :
    decls.find? (key · == sought) = some decl ↔ decl ∈ decls ∧ key decl = sought := by
  constructor
  · intro found
    exact ⟨List.mem_of_find?_eq_some found, by simpa using List.find?_some found⟩
  · rintro ⟨member, rfl⟩
    obtain ⟨first, found⟩ : ∃ first, decls.find? (key · == key decl) = some first :=
      Option.isSome_iff_exists.mp (List.find?_isSome.mpr ⟨decl, member, by simp⟩)
    have same : key first = key decl := by simpa using List.find?_some found
    rw [found, List.inj_on_of_nodup_map distinct (List.mem_of_find?_eq_some found) member same]

theorem MembersConsistent.of_search {find : Identity → Option member}
    {members : TypeDecl → List member} {key owner : member → Identity}
    (search : ∀ id, find id =
      table.decls.findSome? fun decl => (members decl).reverse.find? (key · == id))
    (known : ∀ (id : Identity) (decl : TypeDecl), index.types[id]? = some decl ↔
      decl ∈ table.decls ∧ decl.id = id)
    (owns : ∀ decl ∈ table.decls, ∀ item ∈ members decl, owner item = decl.id) :
    index.MembersConsistent find members key owner := by
  constructor
  · intro id
    rw [search, List.findSome?_isSome_iff]
    constructor
    · rintro ⟨decl, registered, inner⟩
      obtain ⟨item, member, same⟩ := List.find?_isSome.mp inner
      exact ⟨decl.id, decl, (known _ _).mpr ⟨registered, rfl⟩, item, by simpa using member,
        by simpa using same⟩
    · rintro ⟨type, decl, found, item, member, same⟩
      exact ⟨decl, ((known _ _).mp found).1,
        List.find?_isSome.mpr ⟨item, by simpa using member, by simpa using same⟩⟩
  · intro id item found
    rw [search] at found
    obtain ⟨decl, registered, inner⟩ := List.exists_of_findSome?_eq_some found
    have member : item ∈ members decl := by simpa using List.mem_of_find?_eq_some inner
    refine ⟨by simpa using List.find?_some inner, decl, (known _ _).mpr ⟨registered, ?_⟩, member⟩
    exact (owns decl registered item member).symm

theorem Reflects.consistent (reflects : index.Reflects table)
    (distinctIds : (table.decls.map (·.id)).Nodup)
    (distinctNames : (table.decls.map (·.name)).Nodup)
    (owns : ∀ decl ∈ table.decls, decl.OwnsMembers) : index.Consistent := by
  have known (id : Identity) (decl : TypeDecl) :
      index.types[id]? = some decl ↔ decl ∈ table.decls ∧ decl.id = id := by
    rw [reflects.types]
    exact find?_eq_some_iff_of_nodup distinctIds id
  constructor
  · intro id decl found
    exact ((known id decl).mp found).2
  · intro name id
    rw [reflects.names, Option.map_eq_some_iff]
    refine exists_congr fun decl => ?_
    rw [known, TypeTable.findNamed?, find?_eq_some_iff_of_nodup distinctNames name, and_right_comm]
  · exact .of_search reflects.methods.found known fun decl member => (owns decl member).1
  · exact .of_search reflects.constructors.found known fun decl member => (owns decl member).2

/-- Whatever built declarations are offered for registration, the maps of the index are in
step, a rejected declaration leaves them unchanged, and the index answers as the table does
that lists the declarations. -/
theorem offered_consistent (builtins : Bool) (decls : List TypeDecl)
    (built : ∀ decl ∈ decls, decl.Built) :
    let index := offered builtins decls
    index.Consistent ∧
      (∀ decl error after, register decl index = .error error after → after = index) ∧
      index.Reflects (.offered builtins decls) := by
  intro index
  have reflects : index.Reflects (.offered builtins decls) := .offered builtins decls
  have registered : (TypeTable.offered builtins decls).Registered :=
    TypeTable.offered_induction .empty (fun _ _ _ => .register) builtins decls
  have owns (decl : TypeDecl) (member : decl ∈ (TypeTable.offered builtins decls).decls) :
      decl.OwnsMembers := by
    rcases TypeTable.mem_offered member with ready | given
    · have all : ∀ decl ∈ Builtin.decls, decl.OwnsMembers := by decide
      exact all decl ready
    · exact (built decl given).ownsMembers
  refine ⟨reflects.consistent (TypeTable.Grounded.offered builtins decls).nodup_ids
    registered.nodup_names owns, fun decl error after fails => ?_, reflects⟩
  rw [reflects.register_eq] at fails
  split at fails
  · cases fails
  · cases fails
    rfl

/-- Two types of one name, of which the second is rejected, and a type with two methods of
one identity. -/
theorem offered_consistent_hidden :
    let point := TypeDecl.ofClass "Point"
    let shape := ((TypeDecl.ofInterface "Shape").addMethod "area" [] .int).addMethod "area" [] .void
    let decls := [point.addConstructor [], point, shape]
    (∀ decl ∈ decls, decl.Built) ∧
      (let index := offered true decls
      index.Consistent ∧
        (∀ decl error after, register decl index = .error error after → after = index) ∧
        index.Reflects (.offered true decls)) := by
  intro point shape decls
  have built : ∀ decl ∈ decls, decl.Built := by
    have shapeBuilt : shape.Built := .addMethod _ _ _ _ (.addMethod _ _ _ _ (.ofInterface "Shape"))
    simpa [decls] using ⟨.addConstructor [] (.ofClass "Point"), .ofClass "Point", shapeBuilt⟩
  exact ⟨built, offered_consistent true decls built⟩

end TypeIndex

end CallCode
