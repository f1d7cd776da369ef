import CallCode.Diagnostics
import CallCode.Dispatch.CallSites
import CallCode.Dispatch.CandidateTable

/-!
# The ledger of a class

What the bodies of one class share besides their constants: the candidate tables
of the constructors they dispatch to, the names they send to `super`, and the
call sites.
-/

namespace CallCode

/-- Names in increasing order, each once. -/
def insertName (name : String) : List String → List String
  | [] => [name]
  | other :: names =>
      if name = other then other :: names
      else if name < other then name :: other :: names
      else other :: insertName name names

/-- The dispatch state of one class. -/
structure Ledger where
  classId : Identity
  tables : List CandidateTable := []
  /-- The classes whose collisions were reported. -/
  reported : List Identity := []
  /-- The names that were sent to `super` dynamically, in order. -/
  superNames : List String := []
  sites : SiteTable := {}
  allocator : SiteAllocator := SiteTable.allocate
  keyOf : KeyFunction := descriptorKey

namespace Ledger

/-- The candidate table of a class, which is built on its first use. -/
def candidateTable (types : TypeTable) (target : Identity) (position : Position) :
    EStateM LoweringError Ledger CandidateTable := fun ledger =>
  match ledger.tables.find? (·.classId == target) with
  | some table => .ok table ledger
  | none =>
      match CandidateTable.build types target position ledger.keyOf with
      | .ok table => .ok table { ledger with tables := table :: ledger.tables }
      | .error error => .error error ledger

/-- The errors of the colliding candidates of a table. -/
def collisionErrors (types : TypeTable) (table : CandidateTable)
    (position : Position) : List LoweringError :=
  table.collisions.filterMap fun collision => do
    let first ← table.candidates[collision.first]?
    let second ← table.candidates[collision.second]?
    return .keyCollision (types.typeName table.classId) first.descriptor
      second.descriptor position

/-- Report the collisions of a table that keys a switch, once for its class. -/
def reportCollisions (ledger : Ledger) (types : TypeTable)
    (table : CandidateTable) (position : Position) (diagnostics : Diagnostics) :
    Ledger × Diagnostics :=
  if table.hasCollisions && !ledger.reported.contains table.classId then
    ({ ledger with reported := table.classId :: ledger.reported },
      (collisionErrors types table position).foldl Diagnostics.report diagnostics)
  else (ledger, diagnostics)

/-- Note a name that is sent to `super` dynamically. -/
def recordSuper (ledger : Ledger) (name : String) : Ledger :=
  { ledger with superNames := insertName name ledger.superNames }

/-- Hand out the slot of a call. -/
def allocate (site : CallSite) : EStateM LoweringError Ledger UInt16 := fun ledger =>
  match ledger.allocator site ledger.sites with
  | .ok slot sites => .ok slot { ledger with sites }
  | .error error sites => .error error { ledger with sites }

/-- The ledger as a one-line dump. -/
def debugText (ledger : Ledger) : String :=
  let names := ledger.superNames.map fun name => "\"" ++ name ++ "\""
  "ClassLowering \x7b class: " ++ ledger.classId.debugText ++
    ", constructor_tables: " ++ toString ledger.tables.length ++
    ", super_method_names: \x7b" ++ String.intercalate ", " names ++
    "\x7d, call_sites: " ++ toString ledger.sites.count ++ " \x7d"

end Ledger

end CallCode
