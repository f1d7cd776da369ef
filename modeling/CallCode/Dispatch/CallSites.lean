import CallCode.Error
import CallCode.Machine.CallFlags

/-!
# Call sites

Every cached call has a slot in a table of its class, which the runtime fills
with what the call reached.  How slots are handed out is left to an allocator.
-/

namespace CallCode

/-- A call that has a slot. -/
structure CallSite where
  name : String
  flags : CallFlags
  deriving DecidableEq, Repr

/-- The calls with a slot, in the order of their slots. -/
structure SiteTable where
  sites : Array CallSite := #[]
  deriving Repr

/-- How a slot is found for a call. -/
abbrev SiteAllocator := CallSite → EStateM LoweringError SiteTable UInt16

namespace SiteTable

def count (table : SiteTable) : Nat := table.sites.size

/-- The call of a slot. -/
def site? (table : SiteTable) (slot : UInt16) : Option CallSite :=
  table.sites[slot.toNat]?

/-- The names of the calls in the order of their slots. -/
def names (table : SiteTable) : List String :=
  table.sites.toList.map (·.name)

/-- Give every call the next slot, as long as its number fits an operand. -/
def allocate : SiteAllocator := fun site table =>
  if table.count < 65536 then
    .ok table.count.toUInt16 ⟨table.sites.push site⟩
  else .error (.internal .siteTableFull) table

/-- Give out at most `limit` slots, and let equal calls share one if `shared`. -/
def allocateBounded (limit : Nat) (shared : Bool) : SiteAllocator :=
  fun site table =>
    match if shared then table.sites.idxOf? site else none with
    | some slot => .ok slot.toUInt16 table
    | none =>
        if limit ≤ table.count then .error (.internal .sitesExhausted) table
        else allocate site table

end SiteTable

end CallCode
