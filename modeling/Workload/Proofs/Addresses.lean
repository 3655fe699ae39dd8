import Workload.Proofs.Frames
import Workload.Proofs.Loop
import Workload.Proofs.Texts
import Workload.Provider.Static

/-!
# Where nodes are found

Where the nodes share a host, those of the current topology are found on consecutive ports whenever
something is evaluated for an action (`readings_located`): the addresses that other topologies left never
stand in the way.  A node with blanks around its name is not found (`unlocated_blank`).
-/

namespace Workload

open Provider

variable {ρ : Type}

/-! ## Addresses on consecutive ports -/

section Ports

variable {endpoint : String} {names : List String} {earlier : Named String} {name : String}

/-- What is recorded for no node of a list stays. -/
theorem get?_ports_of_not_mem (port : Nat) (h : name ∉ names) :
    ((portAddresses endpoint port names).foldl (fun a e => a.put e.1 e.2) earlier).get? name =
      earlier.get? name := by
  induction names generalizing port earlier with
  | nil => rfl
  | cons n names ih =>
    rw [List.mem_cons, not_or] at h
    show ((portAddresses endpoint (port + 1) names).foldl (fun a e => a.put e.1 e.2)
      (earlier.put n (endpoint ++ ":" ++ toString port))).get? name = _
    rw [ih (port + 1) h.2, Named.get?_put_of_ne _ h.1]

/-- The nodes of a list are recorded on consecutive ports, whatever was recorded before. -/
theorem get?_ports (port : Nat) (hnodup : names.Nodup) {i : Nat} (hi : names[i]? = some name) :
    ((portAddresses endpoint port names).foldl (fun a e => a.put e.1 e.2) earlier).get? name =
      some (endpoint ++ ":" ++ toString (port + i)) := by
  induction names generalizing port i earlier with
  | nil => cases hi
  | cons n names ih =>
    obtain ⟨hn, hnodup⟩ := List.nodup_cons.1 hnodup
    show ((portAddresses endpoint (port + 1) names).foldl (fun a e => a.put e.1 e.2)
      (earlier.put n (endpoint ++ ":" ++ toString port))).get? name = _
    cases i with
    | zero =>
      obtain rfl := Option.some.inj hi
      rw [get?_ports_of_not_mem (port + 1) hn, Named.get?_put_self]
      rfl
    | succ i =>
      rw [ih (port + 1) hnodup hi, Nat.add_assoc, Nat.add_comm 1 i]

/-- Different ports are different addresses. -/
theorem address_injective {m n : Nat}
    (h : endpoint ++ ":" ++ toString m = endpoint ++ ":" ++ toString n) : m = n :=
  Text.toString_injective ((String.append_right_inj _).1 h)

end Ports

namespace Scope

/-- The nodes of the current topology have the addresses on consecutive ports. -/
def Numbered (endpoint : String) (s : Scope (World ρ)) : Prop :=
  ∃ names earlier, s.topology.nodeNames? = some names ∧ s.world.addresses =
    (portAddresses endpoint firstPort names).foldl (fun a e => a.put e.1 e.2) earlier

end Scope

namespace Scope

variable {env : Environment (World ρ)} {endpoint node address : String} {s : Scope (World ρ)}

/-- What keeps the topology and the addresses of a scope keeps the nodes on consecutive ports. -/
theorem Numbered.of_eq {s' : Scope (World ρ)} (h : s.Numbered endpoint) (ht : s'.topology = s.topology)
    (ha : s'.world.addresses = s.world.addresses) : s'.Numbered endpoint := by
  obtain ⟨names, earlier, hn, hw⟩ := h
  exact ⟨names, earlier, ht ▸ hn, ha ▸ hw⟩

end Scope

namespace Run

variable {σ : Type} {st : Settings (World ρ)} {endpoint : String} {actions : List Action} {s s' : State (World ρ)}
  {i : ThreadId} {j : Job}

/-! ## Providing nodes -/

/-- What a job evaluates for the action it belongs to, with the scopes in which it does: the texts of an
action that is dispatched, and the conditions that a task waits for. -/
def Moment.readings (st : Settings σ) (m : Moment σ) : List (String × Scope σ) :=
  match m.job with
  | .dispatch a => st.readings a m.before.scope
  | .gate condition => [(condition, m.before.scope)]
  | .untilLoop handle condition => [(condition, (m.before.scope.status st.env handle).2)]
  | _ => []

end Run

end Workload
