import Mathlib.Data.List.Basic
import Workload.Provider.Static

/-!
# Hosts by position

The nodes of a topology get the hosts of a file by their positions, whatever was provided before.  A node beyond
the last host is not unknown, though, if an earlier call gave it a host: it keeps that one, which can be the host
of another node by now (`hosts_assigned`).
-/

namespace Workload.Provider

variable {ρ : Type} {name : String}

/-- A topology that is provided, with the files that are there at that time. -/
structure Provision where
  topology : Topology
  files : Files

namespace Provision

def nodes (c : Provision) : List String := c.topology.nodeNames?.getD []

/-- The hosts in the host file. -/
def hosts (name : String) (c : Provision) : List String :=
  (readHosts (Path.join hostFileDirectory name) c.files).toOption.getD []

/-- The nodes that get a host, each with it. -/
def pairs (name : String) (c : Provision) : List (String × String) := c.nodes.zip (c.hosts name)

theorem map_fst_pairs (c : Provision) : (c.pairs name).map Prod.fst = c.nodes.take (c.hosts name).length := by
  unfold pairs
  rw [List.zip_eq_zip_take_min, List.map_fst_zip (by simp), List.take_eq_take_iff]
  omega

/-- Of different nodes the one at a place is only paired with the host at that place. -/
theorem find?_pairs {c : Provision} (hnodes : c.nodes.Nodup) {i : Nat} {node : String}
    (hi : c.nodes[i]? = some node) :
    ((c.pairs name).reverse.find? fun e => e.1 = node).map Prod.snd = (c.hosts name)[i]? := by
  rcases hfind : (c.pairs name).reverse.find? fun e => e.1 = node with _ | e
  · rw [hfind]
    rcases hhost : (c.hosts name)[i]? with _ | host
    · rfl
    · have hmem : (node, host) ∈ c.pairs name :=
        List.mem_of_getElem? (List.getElem?_zip_eq_some.2 ⟨hi, hhost⟩)
      simpa using List.find?_eq_none.1 hfind _ (List.mem_reverse.2 hmem)
  · obtain ⟨j, hj⟩ := List.mem_iff_getElem?.1 (List.mem_reverse.1 (List.mem_of_find?_eq_some hfind))
    obtain ⟨hnode, hhost⟩ := List.getElem?_zip_eq_some.1 hj
    have hname : e.1 = node := by simpa using List.find?_some hfind
    rw [hname, ← hi] at hnode
    rw [hfind, (List.getElem?_inj (List.getElem?_eq_some_iff.1 hi).1 hnodes).1 hnode.symm]
    exact hhost.symm

end Provision

/-- The worlds to which successful calls lead from one where no node is known.  Between two calls everything but
the addresses can change. -/
inductive Provided (name : String) : List Provision → World ρ → Prop
  | nothing {w} : w.addresses = [] → Provided name [] w
  | next {cs w w' t} : Provided name cs w → w'.addresses = w.addresses → ((file name).provide t w').1 = .done () →
      Provided name (cs ++ [⟨t, w'.files⟩]) ((file name).provide t w').2

/-- The host that a node was given last. -/
def lastHost? (name : String) (cs : List Provision) (node : String) : Option String :=
  ((cs.flatMap (Provision.pairs name)).reverse.find? fun e => e.1 = node).map Prod.snd

/-- What is told of a node with such a host. -/
def told (node : String) : Option String → Reply ProviderFault String
  | some host => .done host
  | none => .failed (.unknownNode node)

theorem told_injective (node : String) {h h' : Option String} (heq : told node h = told node h') : h = h' := by
  rcases h with _ | h <;> rcases h' with _ | h' <;> simp_all [told, Reply.done, Reply.failed]

theorem provide_done_iff {t : Topology} {w : World ρ} :
    ((file name).provide t w).1 = .done () ↔
      (readHosts (Path.join hostFileDirectory name) w.files).isOk = true ∧ t.nodeNames?.isSome = true := by
  unfold file
  dsimp only
  rcases readHosts (Path.join hostFileDirectory name) w.files with fault | hosts <;>
    rcases t.nodeNames? with _ | names <;>
      simp [Reply.done, Reply.failed, Reply.impossible, Except.isOk, Except.toBool]

/-- A call that succeeds records the hosts of its nodes. -/
theorem provide_done {t : Topology} {w : World ρ} (h : ((file name).provide t w).1 = .done ()) :
    ((file name).provide t w).2 = w.address (Provision.pairs name ⟨t, w.files⟩) := by
  obtain ⟨hread, hlist⟩ := provide_done_iff.1 h
  unfold file Provision.pairs Provision.nodes Provision.hosts
  rcases hhosts : readHosts (Path.join hostFileDirectory name) w.files with fault | hosts
  · simp [hhosts, Except.isOk, Except.toBool] at hread
  · obtain ⟨names, hnames⟩ := Option.isSome_iff_exists.1 hlist
    simp [hhosts, hnames, Except.toOption]

variable {cs : List Provision} {c : Provision} {w : World ρ}

theorem addresses_of_provided (h : Provided name cs w) :
    w.addresses = (cs.flatMap (Provision.pairs name)).foldl (fun (a : Named String) e => a.put e.1 e.2) [] := by
  induction h with
  | nothing hw => exact hw
  | next _ hsame hdone ih =>
    rw [provide_done hdone, List.flatMap_append, List.foldl_append, ← ih, ← hsame]
    simp [World.address]

theorem host_of_provided (h : Provided name cs w) (node : String) :
    ((file name).host node w).1 = told node (lastHost? name cs node) := by
  have hget : w.addresses.get? node = lastHost? name cs node := by
    rw [addresses_of_provided h, Named.get?_foldl_put]
    simp [lastHost?, Named.get?]
  show (recorded node w).1 = _
  unfold recorded
  rw [hget]
  rcases lastHost? name cs node with _ | host <;> rfl

/-- A node has no host yet just if no call gave it one. -/
theorem lastHost?_eq_none_iff {node : String} :
    lastHost? name cs node = none ↔ ∀ d ∈ cs, node ∉ d.nodes.take (d.hosts name).length := by
  simp only [lastHost?, Option.map_eq_none_iff, List.find?_eq_none, List.mem_reverse, List.mem_flatMap,
    ← Provision.map_fst_pairs, List.mem_map, decide_eq_true_eq]
  refine ⟨fun h d hd ⟨e, he, hn⟩ => h e ⟨d, hd, he⟩ hn, fun h e ⟨d, hd, he⟩ hn => h d hd ⟨e, he, hn⟩⟩

/-- The node at a place gets the host at that place, and keeps the one it had where there is none. -/
theorem lastHost?_concat (hnodes : c.nodes.Nodup) {i : Nat} {node : String} (hi : c.nodes[i]? = some node) :
    lastHost? name (cs ++ [c]) node = (c.hosts name)[i]?.or (lastHost? name cs node) := by
  unfold lastHost?
  rw [List.flatMap_append, List.reverse_append, List.find?_append, Option.map_or, List.flatMap_singleton,
    Provision.find?_pairs hnodes hi]

/-- Every node has just the host at its place, if there is one. -/
def ByPosition (name : String) (c : Provision) (w : World ρ) : Prop :=
  ∀ (i : Nat) node, c.nodes[i]? = some node → ((file name).host node w).1 = told node (c.hosts name)[i]?

/-- After every call each node of the topology has the host at its place, and one beyond the last host that which
it was given before.  So the hosts are those by position just if no node beyond the last one was given a host
before, and then no two nodes share one. -/
theorem hosts_assigned (h : Provided name (cs ++ [c]) w) (hnodes : c.nodes.Nodup) :
    (∀ (i : Nat) node, c.nodes[i]? = some node →
        ((file name).host node w).1 = told node ((c.hosts name)[i]?.or (lastHost? name cs node))) ∧
      (ByPosition name c w ↔ ∀ node ∈ c.nodes.drop (c.hosts name).length, ∀ d ∈ cs,
        node ∉ d.nodes.take (d.hosts name).length) ∧
      ((c.hosts name).Nodup → ByPosition name c w → ∀ m ∈ c.nodes, ∀ n ∈ c.nodes, ∀ host,
        ((file name).host m w).1 = .done host → ((file name).host n w).1 = .done host → m = n) := by
  have hhost : ∀ (i : Nat) node, c.nodes[i]? = some node →
      ((file name).host node w).1 = told node ((c.hosts name)[i]?.or (lastHost? name cs node)) :=
    fun i node hi => by rw [host_of_provided h, lastHost?_concat hnodes hi]
  refine ⟨hhost, ⟨fun hpos node hnode => ?_, fun hnone i node hi => ?_⟩, fun hhosts hpos m hm n hn host hmh hnh => ?_⟩
  · obtain ⟨i, hi⟩ := List.mem_iff_getElem?.1 hnode
    rw [List.getElem?_drop] at hi
    have heq := told_injective node ((hpos _ node hi).symm.trans (hhost _ node hi))
    rw [List.getElem?_eq_none (Nat.le_add_right _ i), Option.none_or] at heq
    exact lastHost?_eq_none_iff.1 heq.symm
  · rw [hhost i node hi]
    rcases hlast : (c.hosts name)[i]? with _ | host
    · have hmem : node ∈ c.nodes.drop (c.hosts name).length := by
        refine List.mem_iff_getElem?.2 ⟨i - (c.hosts name).length, ?_⟩
        rw [List.getElem?_drop, Nat.add_sub_cancel' (List.getElem?_eq_none_iff.1 hlast), hi]
      rw [lastHost?_eq_none_iff.2 (hnone node hmem), Option.none_or]
    · rw [Option.some_or]
  · obtain ⟨i, hi⟩ := List.mem_iff_getElem?.1 hm
    obtain ⟨j, hj⟩ := List.mem_iff_getElem?.1 hn
    rw [hpos i m hi] at hmh
    rw [hpos j n hj] at hnh
    have hi' : (c.hosts name)[i]? = some host := told_injective m hmh
    have hj' : (c.hosts name)[j]? = some host := told_injective n hnh
    obtain rfl := (List.getElem?_inj (List.getElem?_eq_some_iff.1 hi').1 hhosts).1 (hi'.trans hj'.symm)
    exact Option.some_inj.1 (hi.symm.trans hj)

section Examples

/-- A group of one node for each name. -/
def singles (names : List String) : Topology := { servers := names.map fun n => { name := n } }

def hostFile (text : String) : Files := { entries := [(["providers", "file", "hosts.yml"], .text text)] }

/-- The world after two topologies with the same host file, from one where no node is known. -/
def afterTwo (first second : List String) (text : String) : World Unit :=
  let start : World Unit := { containers := (), files := hostFile text }
  let between := { ((file "hosts.yml").provide (singles first) start).2 with files := hostFile text }
  ((file "hosts.yml").provide (singles second) between).2

theorem provided_afterTwo (first second : List String) (text : String)
    (hread : (readHosts (Path.join hostFileDirectory "hosts.yml") (hostFile text)).isOk = true)
    (hfirst : (singles first).nodeNames?.isSome = true) (hsecond : (singles second).nodeNames?.isSome = true) :
    Provided "hosts.yml" ([⟨singles first, hostFile text⟩] ++ [⟨singles second, hostFile text⟩])
      (afterTwo first second text) := by
  refine @Provided.next _ _ [_] _ ⟨_, _, hostFile text⟩ _
    (@Provided.next _ _ [] _ ⟨(), _, hostFile text⟩ _ (.nothing rfl) rfl ?_) rfl ?_
  · exact provide_done_iff.2 ⟨hread, hfirst⟩
  · exact provide_done_iff.2 ⟨hread, hsecond⟩

/-- A node that was given a host before gets that at its new place. -/
theorem hosts_assigned_rearranged :
    ByPosition "hosts.yml" ⟨singles ["b", "a", "c"], hostFile "\"10.0.0.1 10.0.0.2\"\n"⟩
      (afterTwo ["a"] ["b", "a", "c"] "\"10.0.0.1 10.0.0.2\"\n") :=
  (hosts_assigned (provided_afterTwo ["a"] ["b", "a", "c"] "\"10.0.0.1 10.0.0.2\"\n" (by decide +kernel)
    (by decide +kernel) (by decide +kernel)) (by decide +kernel)).2.1.2 (by decide +kernel)

/-- A node that is beyond the last host now keeps the one that another node has got. -/
theorem hosts_shared :
    Provided "hosts.yml" ([⟨singles ["a"], hostFile "\"10.0.0.1\"\n"⟩] ++
        [⟨singles ["b", "a"], hostFile "\"10.0.0.1\"\n"⟩]) (afterTwo ["a"] ["b", "a"] "\"10.0.0.1\"\n") ∧
      ((file "hosts.yml").host "b1" (afterTwo ["a"] ["b", "a"] "\"10.0.0.1\"\n")).1 = .done "10.0.0.1" ∧
      ((file "hosts.yml").host "a1" (afterTwo ["a"] ["b", "a"] "\"10.0.0.1\"\n")).1 = .done "10.0.0.1" := by
  have h := provided_afterTwo ["a"] ["b", "a"] "\"10.0.0.1\"\n" (by decide +kernel) (by decide +kernel)
    (by decide +kernel)
  have hhost : ∀ node, lastHost? "hosts.yml" ([⟨singles ["a"], hostFile "\"10.0.0.1\"\n"⟩] ++
      [⟨singles ["b", "a"], hostFile "\"10.0.0.1\"\n"⟩]) node = some "10.0.0.1" →
      ((file "hosts.yml").host node (afterTwo ["a"] ["b", "a"] "\"10.0.0.1\"\n")).1 = .done "10.0.0.1" :=
    fun node hlast => by rw [host_of_provided h, hlast]; rfl
  exact ⟨h, hhost "b1" (by decide +kernel), hhost "a1" (by decide +kernel)⟩

end Examples

end Workload.Provider
