import Mathlib.Algebra.Ring.Int.Defs
import Workload.Proofs.Addresses
import Workload.Proofs.Comparisons
import Workload.Proofs.Counts
import Workload.Proofs.Deltas

/-!
# Nodes under one name

The number of a node goes into the name of its group with nothing in between, so nodes of two groups can have the
same name.  They do exactly if one group has a node and is itself called like a node of the other one, by ten times
whose number the other one has more nodes (`ServerGroup.disjoint_nodeNames_iff`): `n11` is the first node of `n1`
and the eleventh one of `n`.  Where no two groups are in each other's way like this, every node has a name of its
own, and whoever notes something about each node by its name loses nothing (`Topology.nodes_distinct_iff`).
-/

namespace Workload

/-! ## Digits in front of a number -/

namespace Text

/-- The digits in front of the last ones of a number are those of a number that is no more than a tenth. -/
theorem front_of_toDigits {d : List Char} (hd : d ≠ []) (x : List Char) :
    ∀ {m : Nat}, 0 < m → Nat.toDigits 10 m = d ++ x →
      ∃ e, 0 < e ∧ d = Nat.toDigits 10 e ∧ (x = [] ∧ e = m ∨ 10 * e ≤ m ∧ (10 * e = m → x = ['0'])) := by
  induction x using List.reverseRecOn with
  | nil =>
    intro m hm h
    rw [List.append_nil] at h
    exact ⟨m, hm, h.symm, .inl ⟨rfl, rfl⟩⟩
  | append_singleton x c ih =>
    intro m hm h
    have hten : 10 ≤ m := by
      by_contra hlt
      rw [Nat.toDigits_of_lt_base (Nat.lt_of_not_le hlt)] at h
      have hlength := congrArg List.length h
      have hpos := List.length_pos_of_ne_nil hd
      simp only [List.length_append, List.length_singleton] at hlength
      omega
    rw [Nat.toDigits_of_base_le (by decide) hten, ← List.append_assoc] at h
    obtain ⟨hfront, hlast⟩ := List.append_inj' h rfl
    obtain rfl := List.singleton_inj.1 hlast
    obtain ⟨e, he, hde, hx⟩ := ih (by omega) hfront
    refine ⟨e, he, hde, .inr ?_⟩
    rcases hx with ⟨rfl, rfl⟩ | ⟨hle, -⟩
    · refine ⟨by omega, fun heq => ?_⟩
      rw [show m % 10 = 0 by omega]
      rfl
    · exact ⟨by omega, fun heq => by omega⟩

/-- A number behind other digits makes up a number of which these are less than a tenth. -/
theorem eq_toDigits_of_append {m n : Nat} {d : List Char} (hm : 0 < m) (hn : 0 < n) (hd : d ≠ [])
    (h : Nat.toDigits 10 m = d ++ Nat.toDigits 10 n) : ∃ e, 0 < e ∧ d = Nat.toDigits 10 e ∧ 10 * e < m := by
  obtain ⟨e, he, hde, ⟨hnil, -⟩ | ⟨hle, hzero⟩⟩ := front_of_toDigits hd _ hm h
  · exact absurd hnil Nat.toDigits_ne_nil
  · refine ⟨e, he, hde, lt_of_le_of_ne hle fun heq => head?_toDigits hn ?_⟩
    rw [hzero heq]
    rfl

/-- Behind what holds no dot the first dot is found again. -/
theorem append_dotted_inj {x x' y y' : List Char} (hx : '.' ∉ x) (hx' : '.' ∉ x') (hy : ∀ c ∈ y.head?, c = '.')
    (hy' : ∀ c ∈ y'.head?, c = '.') (h : x ++ y = x' ++ y') : x = x' ∧ y = y' := by
  rcases List.append_eq_append_iff.1 h with ⟨z, rfl, rfl⟩ | ⟨z, rfl, rfl⟩
  · rcases z with _ | ⟨c, z⟩
    · simp
    · exact absurd (hy c rfl ▸ by simp) hx'
  · rcases z with _ | ⟨c, z⟩
    · simp
    · exact absurd (hy' c rfl ▸ by simp) hx

end Text

/-! ## Names of nodes -/

namespace ServerGroup

/-- A name is made up of what stands in front of its first dot and what stands from there on. -/
structure Parts (name : String) (host domain : List Char) : Prop where
  toList : name.toList = host ++ domain
  host : '.' ∉ host
  domain : ∀ c ∈ domain.head?, c = '.'

theorem exists_parts (name : String) : ∃ host domain, Parts name host domain := by
  refine ⟨name.toList.takeWhile (· != '.'), name.toList.dropWhile (· != '.'),
    List.takeWhile_append_dropWhile.symm, fun hmem => ?_, fun c hc => ?_⟩
  · simpa using List.mem_takeWhile_imp hmem
  · have := List.head?_dropWhile_not (· != '.') name.toList
    rw [hc] at this
    simpa using this

/-- The number of a node stands behind the host. -/
theorem Parts.nodeName {name : String} {host domain : List Char} (h : Parts name host domain) (n : Nat) :
    Parts (nodeName name n) (host ++ Nat.toDigits 10 n) domain := by
  have hnumber : (toString (n : Int)).toList = Nat.toDigits 10 n := Nat.toList_repr
  refine ⟨?_, fun hmem => ?_, h.domain⟩
  · unfold ServerGroup.nodeName Text.cut?
    rw [h.toList]
    rcases domain with _ | ⟨c, domain⟩
    · have hnone : Text.cutAt ['.'] (host ++ []) = none := by
        rw [List.append_nil]
        exact Text.cutAt_of_not_mem h.host
      have hcut : Text.cutAt ".".toList (host ++ []) = none := hnone
      rw [hcut]
      show (name ++ toString (n : Int)).toList = _
      rw [String.toList_append, h.toList, hnumber, List.append_nil, List.append_nil]
    · obtain rfl := h.domain c rfl
      have hcut : Text.cutAt ".".toList (host ++ '.' :: domain) = some (host, domain) :=
        Text.cutAt_append h.host domain
      rw [hcut]
      show (String.ofList host ++ toString (n : Int) ++ "." ++ String.ofList domain).toList = _
      simp only [String.toList_append, String.toList_ofList, hnumber, List.append_assoc]
      rfl
  · rcases List.mem_append.1 hmem with hmem | hmem
    · exact h.host hmem
    · exact absurd (Text.isDigit_of_mem_toDigits hmem) (by decide)

theorem Parts.unique {name : String} {host host' domain domain' : List Char} (h : Parts name host domain)
    (h' : Parts name host' domain') : host = host' ∧ domain = domain' :=
  Text.append_dotted_inj h.host h'.host h.domain h'.domain (h.toList.symm.trans h'.toList)

theorem Parts.eq {name name' : String} {host domain : List Char} (h : Parts name host domain)
    (h' : Parts name' host domain) : name = name' :=
  String.toList_inj.1 (h.toList.trans h'.toList.symm)

/-- A node of a group that is called like a node of another group has a name of this one, too. -/
theorem nodeName_nodeName (name : String) {d : Nat} (hd : 0 < d) :
    nodeName (nodeName name d) (1 : Nat) = nodeName name ((10 * d + 1 : Nat) : Int) := by
  obtain ⟨host, domain, h⟩ := exists_parts name
  have hdigits : Nat.toDigits 10 d ++ Nat.toDigits 10 1 = Nat.toDigits 10 (10 * d + 1) :=
    Nat.toDigits_append_toDigits (by decide) hd (by decide)
  have hnode := (h.nodeName d).nodeName 1
  rw [List.append_assoc, hdigits] at hnode
  exact hnode.eq (h.nodeName (10 * d + 1))

/-- Where the number of a node begins with more digits than that of another node of the same name, the other group is
called like a node of the first one, of less than a tenth of the number. -/
theorem Parts.named_of_toDigits {a b : String} {host domain z : List Char} {m n : Nat} (ha : Parts a host domain)
    (hb : Parts b (host ++ z) domain) (hab : a ≠ b) (hm : 0 < m) (hn : 0 < n)
    (hz : Nat.toDigits 10 m = z ++ Nat.toDigits 10 n) :
    ∃ d : Nat, 0 < d ∧ 10 * d < m ∧ b = ServerGroup.nodeName a d := by
  have hne : z ≠ [] := by
    rintro rfl
    rw [List.append_nil] at hb
    exact hab (ha.eq hb)
  obtain ⟨d, hd, rfl, hlt⟩ := Text.eq_toDigits_of_append hm hn hne hz
  exact ⟨d, hd, hlt, hb.eq (ha.nodeName d)⟩

/-- Of two groups with nodes of the same name one is called like a node of the other, of less than a tenth of the
number. -/
theorem named_of_nodeName_eq {a b : String} {m n : Nat} (hab : a ≠ b) (hm : 0 < m) (hn : 0 < n)
    (h : nodeName a m = nodeName b n) :
    (∃ d : Nat, 0 < d ∧ 10 * d < m ∧ b = nodeName a d) ∨ ∃ d : Nat, 0 < d ∧ 10 * d < n ∧ a = nodeName b d := by
  obtain ⟨host, domain, ha⟩ := exists_parts a
  obtain ⟨host', domain', hb⟩ := exists_parts b
  obtain ⟨hhosts, rfl⟩ := (ha.nodeName m).unique (h ▸ hb.nodeName n)
  rcases List.append_eq_append_iff.1 hhosts with ⟨z, rfl, hnumber⟩ | ⟨z, rfl, hnumber⟩
  · exact .inl (ha.named_of_toDigits hb hab hm hn hnumber)
  · exact .inr (hb.named_of_toDigits ha hab.symm hn hm hnumber)

/-- The second group has a node, and is called like a node of the first one, by ten times whose number this one has
more nodes. -/
def Clashes (a b : ServerGroup) : Prop :=
  0 < b.count ∧ ∃ d : Nat, 0 < d ∧ 10 * (d : Int) < a.count ∧ b.name = nodeName a.name d

instance (a b : ServerGroup) : Decidable (a.Clashes b) :=
  decidable_of_iff (0 < b.count ∧ ∃ d ∈ List.range a.count.toNat, 0 < d ∧ 10 * (d : Int) < a.count ∧
      b.name = nodeName a.name d) <| by
    refine and_congr_right fun _ => exists_congr fun d => ?_
    rw [List.mem_range]
    exact ⟨fun h => h.2, fun h => ⟨by omega, h⟩⟩

theorem not_clashes_self (a : ServerGroup) : ¬a.Clashes a := by
  rintro ⟨-, d, -, -, hname⟩
  obtain ⟨host, domain, h⟩ := exists_parts a.name
  have hnode := h.nodeName d
  rw [← hname] at hnode
  exact Nat.toDigits_ne_nil (List.self_eq_append_right.1 (h.unique hnode).1)

/-- The first node of a group that is called like a node of another one is a node of that one, too. -/
theorem Clashes.not_disjoint {a b : ServerGroup} (ha : a.offset = 0) (hb : b.offset = 0) (h : a.Clashes b) :
    ¬a.nodeNames.Disjoint b.nodeNames := by
  obtain ⟨hcount, d, hd, hlt, hname⟩ := h
  intro hdisjoint
  refine hdisjoint ((mem_nodeNames ha).2 ⟨10 * d, by exact_mod_cast hlt, ?_⟩) ((mem_nodeNames hb).2 ⟨0, hcount, rfl⟩)
  rw [hname]
  exact nodeName_nodeName a.name hd

/-- Groups of different names have nodes of one name exactly if one of them is called like a node of the other. -/
theorem disjoint_nodeNames_iff {a b : ServerGroup} (ha : a.offset = 0) (hb : b.offset = 0) (hab : a.name ≠ b.name) :
    a.nodeNames.Disjoint b.nodeNames ↔ ¬a.Clashes b ∧ ¬b.Clashes a := by
  refine ⟨fun h => ⟨fun hc => hc.not_disjoint ha hb h, fun hc => hc.not_disjoint hb ha fun _ hx hx' => h hx' hx⟩, ?_⟩
  rintro ⟨hnot, hnot'⟩ x hx hx'
  obtain ⟨m, hm, rfl⟩ := (mem_nodeNames ha).1 hx
  obtain ⟨n, hn, heq⟩ := (mem_nodeNames hb).1 hx'
  have hnames : nodeName a.name ((m + 1 : Nat) : Int) = nodeName b.name ((n + 1 : Nat) : Int) := heq
  rcases named_of_nodeName_eq hab m.succ_pos n.succ_pos hnames with ⟨d, hd, hlt, hname⟩ | ⟨d, hd, hlt, hname⟩
  · exact hnot ⟨by omega, d, hd, by omega, hname⟩
  · exact hnot' ⟨by omega, d, hd, by omega, hname⟩

end ServerGroup

/-! ## What is noted of nodes -/

/-- Where every entry has a name of its own, each of them stands. -/
theorem Named.get?_foldl_put_of_nodup {α : Type} (entries : Named α) {es : Named α}
    (hnodup : (es.map Prod.fst).Nodup) {e : String × α} (he : e ∈ es) :
    (es.foldl (fun entries e => entries.put e.1 e.2) entries).get? e.1 = some e.2 := by
  have hfound : es.reverse.find? (fun f => f.1 = e.1) = some e := by
    cases hf : es.reverse.find? fun f => f.1 = e.1 with
    | none => simpa using List.find?_eq_none.1 hf e (List.mem_reverse.2 he)
    | some f =>
      have hname : f.1 = e.1 := by simpa using List.find?_some hf
      have hmem := List.mem_reverse.1 (List.mem_of_find?_eq_some hf)
      rw [List.inj_on_of_nodup_map hnodup hmem he hname]
  rw [Named.get?_foldl_put, hfound]
  rfl

/-- Where each of the nodes of a list is found on the port of its place, every one has a name of its own. -/
theorem nodup_of_get?_ports {endpoint : String} {names : List String} {port : Nat} {found : Named String}
    (h : ∀ (i : Nat) (name : String), names[i]? = some name →
      found.get? name = some (endpoint ++ ":" ++ toString (port + i))) : names.Nodup := by
  rw [List.nodup_iff_getElem?_ne_getElem?]
  intro i j hij hj heq
  have hi := List.getElem?_eq_getElem hj ▸ heq
  have hports := (h i _ hi).symm.trans (h j _ (List.getElem?_eq_getElem hj))
  have := address_injective (Option.some.inj hports)
  omega

theorem Provider.recorded_done_iff {ρ : Type} {name address : String} {w : World ρ} :
    (recorded name w).1 = .done address ↔ w.addresses.get? name = some address := by
  unfold recorded
  cases w.addresses.get? name <;> simp [Reply.done, Reply.failed]

namespace Topology

variable {t : Topology}

/-- There are as many nodes as the groups say. -/
theorem length_nodeNames (hcounts : ∀ g ∈ t.servers, 0 ≤ g.count) :
    (t.nodeNames.length : Int) = (t.servers.map ServerGroup.count).sum := by
  unfold nodeNames
  generalize t.servers = gs at hcounts
  induction gs with
  | nil => rfl
  | cons g gs ih =>
    have hg := hcounts g List.mem_cons_self
    have hlength : g.nodeNames.length = g.count.toNat := by
      unfold ServerGroup.nodeNames ServerGroup.numbers
      simp
    rw [List.flatMap_cons, List.length_append, List.map_cons, List.sum_cons, hlength, Int.natCast_add,
      ih fun g' hg' => hcounts g' (List.mem_cons_of_mem g hg')]
    omega

/-- The nodes of a topology as documents have it can be listed where none of its groups is too large for that. -/
theorem nodeNames?_eq_some_iff (ht : t.Bounded) :
    t.nodeNames? = some t.nodeNames ↔ ∀ g ∈ t.servers, g.count ≤ (maxListed : Int) := by
  have hlimit : (maxListed : Int) ≤ (Nat.pow 2 63 : Int) - 2 := by decide
  have hrange : ∀ g ∈ t.servers, (g.inRange = true ↔ g.count ≤ (maxListed : Int)) := by
    intro g hg
    have hcount := (ht.counts g hg).1
    unfold ServerGroup.inRange isWhole
    rw [ht.offsets g hg]
    simp only [Bool.and_eq_true, decide_eq_true_eq]
    omega
  have hsome : t.nodeNames? = some t.nodeNames ↔ t.nodeNames?.isSome = true := by
    unfold nodeNames?
    split_ifs <;> simp
  rw [hsome, nodeNames?_isSome_iff]
  exact forall₂_congr hrange

/-- The nodes of a topology have names of their own exactly if no two of its groups are in each other's way. -/
theorem nodup_nodeNames_iff (hoffsets : ∀ g ∈ t.servers, g.offset = 0)
    (hnames : (t.servers.map ServerGroup.name).Nodup) :
    t.nodeNames.Nodup ↔ ∀ a ∈ t.servers, ∀ b ∈ t.servers, ¬a.Clashes b := by
  have hdiffer : t.servers.Pairwise fun a b => a.name ≠ b.name := List.pairwise_map.1 hnames
  unfold nodeNames
  rw [List.nodup_flatMap, and_iff_right fun g hg => ServerGroup.nodup_nodeNames (hoffsets g hg)]
  constructor
  · intro h a ha b hb
    have hapart : t.servers.Pairwise fun a b => ¬a.Clashes b ∧ ¬b.Clashes a :=
      (hdiffer.and h).imp_of_mem fun ha hb ⟨hab, hdisjoint⟩ =>
        (ServerGroup.disjoint_nodeNames_iff (hoffsets _ ha) (hoffsets _ hb) hab).1 hdisjoint
    have : Std.Symm fun a b : ServerGroup => ¬a.Clashes b ∧ ¬b.Clashes a := ⟨fun _ _ => And.symm⟩
    by_cases hab : a = b
    · exact hab ▸ ServerGroup.not_clashes_self a
    · exact (hapart.forall ha hb hab).1
  · intro h
    exact hdiffer.imp_of_mem fun ha hb hab =>
      (ServerGroup.disjoint_nodeNames_iff (hoffsets _ ha) (hoffsets _ hb) hab).2 ⟨h _ ha _ hb, h _ hb _ ha⟩

/-- Groups of different names have as many nodes as they say, which can be listed where no group is too large for
that, and have names of their own exactly if no two of the groups are in each other's way.  Then what is recorded for
a node under its name stays, whatever was recorded before; and where nodes are found on consecutive ports, the node
at every place is found on the port of its place exactly then. -/
theorem nodes_distinct_iff {ρ : Type} (ht : t.Bounded) (hnames : (t.servers.map ServerGroup.name).Nodup) :
    (t.nodeNames.length : Int) = (t.servers.map ServerGroup.count).sum ∧
    (t.nodeNames? = some t.nodeNames ↔ ∀ g ∈ t.servers, g.count ≤ (maxListed : Int)) ∧
    (t.nodeNames.Nodup ↔ ∀ a ∈ t.servers, ∀ b ∈ t.servers, ¬a.Clashes b) ∧
    ((∀ a ∈ t.servers, ∀ b ∈ t.servers, ¬a.Clashes b) → ∀ (w : World ρ) (values : List String),
      ∀ e ∈ t.nodeNames.zip values, (w.address (t.nodeNames.zip values)).addresses.get? e.1 = some e.2) ∧
    ((∀ g ∈ t.servers, g.count ≤ (maxListed : Int)) → ∀ (endpoint : String) (w : World ρ), ∃ provided,
      (Provider.dev endpoint).provide t w = (.done (), provided) ∧
      ((∀ (i : Nat) (name : String), t.nodeNames[i]? = some name →
          ((Provider.dev endpoint).host name provided).1 =
            .done (endpoint ++ ":" ++ toString (Provider.firstPort + i))) ↔
        ∀ a ∈ t.servers, ∀ b ∈ t.servers, ¬a.Clashes b)) := by
  have hiff := nodup_nodeNames_iff ht.offsets hnames
  refine ⟨length_nodeNames fun g hg => (ht.counts g hg).1, nodeNames?_eq_some_iff ht, hiff, ?_, ?_⟩
  · intro h w values e he
    refine Named.get?_foldl_put_of_nodup w.addresses ((hiff.2 h).sublist ?_) he
    rw [List.zip_eq_zip_take_min, List.map_fst_zip (by simp)]
    exact List.take_sublist _ _
  · intro hlisted endpoint w
    refine ⟨w.address (Provider.portAddresses endpoint Provider.firstPort t.nodeNames), ?_, ?_⟩
    · simp only [Provider.dev, (nodeNames?_eq_some_iff ht).2 hlisted]
    · rw [← hiff]
      refine ⟨fun h => nodup_of_get?_ports fun i name hi => Provider.recorded_done_iff.1 (h i name hi), ?_⟩
      exact fun hnodup i name hi => Provider.recorded_done_iff.2 (get?_ports Provider.firstPort hnodup hi)

/-- As long as `n` has no more than ten nodes it is not in the way of `n1`. -/
theorem nodes_distinct_iff_tenfold :
    let t : Topology := { servers := [{ name := "n", count := 10 }, { name := "n1", count := 2 }, { name := "n.n" }] }
    t.Bounded ∧ (t.servers.map ServerGroup.name).Nodup ∧ (t.nodeNames.length : Int) = 13 ∧ t.nodeNames.Nodup ∧
      ∀ endpoint, ∃ provided : World Unit,
        (Provider.dev endpoint).provide t { containers := () } = (.done (), provided) ∧
        ((Provider.dev endpoint).host "n11" provided).1 = .done (endpoint ++ ":" ++ toString 9010) := by
  intro t
  have ht : t.Bounded := by decide
  have hnames : (t.servers.map ServerGroup.name).Nodup := by decide
  have hclear : ∀ a ∈ t.servers, ∀ b ∈ t.servers, ¬a.Clashes b := by decide +kernel
  obtain ⟨hlength, -, hnodup, -, hports⟩ := nodes_distinct_iff (ρ := Unit) ht hnames
  refine ⟨ht, hnames, hlength, hnodup.2 hclear, fun endpoint => ?_⟩
  obtain ⟨provided, hprovided, hfound⟩ := hports (by decide) endpoint { containers := () }
  exact ⟨provided, hprovided, hfound.2 hclear 10 "n11" (by decide +kernel)⟩

/-- The eleventh node of `n` is found where the first one of `n1` is. -/
theorem node_overwritten :
    let t : Topology := { servers := [{ name := "n", count := 11 }, { name := "n1" }] }
    t.Bounded ∧ (t.servers.map ServerGroup.name).Nodup ∧ (∀ g ∈ t.servers, g.name ≠ "") ∧ ¬t.nodeNames.Nodup ∧
      t.nodeNames[10]? = some "n11" ∧
      ((Provider.dev "127.0.0.1").host "n11"
        ((Provider.dev "127.0.0.1").provide t ({ containers := () } : World Unit)).2).1 = .done "127.0.0.1:9011" :=
  ⟨by decide, by decide, by decide, by decide +kernel, by decide +kernel,
    Provider.recorded_done_iff.2 (by decide +kernel)⟩

end Topology

end Workload
