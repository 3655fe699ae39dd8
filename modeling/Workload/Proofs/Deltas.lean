import Mathlib.Data.List.Chain
import Workload.Proofs.Growth
import Workload.Proofs.Texts

/-!
# What a topology lacks of another one

Groups are compared by their place, and their nodes are known by their names.  So what a topology lacks of
another one are the nodes it has and the other one has not, exactly if of the nodes of each group those are
there that its place says (`delta_lacks_iff`), as when groups only grow (`Extends.continues`); a group under
a new name is taken for the one that stood at its place (`renamed_group_lacks_nothing`).  For topologies that
only grow what each one lacks of the one before joins up to the last one, group by group
(`growth_telescopes`), as long as the differences can be reckoned (`reckoned_growth_fails`).
-/

namespace Workload

/-! ## The nodes of a group -/

namespace ServerGroup

/-- Nodes of a group with different numbers have different names. -/
theorem nodeName_injective (name : String) {m n : Nat}
    (h : nodeName name ((m : Int) + 1) = nodeName name ((n : Int) + 1)) : m = n := by
  have hnumber : toString (m + 1) = toString (n + 1) := by
    show toString ((m : Int) + 1) = toString ((n : Int) + 1)
    unfold nodeName at h
    split at h
    · exact (String.append_right_inj _).1
        ((String.append_left_inj _).1 ((String.append_left_inj _).1 h))
    · exact (String.append_right_inj _).1 h
  exact Nat.succ.inj (Text.toString_injective hnumber)

theorem nodup_nodeNames {g : ServerGroup} (h : g.offset = 0) : g.nodeNames.Nodup := by
  rw [Topology.nodeNames_group g 0 h]
  exact List.Nodup.map (fun _ _ => nodeName_injective g.name) List.nodup_range'

theorem mem_nodeNames {g : ServerGroup} (h : g.offset = 0) {x : String} :
    x ∈ g.nodeNames ↔ ∃ k : Nat, (k : Int) < g.count ∧ x = nodeName g.name ((k : Int) + 1) := by
  rw [Topology.nodeNames_group g 0 h, List.mem_map]
  constructor
  · rintro ⟨k, hk, rfl⟩
    rw [List.mem_range'_1] at hk
    exact ⟨k, by omega, rfl⟩
  · rintro ⟨k, hk, rfl⟩
    exact ⟨k, List.mem_range'_1.2 (by omega), rfl⟩

/-- A group lacks the nodes whose numbers are beyond those that run already. -/
theorem mem_missing {t c : ServerGroup} (ht : 0 ≤ t.count) (hc : 0 ≤ c.count) {k : Nat}
    (hk : (k : Int) < t.count) :
    nodeName t.name ((k : Int) + 1) ∈ (t.missing c).nodeNames ↔ c.count ≤ k := by
  rw [Topology.nodeNames_missing t c ht hc, List.mem_map]
  constructor
  · rintro ⟨n, hn, heq⟩
    obtain rfl := nodeName_injective t.name heq
    rw [List.mem_range'_1] at hn
    omega
  · exact fun hle => ⟨k, List.mem_range'_1.2 (by omega), rfl⟩

/-- A group with fewer nodes can be listed, too. -/
theorem inRange_of_le {a b : ServerGroup} (ha : a.offset = 0) (hb : b.offset = 0) (hle : a.count ≤ b.count)
    (h : b.inRange = true) : a.inRange = true := by
  unfold inRange isWhole at h ⊢
  rw [hb] at h
  rw [ha]
  simp only [Bool.and_eq_true, decide_eq_true_eq] at h ⊢
  omega

/-- What a group lacks can be listed where the group can. -/
theorem inRange_missing {t c : ServerGroup} (h : t.inRange = true) (ht : 0 ≤ t.count) (ho : t.offset = 0)
    (hc : 0 ≤ c.count) : (t.missing c).inRange = true := by
  have hmissing : (t.missing c).count = max (t.count - c.count) 0 := rfl
  have hoffset : (t.missing c).offset = t.count - max (t.count - c.count) 0 := rfl
  unfold inRange isWhole at h ⊢
  rw [hmissing, hoffset]
  rw [ho] at h
  simp only [Bool.and_eq_true, decide_eq_true_eq] at h ⊢
  omega

end ServerGroup

namespace Topology

/-- A topology as documents have it: its groups are numbered from one on, and have no more nodes than can be
counted. -/
structure Bounded (t : Topology) : Prop where
  counts : ∀ g ∈ t.servers, 0 ≤ g.count ∧ g.count ≤ (Nat.pow 2 62 : Int)
  offsets : ∀ g ∈ t.servers, g.offset = 0

instance (t : Topology) : Decidable t.Bounded :=
  decidable_of_iff ((∀ g ∈ t.servers, 0 ≤ g.count ∧ g.count ≤ (Nat.pow 2 62 : Int)) ∧
      ∀ g ∈ t.servers, g.offset = 0)
    ⟨fun ⟨hc, ho⟩ => ⟨hc, ho⟩, fun ⟨hc, ho⟩ => ⟨hc, ho⟩⟩

theorem Bounded.counted {t : Topology} (h : t.Bounded) : ∀ g ∈ t.servers, 0 ≤ g.count ∧ g.offset = 0 :=
  fun g hg => ⟨(h.counts g hg).1, h.offsets g hg⟩

/-- Of the initial nodes of groups at the same place the difference is a number. -/
def Reckonable (current target : Topology) : Prop :=
  ∀ p ∈ target.servers.zip current.servers, isWhole (p.1.initNodes - p.2.initNodes) = true

instance (current target : Topology) : Decidable (Reckonable current target) :=
  inferInstanceAs (Decidable (∀ _ ∈ _, _))

/-! ## What there is of a delta -/

section Delta

variable {target current d : Topology}

theorem delta?_eq_some (h : target.delta? current = some d) : d = target.delta current := by
  unfold delta? at h
  split_ifs at h
  exact (Option.some.inj h).symm

/-- Counts never stand in the way of a difference, initial nodes may. -/
theorem delta?_isSome_iff (ht : target.Bounded) (hc : current.Bounded) :
    (target.delta? current).isSome = true ↔ Reckonable current target := by
  have hlimit : (Nat.pow 2 62 : Int) ≤ (Nat.pow 2 63 : Int) - 1 := by decide
  have hcounts : ∀ p ∈ target.servers.zip current.servers, isWhole (p.1.count - p.2.count) = true := by
    intro p hp
    obtain ⟨hpt, hpc⟩ := List.of_mem_zip (a := p.1) (b := p.2) hp
    have htc := ht.counts p.1 hpt
    have hcc := hc.counts p.2 hpc
    unfold isWhole
    rw [Bool.and_eq_true, decide_eq_true_eq, decide_eq_true_eq]
    omega
  unfold delta? Reckonable
  split_ifs with h
  · simp only [List.all_eq_true, Bool.and_eq_true] at h
    exact iff_of_true rfl fun p hp => (h p hp).2
  · refine iff_of_false Bool.false_ne_true fun hinits => h ?_
    simp only [List.all_eq_true, Bool.and_eq_true]
    exact fun p hp => ⟨hcounts p hp, hinits p hp⟩

theorem nodeNames?_isSome_iff {t : Topology} :
    t.nodeNames?.isSome = true ↔ ∀ g ∈ t.servers, g.inRange = true := by
  unfold nodeNames?
  split_ifs with h
  · exact iff_of_true rfl (List.all_eq_true.1 h)
  · exact iff_of_false Bool.false_ne_true fun hall => h (List.all_eq_true.2 hall)

/-- The group that stands at a place of what is missing. -/
theorem getElem?_missingGroups : ∀ (ts cs : List ServerGroup) (g : Nat),
    (missingGroups ts cs)[g]? = (ts[g]?).map fun t => (cs[g]?).elim t t.missing
  | [], _, _ => rfl
  | t :: ts, [], g => by
    show (t :: ts)[g]? = ((t :: ts)[g]?).map id
    rw [Option.map_id_fun, id]
  | t :: ts, c :: cs, 0 => rfl
  | t :: ts, c :: cs, g + 1 => getElem?_missingGroups ts cs g

/-- A delta can be listed where its target can. -/
theorem nodeNames?_delta (ht : target.Bounded) (hc : current.Bounded) (h : target.nodeNames?.isSome = true) :
    (target.delta current).nodeNames?.isSome = true := by
  rw [nodeNames?_isSome_iff] at h ⊢
  intro g hg
  obtain ⟨n, hn⟩ := List.mem_iff_getElem?.1 hg
  have hplace : (missingGroups target.servers current.servers)[n]? = some g := hn
  rw [getElem?_missingGroups, Option.map_eq_some_iff] at hplace
  obtain ⟨t, htn, rfl⟩ := hplace
  have htmem := List.mem_of_getElem? htn
  cases hcn : current.servers[n]? with
  | none => exact h t htmem
  | some c =>
    exact ServerGroup.inRange_missing (h t htmem) (ht.counts t htmem).1 (ht.offsets t htmem)
      (hc.counts c (List.mem_of_getElem? hcn)).1

end Delta

/-! ## Deltas and names -/

section Names

variable {target current d : Topology}

/-- A node of a group is lacking unless the group at the same place has as many nodes as its number. -/
theorem mem_missingGroups_iff {t : ServerGroup} {k : Nat} (hk : (k : Int) < t.count) :
    ∀ {ts cs : List ServerGroup} {g : Nat}, (∀ x ∈ ts, 0 ≤ x.count ∧ x.offset = 0) →
      (∀ x ∈ cs, 0 ≤ x.count ∧ x.offset = 0) → (ts.flatMap ServerGroup.nodeNames).Nodup →
      ts[g]? = some t →
      (ServerGroup.nodeName t.name ((k : Int) + 1) ∈
          (missingGroups ts cs).flatMap ServerGroup.nodeNames ↔ ¬∃ c, cs[g]? = some c ∧ (k : Int) < c.count)
  | [], _, _, _, _, _, hg => nomatch hg
  | u :: ts, [], g, ht, _, _, hg => by
    have hmem := List.mem_of_getElem? hg
    refine iff_of_true ?_ ?_
    · exact List.mem_flatMap.2 ⟨t, hmem, (ServerGroup.mem_nodeNames (ht t hmem).2).2 ⟨k, hk, rfl⟩⟩
    · rintro ⟨c, hc, -⟩
      exact Option.some_ne_none c hc.symm
  | u :: ts, c :: cs, g, ht, hc, hnodup, hg => by
    have ht' : ∀ x ∈ ts, 0 ≤ x.count ∧ x.offset = 0 := fun x hx => ht x (List.mem_cons_of_mem u hx)
    have hc' : ∀ x ∈ cs, 0 ≤ x.count ∧ x.offset = 0 := fun x hx => hc x (List.mem_cons_of_mem c hx)
    have hu := ht u List.mem_cons_self
    have hcount := (hc c List.mem_cons_self).1
    rw [List.flatMap_cons] at hnodup
    obtain ⟨-, hrest, hdisjoint⟩ := List.nodup_append'.1 hnodup
    rw [missingGroups, List.flatMap_cons, List.mem_append]
    cases g with
    | zero =>
      obtain rfl := Option.some.inj hg
      have hown := (ServerGroup.mem_nodeNames hu.2).2 ⟨k, hk, rfl⟩
      have haway : ServerGroup.nodeName u.name ((k : Int) + 1) ∉
          (missingGroups ts cs).flatMap ServerGroup.nodeNames :=
        fun h => hdisjoint hown ((missingGroups_sublist ts cs ht' hc').subset h)
      rw [or_iff_left haway, ServerGroup.mem_missing hu.1 hcount hk, ← Int.not_lt]
      refine not_congr ⟨fun h => ⟨c, rfl, h⟩, ?_⟩
      rintro ⟨c', hc', h⟩
      obtain rfl := Option.some.inj hc'
      exact h
    | succ g =>
      have hplace : ts[g]? = some t := hg
      have hmem := List.mem_of_getElem? hplace
      have hown := List.mem_flatMap.2
        ⟨t, hmem, (ServerGroup.mem_nodeNames (ht' t hmem).2).2 ⟨k, hk, rfl⟩⟩
      have haway : ServerGroup.nodeName t.name ((k : Int) + 1) ∉ (u.missing c).nodeNames :=
        fun h => hdisjoint ((nodeNames_missing_suffix u c hu hcount).subset h) hown
      rw [or_iff_right haway]
      exact mem_missingGroups_iff hk ht' hc' hrest hg

/-- Of the nodes of each group those run already that the group at its place has by their numbers. -/
def Continues (target current : Topology) : Prop :=
  ∀ (g : Nat) (t : ServerGroup), target.servers[g]? = some t → ∀ k : Nat, (k : Int) < t.count →
    (ServerGroup.nodeName t.name ((k : Int) + 1) ∈ current.nodeNames ↔
      ∃ c, current.servers[g]? = some c ∧ (k : Int) < c.count)

/-- A part of a list of distinct elements is what is left of it when all others are dropped. -/
theorem filter_mem_of_sublist {l l' : List String} (h : l'.Sublist l) (hn : l.Nodup) :
    l.filter (· ∈ l') = l' := by
  have hkept : l'.filter (· ∈ l') = l' := List.filter_eq_self.2 fun x hx => decide_eq_true hx
  have hsub : l'.Sublist (l.filter (· ∈ l')) := by
    rw [← hkept]
    simpa only [hkept] using h.filter (· ∈ l')
  have hperm : l'.Perm (l.filter (· ∈ l')) := by
    refine (List.perm_ext_iff_of_nodup (h.nodup hn) (hn.filter _)).2 fun x => ?_
    rw [List.mem_filter, decide_eq_true_eq]
    exact ⟨fun hx => ⟨h.subset hx, hx⟩, And.right⟩
  exact (hsub.eq_of_length hperm.length_eq).symm

/-- A delta has the nodes that are not there yet exactly if of the nodes of each group those are there that its
place says. -/
theorem nodeNames_delta_iff (ht : target.Bounded) (hc : current.Bounded) (hn : target.nodeNames.Nodup) :
    (target.delta current).nodeNames = target.nodeNames.filter (· ∉ current.nodeNames) ↔
      target.Continues current := by
  have hsub : (target.delta current).nodeNames.Sublist target.nodeNames :=
    missingGroups_sublist target.servers current.servers ht.counted hc.counted
  have hplace : ∀ (g : Nat) (t : ServerGroup), target.servers[g]? = some t →
      ∀ k : Nat, (k : Int) < t.count →
      (ServerGroup.nodeName t.name ((k : Int) + 1) ∈ (target.delta current).nodeNames ↔
        ¬∃ c, current.servers[g]? = some c ∧ (k : Int) < c.count) :=
    fun g t hg k hk => mem_missingGroups_iff hk ht.counted hc.counted hn hg
  have hnames : (target.delta current).nodeNames = target.nodeNames.filter (· ∉ current.nodeNames) ↔
      ∀ x ∈ target.nodeNames, (x ∈ (target.delta current).nodeNames ↔ x ∉ current.nodeNames) := by
    constructor
    · intro heq x hx
      rw [heq, List.mem_filter, decide_eq_true_eq]
      exact and_iff_right hx
    · intro h
      refine (filter_mem_of_sublist hsub hn).symm.trans (List.filter_congr fun x hx => ?_)
      exact decide_eq_decide.2 (h x hx)
  rw [hnames]
  constructor
  · intro h g t hg k hk
    have hmem := List.mem_of_getElem? hg
    have hx : ServerGroup.nodeName t.name ((k : Int) + 1) ∈ target.nodeNames :=
      List.mem_flatMap.2 ⟨t, hmem, (ServerGroup.mem_nodeNames (ht.offsets t hmem)).2 ⟨k, hk, rfl⟩⟩
    exact not_iff_not.1 ((h _ hx).symm.trans (hplace g t hg k hk))
  · intro h x hx
    obtain ⟨t, hmem, hx⟩ := List.mem_flatMap.1 hx
    obtain ⟨k, hk, rfl⟩ := (ServerGroup.mem_nodeNames (ht.offsets t hmem)).1 hx
    obtain ⟨g, hg⟩ := List.mem_iff_getElem?.1 hmem
    rw [hplace g t hg k hk, h g t hg k hk]

/-- Nothing of a topology is gone in the next one: its groups stand there under their names, with no fewer
nodes. -/
def Extends (t u : Topology) : Prop :=
  t.servers.length ≤ u.servers.length ∧
    ∀ p ∈ u.servers.zip t.servers, p.1.name = p.2.name ∧ p.2.count ≤ p.1.count

instance (t u : Topology) : Decidable (t.Extends u) :=
  inferInstanceAs (Decidable (_ ∧ ∀ _ ∈ _, _))

/-- A group is there under its name in a topology that has grown, with no fewer nodes. -/
theorem Extends.getElem? {t u : Topology} (h : t.Extends u) {g : Nat} {a : ServerGroup}
    (ha : t.servers[g]? = some a) :
    ∃ b, u.servers[g]? = some b ∧ b.name = a.name ∧ a.count ≤ b.count := by
  obtain ⟨hlt, rfl⟩ := List.getElem?_eq_some_iff.1 ha
  have hu : u.servers[g]? = some _ := List.getElem?_eq_getElem (Nat.lt_of_lt_of_le hlt h.1)
  exact ⟨_, hu, h.2 (_, _) (List.mem_of_getElem? (List.getElem?_zip_eq_some.2 ⟨hu, ha⟩))⟩

/-- In a topology with distinct nodes each of them belongs to the group at one place only. -/
theorem place_unique {gs : List ServerGroup} (hn : (gs.flatMap ServerGroup.nodeNames).Nodup) {x : String}
    {i g : Nat} {a b : ServerGroup} (hi : gs[i]? = some a) (hg : gs[g]? = some b)
    (ha : x ∈ a.nodeNames) (hb : x ∈ b.nodeNames) : i = g := by
  obtain ⟨hilt, rfl⟩ := List.getElem?_eq_some_iff.1 hi
  obtain ⟨hglt, rfl⟩ := List.getElem?_eq_some_iff.1 hg
  have hdisjoint := List.pairwise_iff_getElem.1 (List.nodup_flatMap.1 hn).2
  rcases Nat.lt_trichotomy i g with hlt | heq | hlt
  · exact absurd hb (hdisjoint i g hilt hglt hlt ha)
  · exact heq
  · exact absurd ha (hdisjoint g i hglt hilt hlt hb)

/-- Of the nodes of topologies that only grow those run already that the group at their place has. -/
theorem Extends.continues {current target : Topology} (h : current.Extends target) (hc : current.Bounded)
    (ht : target.Bounded) (hn : target.nodeNames.Nodup) : target.Continues current := by
  intro g t hg k hk
  constructor
  · intro hx
    obtain ⟨c, hmem, hx⟩ := List.mem_flatMap.1 hx
    obtain ⟨i, hci⟩ := List.mem_iff_getElem?.1 hmem
    obtain ⟨u, hu, hname, hle⟩ := h.getElem? hci
    obtain ⟨m, hm, hxm⟩ := (ServerGroup.mem_nodeNames (hc.offsets c hmem)).1 hx
    -- The node is one of the group that stands at the place of the current one, so this is the group.
    have hthere := (ServerGroup.mem_nodeNames (ht.offsets _ (List.mem_of_getElem? hu))).2
      ⟨m, Int.lt_of_lt_of_le hm hle, hxm.trans (by rw [hname])⟩
    have hown := (ServerGroup.mem_nodeNames (ht.offsets t (List.mem_of_getElem? hg))).2 ⟨k, hk, rfl⟩
    obtain rfl := place_unique hn hu hg hthere hown
    obtain rfl := Option.some.inj (hu.symm.trans hg)
    rw [hname] at hxm
    obtain rfl := ServerGroup.nodeName_injective _ hxm
    exact ⟨c, hci, hm⟩
  · rintro ⟨c, hcg, hlt⟩
    have hmem := List.mem_of_getElem? hcg
    obtain ⟨u, hu, hname, -⟩ := h.getElem? hcg
    obtain rfl := Option.some.inj (hu.symm.trans hg)
    exact List.mem_flatMap.2
      ⟨c, hmem, (ServerGroup.mem_nodeNames (hc.offsets c hmem)).2 ⟨k, hlt, by rw [hname]⟩⟩

/-- What a topology lacks of another one can be reckoned just if no difference of initial nodes is out of
range.  It is made up of the nodes that the other one has not, in order, exactly if of the nodes of each group
those are there that its place says, as they are where groups only grow; and it can be listed where the topology
itself can. -/
theorem delta_lacks_iff (ht : target.Bounded) (hc : current.Bounded) (hn : target.nodeNames.Nodup) :
    ((target.delta? current).isSome = true ↔ Reckonable current target) ∧
    (∀ d, target.delta? current = some d →
      (d.nodeNames = target.nodeNames.filter (· ∉ current.nodeNames) ↔ target.Continues current) ∧
      (target.nodeNames?.isSome = true → d.nodeNames?.isSome = true)) ∧
    (current.Extends target → target.Continues current) := by
  refine ⟨delta?_isSome_iff ht hc, fun d hd => ?_, fun h => h.continues hc ht hn⟩
  obtain rfl := delta?_eq_some hd
  exact ⟨nodeNames_delta_iff ht hc hn, nodeNames?_delta ht hc⟩

/-- Groups of which one grows, one shrinks and one is new. -/
theorem delta_lacks_iff_regrouped :
    let current : Topology := { servers := [{ name := "db.local", count := 2 }, { name := "web", count := 4 }] }
    let target : Topology :=
      { servers := [{ name := "db.local", count := 3 }, { name := "web" }, { name := "cache", count := 2 }] }
    target.Bounded ∧ current.Bounded ∧ target.nodeNames.Nodup ∧ (target.delta? current).isSome = true ∧
      ∀ d, target.delta? current = some d →
        d.nodeNames = ["db3.local", "cache1", "cache2"] ∧ target.Continues current ∧
          d.nodeNames?.isSome = true := by
  intro current target
  have ht : target.Bounded := by decide
  have hc : current.Bounded := by decide
  have hn : target.nodeNames.Nodup := by decide +kernel
  obtain ⟨hsome, hlacks, -⟩ := delta_lacks_iff ht hc hn
  refine ⟨ht, hc, hn, hsome.2 (by decide), fun d hd => ?_⟩
  have hnames : d.nodeNames = ["db3.local", "cache1", "cache2"] := by
    rw [delta?_eq_some hd]
    decide +kernel
  obtain ⟨hiff, hlist⟩ := hlacks d hd
  exact ⟨hnames, hiff.1 (hnames.trans (by decide +kernel)), hlist (by decide +kernel)⟩

/-- A group under a new name counts as there, though none of its nodes is. -/
theorem renamed_group_lacks_nothing :
    let current : Topology := { servers := [{ name := "a", count := 2 }] }
    let target : Topology := { servers := [{ name := "b", count := 2 }] }
    target.Bounded ∧ current.Bounded ∧ target.nodeNames.Nodup ∧ current.nodeNames.Nodup ∧
      target.nodeNames.filter (· ∉ current.nodeNames) = ["b1", "b2"] ∧
      (target.delta? current).map nodeNames = some [] := by
  decide +kernel

end Names

/-! ## Growth -/

section Growth

/-- What has to be provided on the way from a topology to others, unless a difference is no number. -/
def deltas? : Topology → List Topology → Option (List Topology)
  | _, [] => some []
  | current, t :: ts => (t.delta? current).bind fun d => (deltas? t ts).map (d :: ·)

/-- The nodes of the group at a place; there are none at a place without a group. -/
def namesAt (t : Topology) (g : Nat) : List String := (t.servers[g]?).elim [] ServerGroup.nodeNames

variable {first t u : Topology} {ts ds : List Topology}

theorem deltas?_eq_some : ∀ {current : Topology} {ts ds : List Topology},
    deltas? current ts = some ds → ds = deltas current ts
  | _, [], _, h => (Option.some.inj h).symm
  | current, t :: ts, ds, h => by
    obtain ⟨d, hd, h⟩ := Option.bind_eq_some_iff.1 h
    obtain ⟨ds', hds, rfl⟩ := Option.map_eq_some_iff.1 h
    rw [delta?_eq_some hd, deltas?_eq_some hds]
    rfl

theorem deltas?_isSome_iff : ∀ {current : Topology} {ts : List Topology},
    (∀ t ∈ current :: ts, t.Bounded) →
      ((deltas? current ts).isSome = true ↔ (current :: ts).IsChain Reckonable)
  | _, [], _ => iff_of_true rfl (.singleton _)
  | current, t :: ts, h => by
    have hrest := deltas?_isSome_iff fun u hu => h u (List.mem_cons_of_mem current hu)
    have hstep := delta?_isSome_iff (h t (by simp)) (h current (by simp))
    rw [List.isChain_cons_cons, ← hrest, ← hstep, deltas?]
    cases t.delta? current <;> simp

theorem nodup_namesAt (h : t.Bounded) (g : Nat) : (t.namesAt g).Nodup := by
  unfold namesAt
  cases hg : t.servers[g]? with
  | none => exact List.nodup_nil
  | some a => exact ServerGroup.nodup_nodeNames (h.offsets a (List.mem_of_getElem? hg))

theorem lastOf_mem : ∀ (first : Topology) (ts : List Topology), lastOf first ts ∈ first :: ts
  | _, [] => List.mem_cons_self
  | first, t :: ts => List.mem_cons_of_mem first (lastOf_mem t ts)

/-- A group at a place that grows is made up of what it was and what it lacks. -/
theorem namesAt_grown (ht : t.Bounded) (hu : u.Bounded) (h : t.Extends u) (g : Nat) :
    t.namesAt g ++ (u.delta t).namesAt g = u.namesAt g := by
  have hplace : (u.delta t).servers[g]? = _ := getElem?_missingGroups u.servers t.servers g
  unfold namesAt
  rw [hplace]
  cases hug : u.servers[g]? with
  | none =>
    have hlen : u.servers.length ≤ g := List.getElem?_eq_none_iff.1 hug
    rw [List.getElem?_eq_none (h.1.trans hlen)]
    rfl
  | some b =>
    cases htg : t.servers[g]? with
    | none => rfl
    | some a =>
      obtain ⟨b', hb', hname, hle⟩ := h.getElem? htg
      obtain rfl := Option.some.inj (hb'.symm.trans hug)
      exact nodeNames_grown b' a (hu.offsets b' (List.mem_of_getElem? hug))
        (ht.counted a (List.mem_of_getElem? htg)) hname hle

/-- What is provided on the way through topologies that grow joins up to the last one. -/
theorem namesAt_deltas (g : Nat) : ∀ {first : Topology} {ts : List Topology},
    (∀ t ∈ first :: ts, t.Bounded) → (first :: ts).IsChain Extends →
      first.namesAt g ++ (deltas first ts).flatMap (namesAt · g) = (lastOf first ts).namesAt g
  | first, [], _, _ => List.append_nil _
  | first, t :: ts, hbounded, hgrows => by
    obtain ⟨hstep, hrest⟩ := List.isChain_cons_cons.1 hgrows
    rw [deltas, List.flatMap_cons, ← List.append_assoc,
      namesAt_grown (hbounded first (by simp)) (hbounded t (by simp)) hstep]
    exact namesAt_deltas g (fun u hu => hbounded u (List.mem_cons_of_mem first hu)) hrest

theorem nodeNames?_of_extends (ht : t.Bounded) (hu : u.Bounded) (h : t.Extends u)
    (hlist : u.nodeNames?.isSome = true) : t.nodeNames?.isSome = true := by
  rw [nodeNames?_isSome_iff] at hlist ⊢
  intro a ha
  obtain ⟨g, hg⟩ := List.mem_iff_getElem?.1 ha
  obtain ⟨b, hb, -, hle⟩ := h.getElem? hg
  have hmem := List.mem_of_getElem? hb
  exact ServerGroup.inRange_of_le (ht.offsets a ha) (hu.offsets b hmem) hle (hlist b hmem)

/-- All that is provided can be listed where the last topology can. -/
theorem nodeNames?_deltas : ∀ {first : Topology} {ts : List Topology},
    (∀ t ∈ first :: ts, t.Bounded) → (first :: ts).IsChain Extends →
      (lastOf first ts).nodeNames?.isSome = true → ∀ t ∈ first :: deltas first ts, t.nodeNames?.isSome = true
  | first, [], _, _, hlast => by simpa [deltas, lastOf] using hlast
  | first, t :: ts, hbounded, hgrows, hlast => by
    obtain ⟨hstep, hrest⟩ := List.isChain_cons_cons.1 hgrows
    have hfirst := hbounded first (by simp)
    have ht := hbounded t (by simp)
    have ih := nodeNames?_deltas (fun u hu => hbounded u (List.mem_cons_of_mem first hu)) hrest hlast
    have hlist := ih t List.mem_cons_self
    intro u hu
    rcases List.mem_cons.1 hu with rfl | hu
    · exact nodeNames?_of_extends hfirst ht hstep hlist
    rcases List.mem_cons.1 hu with rfl | hu
    · exact nodeNames?_delta ht hfirst hlist
    · exact ih u (List.mem_cons_of_mem t hu)

/-- Each of some topologies that grow can be provided after the one before just if no difference of initial
nodes is out of range.  For each group the nodes of the first topology and those that are provided after it
are then the nodes of the last one, in order and none of them twice; and all of them can be listed where the
last topology can. -/
theorem growth_telescopes (hbounded : ∀ t ∈ first :: ts, t.Bounded) (hgrows : (first :: ts).IsChain Extends) :
    ((deltas? first ts).isSome = true ↔ (first :: ts).IsChain Reckonable) ∧
    ∀ ds, deltas? first ts = some ds →
      (∀ g, first.namesAt g ++ ds.flatMap (namesAt · g) = (lastOf first ts).namesAt g ∧
        ((lastOf first ts).namesAt g).Nodup) ∧
      ((lastOf first ts).nodeNames?.isSome = true → ∀ t ∈ first :: ds, t.nodeNames?.isSome = true) := by
  refine ⟨deltas?_isSome_iff hbounded, fun ds hds => ?_⟩
  obtain rfl := deltas?_eq_some hds
  exact ⟨fun g => ⟨namesAt_deltas g hbounded hgrows, nodup_namesAt (hbounded _ (lastOf_mem first ts)) g⟩,
    nodeNames?_deltas hbounded hgrows⟩

/-- A group of nodes with a domain grows, rests, and grows once more, when another one enters. -/
theorem growth_telescopes_cluster :
    let first : Topology := { servers := [{ name := "db.local", count := 2, initNodes := 3 }] }
    let ts : List Topology :=
      [{ servers := [{ name := "db.local", count := 3 }] },
        { servers := [{ name := "db.local", count := 3 }, { name := "web" }] },
        { servers := [{ name := "db.local", count := 5 }, { name := "web", count := 2 }] }]
    (∀ t ∈ first :: ts, t.Bounded) ∧ (first :: ts).IsChain Extends ∧ (first :: ts).IsChain Reckonable ∧
      ∃ ds, deltas? first ts = some ds ∧
        ds.map (namesAt · 0) = [["db3.local"], [], ["db4.local", "db5.local"]] ∧
        ds.map (namesAt · 1) = [[], ["web1"], ["web2"]] ∧
        ∀ g, first.namesAt g ++ ds.flatMap (namesAt · g) = (lastOf first ts).namesAt g := by
  intro first ts
  have hbounded : ∀ t ∈ first :: ts, t.Bounded := by decide
  have hgrows : (first :: ts).IsChain Extends := by decide
  have hreckonable : (first :: ts).IsChain Reckonable := by decide
  obtain ⟨hsome, hjoins⟩ := growth_telescopes hbounded hgrows
  obtain ⟨ds, hds⟩ := Option.isSome_iff_exists.1 (hsome.2 hreckonable)
  refine ⟨hbounded, hgrows, hreckonable, ds, hds, ?_, ?_, fun g => ((hjoins ds hds).1 g).1⟩
  · rw [deltas?_eq_some hds]
    decide +kernel
  · rw [deltas?_eq_some hds]
    decide +kernel

/-- A group grows by a node, but the difference of its initial nodes is out of range. -/
theorem reckoned_growth_fails :
    let first : Topology := { servers := [{ name := "n", count := 1, initNodes := 1 }] }
    let next : Topology := { servers := [{ name := "n", count := 2, initNodes := -(Nat.pow 2 63 : Int) }] }
    (∀ t ∈ [first, next], t.Bounded) ∧ [first, next].IsChain Extends ∧ deltas? first [next] = none := by
  decide

end Growth

end Topology

end Workload
