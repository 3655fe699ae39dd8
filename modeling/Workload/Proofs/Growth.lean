import Mathlib.Data.List.Basic
import Mathlib.Data.List.Nodup
import Workload.Topology

/-!
# Topologies that grow and shrink

What has to be provided on the way from one topology to the next is, group by group, what the new one
has more.  On the way through several topologies everything is provided that any of them has, and nothing
else; so no name is provided twice exactly if none of them has nodes provided that one before it had
(`nodup_deltas_iff`).
-/

namespace Workload

namespace Topology

/-- What has to be provided on the way from a topology to others, one after the other. -/
def deltas : Topology → List Topology → List Topology
  | _, [] => []
  | current, t :: ts => t.delta current :: deltas t ts

/-- The last of some topologies. -/
def lastOf : Topology → List Topology → Topology
  | current, [] => current
  | _, t :: ts => lastOf t ts

/-- Whether one of the topologies to come has nodes provided that the current or an earlier one had. -/
def Returns : (earlier : List Topology) → (current : Topology) → List Topology → Prop
  | _, _, [] => False
  | earlier, current, t :: ts =>
    (∃ u ∈ current :: earlier, ∃ name ∈ (t.delta current).nodeNames, name ∈ u.nodeNames) ∨
      Returns (current :: earlier) t ts

instance decidableReturns : ∀ (earlier : List Topology) (current : Topology) (ts : List Topology),
    Decidable (Returns earlier current ts)
  | _, _, [] => inferInstanceAs (Decidable False)
  | earlier, current, t :: ts =>
    have := decidableReturns (current :: earlier) t ts
    inferInstanceAs (Decidable ((∃ u ∈ current :: earlier, ∃ name ∈ (t.delta current).nodeNames,
      name ∈ u.nodeNames) ∨ Returns (current :: earlier) t ts))

/-- Topologies that differ in the counts of their groups, and each of which has distinct nodes.  The nodes
of a group are numbered from one on, as they are in every document. -/
structure Comparable (ts : List Topology) : Prop where
  counted : ∀ t ∈ ts, ∀ g ∈ t.servers, 0 ≤ g.count ∧ g.offset = 0
  named : ∀ t ∈ ts, ∀ u ∈ ts, ∀ p ∈ t.servers.zip u.servers, p.1.name = p.2.name
  distinct : ∀ t ∈ ts, t.nodeNames.Nodup

instance (ts : List Topology) : Decidable (Comparable ts) :=
  decidable_of_iff
    ((∀ t ∈ ts, ∀ g ∈ t.servers, 0 ≤ g.count ∧ g.offset = 0) ∧
      (∀ t ∈ ts, ∀ u ∈ ts, ∀ p ∈ t.servers.zip u.servers, p.1.name = p.2.name) ∧
      ∀ t ∈ ts, t.nodeNames.Nodup)
    ⟨fun ⟨hc, hn, hd⟩ => ⟨hc, hn, hd⟩, fun ⟨hc, hn, hd⟩ => ⟨hc, hn, hd⟩⟩

theorem deltas_concat (t : Topology) : ∀ (ts : List Topology) (current : Topology),
    deltas current (ts ++ [t]) = deltas current ts ++ [t.delta (lastOf current ts)]
  | [], _ => rfl
  | u :: ts, current => congrArg (u.delta current :: ·) (deltas_concat t ts u)

theorem lastOf_concat (t : Topology) : ∀ (ts : List Topology) (current : Topology),
    lastOf current (ts ++ [t]) = t
  | [], _ => rfl
  | u :: ts, _ => lastOf_concat t ts u

/-! ## From one topology to the next -/

section Groups

/-- The nodes of a group after the first `lo`. -/
theorem nodeNames_group (g : ServerGroup) (lo : Nat) (h : g.offset = lo) :
    g.nodeNames =
      (List.range' lo g.count.toNat).map fun (k : Nat) => ServerGroup.nodeName g.name ((k : Int) + 1) := by
  unfold ServerGroup.nodeNames ServerGroup.numbers
  rw [List.range'_eq_map_range, List.map_map, List.map_map, h]
  refine List.map_congr_left fun i _ => ?_
  show ServerGroup.nodeName g.name ((lo : Int) + 1 + i) =
    ServerGroup.nodeName g.name (((lo + i : Nat) : Int) + 1)
  congr 1
  omega

/-- What a group lacks are the nodes that come after those there are. -/
theorem nodeNames_missing (t c : ServerGroup) (ht : 0 ≤ t.count) (hc : 0 ≤ c.count) :
    (t.missing c).nodeNames =
      (List.range' c.count.toNat (t.count.toNat - c.count.toNat)).map
        fun (k : Nat) => ServerGroup.nodeName t.name ((k : Int) + 1) := by
  by_cases hlt : c.count < t.count
  · have hoff : (t.missing c).offset = c.count.toNat := by
      show t.count - max (t.count - c.count) 0 = _
      omega
    have hcount : (t.missing c).count.toNat = t.count.toNat - c.count.toNat := by
      show (max (t.count - c.count) 0).toNat = _
      omega
    rw [nodeNames_group _ _ hoff, hcount]
    rfl
  · have hcount : (t.missing c).count.toNat = 0 := by
      show (max (t.count - c.count) 0).toNat = _
      omega
    have hz : t.count.toNat - c.count.toNat = 0 := by omega
    unfold ServerGroup.nodeNames ServerGroup.numbers
    rw [hcount, hz]
    rfl

/-- A group that has grown is made up of the nodes there are and those it lacks. -/
theorem nodeNames_grown (t c : ServerGroup) (ht : t.offset = 0) (hc : 0 ≤ c.count ∧ c.offset = 0)
    (hn : t.name = c.name) (hle : c.count ≤ t.count) :
    c.nodeNames ++ (t.missing c).nodeNames = t.nodeNames := by
  rw [nodeNames_missing t c (Int.le_trans hc.1 hle) hc.1, nodeNames_group t 0 ht, nodeNames_group c 0 hc.2, ← hn,
    ← List.map_append]
  have happend := @List.range'_append 0 c.count.toNat (t.count.toNat - c.count.toNat) 1
  rw [Nat.one_mul, Nat.zero_add, Nat.add_sub_cancel' (Int.toNat_le_toNat hle)] at happend
  rw [happend]

/-- A group is made up of the nodes there are and those it lacks, or has no more than there are. -/
theorem nodeNames_split (t c : ServerGroup) (ht : 0 ≤ t.count ∧ t.offset = 0)
    (hc : 0 ≤ c.count ∧ c.offset = 0) (hn : t.name = c.name) :
    c.nodeNames ++ (t.missing c).nodeNames = t.nodeNames ∨
      (t.missing c).nodeNames = [] ∧ t.nodeNames <+: c.nodeNames := by
  by_cases hle : c.count ≤ t.count
  · exact .inl (nodeNames_grown t c ht.2 hc hn hle)
  · right
    have hle : t.count.toNat ≤ c.count.toNat := by omega
    rw [nodeNames_missing t c ht.1 hc.1, nodeNames_group t 0 ht.2, nodeNames_group c 0 hc.2, ← hn,
      Nat.sub_eq_zero_of_le hle]
    have happend := @List.range'_append 0 t.count.toNat (c.count.toNat - t.count.toNat) 1
    rw [Nat.add_sub_cancel' hle] at happend
    rw [← happend, List.map_append]
    exact ⟨rfl, List.prefix_append _ _⟩

/-- What a group lacks are the last ones of its nodes. -/
theorem nodeNames_missing_suffix (t c : ServerGroup) (ht : 0 ≤ t.count ∧ t.offset = 0)
    (hc : 0 ≤ c.count) : (t.missing c).nodeNames <:+ t.nodeNames := by
  rw [nodeNames_missing t c ht.1 hc, nodeNames_group t 0 ht.2]
  by_cases hle : c.count.toNat ≤ t.count.toNat
  · have happend := @List.range'_append 0 c.count.toNat (t.count.toNat - c.count.toNat) 1
    rw [Nat.one_mul, Nat.zero_add, Nat.add_sub_cancel' hle] at happend
    rw [← happend, List.map_append]
    exact List.suffix_append _ _
  · rw [Nat.sub_eq_zero_of_le (Nat.le_of_not_le hle)]
    exact List.nil_suffix

/-- What groups lack are some of their nodes. -/
theorem missingGroups_sublist : ∀ ts cs : List ServerGroup,
    (∀ g ∈ ts, 0 ≤ g.count ∧ g.offset = 0) → (∀ g ∈ cs, 0 ≤ g.count ∧ g.offset = 0) →
    ((missingGroups ts cs).flatMap ServerGroup.nodeNames).Sublist (ts.flatMap ServerGroup.nodeNames)
  | [], _, _, _ => by simp [missingGroups]
  | t :: ts, [], _, _ => by simp [missingGroups]
  | t :: ts, c :: cs, ht, hc => by
    have hrest := missingGroups_sublist ts cs (fun g hg => ht g (List.mem_cons_of_mem t hg))
      fun g hg => hc g (List.mem_cons_of_mem c hg)
    have hhead := nodeNames_missing_suffix t c (ht t List.mem_cons_self) (hc c List.mem_cons_self).1
    rw [missingGroups, List.flatMap_cons, List.flatMap_cons]
    exact hhead.sublist.append hrest

/-- A node of the groups is there, or lacks. -/
theorem mem_missingGroups {name : String} : ∀ ts cs : List ServerGroup,
    (∀ g ∈ ts, 0 ≤ g.count ∧ g.offset = 0) → (∀ g ∈ cs, 0 ≤ g.count ∧ g.offset = 0) →
    (∀ p ∈ ts.zip cs, p.1.name = p.2.name) →
    name ∈ ts.flatMap ServerGroup.nodeNames →
    name ∈ cs.flatMap ServerGroup.nodeNames ∨
      name ∈ (missingGroups ts cs).flatMap ServerGroup.nodeNames
  | [], _, _, _, _, hm => nomatch hm
  | t :: ts, [], _, _, _, hm => .inr (by simpa [missingGroups] using hm)
  | t :: ts, c :: cs, ht, hc, hn, hm => by
    rw [missingGroups, List.flatMap_cons, List.flatMap_cons, List.mem_append, List.mem_append]
    rw [List.flatMap_cons, List.mem_append] at hm
    rcases hm with hm | hm
    · rcases nodeNames_split t c (ht t List.mem_cons_self) (hc c List.mem_cons_self)
        (hn (t, c) List.mem_cons_self) with h | ⟨-, h⟩
      · rw [← h, List.mem_append] at hm
        exact hm.imp .inl .inl
      · exact .inl (.inl (h.subset hm))
    · have hrest := mem_missingGroups ts cs (fun g hg => ht g (List.mem_cons_of_mem t hg))
        (fun g hg => hc g (List.mem_cons_of_mem c hg)) (fun p hp => hn p (List.mem_cons_of_mem _ hp)) hm
      exact hrest.imp .inr .inr

end Groups

/-! ## Through several topologies -/

section Sequences

variable {all : List Topology}

/-- Beside all that has been provided, what is provided on the way through further topologies has no name
twice exactly if none of these has nodes provided that were there. -/
theorem Comparable.nodup_append_deltas (h : Comparable all) :
    ∀ (ts earlier : List Topology) (current : Topology) (provided : List String),
    (∀ t ∈ current :: ts, t ∈ all) → provided.Nodup →
    (∀ name, name ∈ provided ↔ ∃ u ∈ current :: earlier, name ∈ u.nodeNames) →
    ((provided ++ (deltas current ts).flatMap nodeNames).Nodup ↔ ¬Returns earlier current ts)
  | [], earlier, current, provided, _, hnodup, _ => by
    simpa [deltas, Returns] using hnodup
  | t :: ts, earlier, current, provided, hmem, hnodup, hprov => by
    have hcurrent := hmem current List.mem_cons_self
    have ht := hmem t (List.mem_cons_of_mem _ List.mem_cons_self)
    have hsub : (t.delta current).nodeNames.Sublist t.nodeNames :=
      missingGroups_sublist t.servers current.servers (h.counted t ht) (h.counted current hcurrent)
    rw [deltas, List.flatMap_cons, ← List.append_assoc, Returns, not_or]
    by_cases hback : ∃ u ∈ current :: earlier, ∃ name ∈ (t.delta current).nodeNames,
        name ∈ u.nodeNames
    · refine iff_of_false (fun hnodup => ?_) fun hno => hno.1 hback
      obtain ⟨u, hu, name, hdelta, hname⟩ := hback
      have hdisjoint := List.disjoint_of_nodup_append (List.nodup_append'.1 hnodup).1
      exact hdisjoint ((hprov name).2 ⟨u, hu, hname⟩) hdelta
    · have hnodup' : (provided ++ (t.delta current).nodeNames).Nodup := by
        refine hnodup.append (hsub.nodup (h.distinct t ht)) fun name hname hdelta => hback ?_
        obtain ⟨u, hu, hname⟩ := (hprov name).1 hname
        exact ⟨u, hu, name, hdelta, hname⟩
      have hprov' : ∀ name, name ∈ provided ++ (t.delta current).nodeNames ↔
          ∃ u ∈ t :: current :: earlier, name ∈ u.nodeNames := by
        intro name
        rw [List.mem_append, hprov name]
        constructor
        · rintro (⟨u, hu, hold⟩ | hdelta)
          · exact ⟨u, List.mem_cons_of_mem t hu, hold⟩
          · exact ⟨t, List.mem_cons_self, hsub.subset hdelta⟩
        · rintro ⟨u, hu, hname⟩
          rcases List.mem_cons.1 hu with rfl | hu
          · rcases mem_missingGroups u.servers current.servers (h.counted u ht)
              (h.counted current hcurrent) (h.named u ht current hcurrent) hname with hm | hm
            · exact .inl ⟨current, List.mem_cons_self, hm⟩
            · exact .inr hm
          · exact .inl ⟨u, hu, hname⟩
      rw [h.nodup_append_deltas ts (current :: earlier) t _
        (fun u hu => hmem u (List.mem_cons_of_mem _ hu)) hnodup' hprov']
      exact ⟨fun h => ⟨hback, h⟩, And.right⟩

/-- What is provided for a topology and then on the way through others has no name twice exactly if none
of these has nodes provided that one before it had. -/
theorem nodup_deltas_iff {first : Topology} {ts : List Topology} (h : Comparable (first :: ts)) :
    ((first :: deltas first ts).flatMap nodeNames).Nodup ↔ ¬Returns [] first ts := by
  rw [List.flatMap_cons]
  refine h.nodup_append_deltas ts [] first _ (fun _ ht => ht)
    (h.distinct first List.mem_cons_self) fun name => ?_
  simp

end Sequences

end Topology

end Workload
