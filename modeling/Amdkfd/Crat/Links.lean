import Amdkfd.Crat.RoundTrip

/-!
# The links of the CPUs

The devices that come out of the image of the CPUs have dense proximity domains, counted over the
nodes with CPUs, while `kfd_fill_iolink_info_for_cpu` writes the numbers of the NUMA nodes into
the links. So the links connect the domains of their nodes exactly where the two agree.
-/

namespace Amdkfd.Crat

open List

/-! ## Devices of nodes -/

variable (t : Numa)

theorem Numa.device_proximityDomain (i : Nat) : (t.device i).proximityDomain = UInt32.ofNat i :=
  foldl_applyDev_proximityDomain ..

theorem Numa.cpuNodes_nodup : t.cpuNodes.Nodup :=
  t.nodup.sublist t.cpuNodes_sublist

theorem Numa.cpuNodes_lt : ∀ n ∈ t.cpuNodes, n < maxNumnodes :=
  fun n hn => t.online_lt n (t.cpuNodes_sublist.subset hn)

theorem Numa.length_cpuNodes : t.cpuNodes.length ≤ maxNumnodes :=
  t.cpuNodes_sublist.length_le.trans t.length_online

theorem Numa.domain_lt {i n : Nat} (h : t.cpuNodes[i]? = some n) : i < maxNumnodes := by
  obtain ⟨hlt, -⟩ := List.getElem?_eq_some_iff.1 h
  exact hlt.trans_le t.length_cpuNodes

theorem Numa.device_cpuCoreIdBase {i n : Nat} (h : t.cpuNodes[i]? = some n) :
    (t.device i).cpuCoreIdBase = t.apicId n :=
  foldl_subsFrom_cpuCoreIdBase t (by rw [zero_add]; exact t.length_cpuNodes) h
    (by rw [zero_add]; rfl)

theorem Numa.device_ioLinkProps {i : Nat} (hi : i < maxNumnodes) :
    (t.device i).ioLinkProps =
      if i ∈ t.cpuNodes then (t.others i).map fun m => iolinkProperties t (iolinkForCpu t i m)
      else [] := by
  have hlinks := linksFrom_subsFrom t t.cpuNodes_nodup t.cpuNodes_lt 0 hi
  rw [Numa.device, foldl_applyDev_ioLinkProps]
  show [] ++ (linksFrom (UInt32.ofNat i) t.subs).map _ = _
  rw [nil_append, Numa.subs, hlinks]
  split
  · rw [map_map]
    rfl
  · rfl

/-! ## The links connect the nodes -/

/-- The device in domain `i` is that of node `n`: it has the domain, the CPUs of the node, and a
link to each other node that is online, from its domain to that of the other node. -/
structure Connects (t : Numa) (i n : Nat) (dev : TopologyDevice) : Prop where
  domain : dev.proximityDomain = UInt32.ofNat i
  core : dev.cpuCoreIdBase = t.apicId n
  links : Forall₂
    (fun m link => link.nodeFrom = UInt32.ofNat i ∧ t.cpuNodes[link.nodeTo.toNat]? = some m)
    (t.others n) dev.ioLinkProps

def LinksConnect (t : Numa) (devs : List TopologyDevice) : Prop :=
  ∀ i n, t.cpuNodes[i]? = some n → ∃ dev, devs[i]? = some dev ∧ Connects t i n dev

/-- At most one node is online, or those online are numbered without a gap, and all have
CPUs. -/
def Numa.Dense (t : Numa) : Prop :=
  t.online.length ≤ 1 ∨
    (t.online = range t.online.length ∧ ∀ n ∈ t.online, t.apicId n ≠ noApicId)
  deriving Decidable

theorem Numa.getElem?_devices {i n : Nat} (h : t.cpuNodes[i]? = some n) :
    ((range t.cpuNodes.length).map t.device)[i]? = some (t.device i) := by
  obtain ⟨hlt, -⟩ := List.getElem?_eq_some_iff.1 h
  rw [getElem?_map, getElem?_range hlt, Option.map_some]

theorem toNat_node {m : Nat} (hm : m ∈ t.online) : (UInt32.ofNat m).toNat = m :=
  UInt32.toNat_ofNat_of_lt' ((t.online_lt m hm).trans (by decide))

theorem Numa.others_eq_nil (hone : t.online.length ≤ 1) {n : Nat} (hn : n ∈ t.online) :
    t.others n = [] := by
  have hlen := t.length_others hn
  exact length_eq_zero_iff.1 (by omega)

theorem linksConnect_of_single {t : Numa} (hone : t.online.length ≤ 1) :
    LinksConnect t ((range t.cpuNodes.length).map t.device) := by
  intro i n hi
  have hn : n ∈ t.online := t.cpuNodes_sublist.subset (mem_of_getElem? hi)
  refine ⟨t.device i, t.getElem?_devices hi, t.device_proximityDomain i,
    t.device_cpuCoreIdBase hi, ?_⟩
  rw [t.others_eq_nil hone hn, t.device_ioLinkProps (t.domain_lt hi)]
  split
  case isTrue hmem =>
    rw [t.others_eq_nil hone (t.cpuNodes_sublist.subset hmem)]
    exact .nil
  case isFalse => exact .nil

theorem linksConnect_of_range {t : Numa} (hrange : t.online = range t.online.length)
    (hcpu : ∀ n ∈ t.online, t.apicId n ≠ noApicId) :
    LinksConnect t ((range t.cpuNodes.length).map t.device) := by
  have hnodes : t.cpuNodes = range t.online.length := by
    rw [Numa.cpuNodes, filter_eq_self.2 fun n hn => decide_eq_true (hcpu n hn)]
    exact hrange
  intro i n hi
  have hin : i = n ∧ i < t.online.length := by
    rw [hnodes] at hi
    obtain ⟨hlt, heq⟩ := List.getElem?_eq_some_iff.1 hi
    rw [getElem_range] at heq
    exact ⟨heq, by rwa [length_range] at hlt⟩
  obtain ⟨rfl, hlt⟩ := hin
  have hmem : i ∈ t.cpuNodes := mem_of_getElem? hi
  refine ⟨t.device i, t.getElem?_devices hi, t.device_proximityDomain i,
    t.device_cpuCoreIdBase hi, ?_⟩
  rw [t.device_ioLinkProps (t.domain_lt hi), if_pos hmem, forall₂_map_right_iff,
    forall₂_same]
  intro m hm
  have hm' : m ∈ t.online := mem_of_mem_filter hm
  refine ⟨rfl, ?_⟩
  show t.cpuNodes[(UInt32.ofNat m).toNat]? = some m
  rw [toNat_node t hm', hnodes]
  exact getElem?_range (mem_range.1 (hrange ▸ hm'))

theorem LinksConnect.dense {t : Numa}
    (h : LinksConnect t ((range t.cpuNodes.length).map t.device)) : t.Dense := by
  rcases lt_or_ge 1 t.online.length with htwo | hone
  case inr => exact .inl hone
  have hdev (i n : Nat) (hi : t.cpuNodes[i]? = some n) :
      i ∈ t.cpuNodes ∧ ∀ m ∈ t.others n, m ∈ t.cpuNodes := by
    obtain ⟨dev, hget, hconn⟩ := h i n hi
    rw [t.getElem?_devices hi] at hget
    cases hget
    have hn : n ∈ t.online := t.cpuNodes_sublist.subset (mem_of_getElem? hi)
    have hlen := hconn.links.length_eq
    rw [t.length_others hn, t.device_ioLinkProps (t.domain_lt hi)] at hlen
    refine ⟨?_, fun m hm => ?_⟩
    · by_contra hnot
      rw [if_neg hnot, length_nil] at hlen
      omega
    · obtain ⟨j, hj, rfl⟩ := getElem_of_mem hm
      have hlink := forall₂_iff_get.1 hconn.links
      exact mem_of_getElem? (hlink.2 j hj (hlink.1 ▸ hj)).2
  have hall : ∀ n ∈ t.online, t.apicId n ≠ noApicId := by
    obtain ⟨c, hon, hcpu⟩ := t.hasCpu
    have hc : c ∈ t.cpuNodes := mem_filter.2 ⟨hon, decide_eq_true hcpu⟩
    obtain ⟨i, hi⟩ := getElem?_of_mem hc
    intro n hn
    by_cases hnc : n = c
    · exact hnc ▸ hcpu
    · have hmem := (hdev i c hi).2 n (mem_filter.2 ⟨hn, decide_eq_true hnc⟩)
      exact of_decide_eq_true (mem_filter.1 hmem).2
  have hnodes : t.cpuNodes = t.online :=
    filter_eq_self.2 fun n hn => decide_eq_true (hall n hn)
  refine .inr ⟨?_, hall⟩
  have hsub : (range t.online.length).Subperm t.online := by
    refine subperm_of_subset nodup_range fun i hi => ?_
    have hlt : i < t.cpuNodes.length := hnodes ▸ mem_range.1 hi
    exact hnodes ▸ (hdev i _ (getElem?_eq_getElem hlt)).1
  have hperm : (range t.online.length).Perm t.online :=
    hsub.perm_of_length_le (le_of_eq length_range.symm)
  exact (hperm.eq_of_pairwise (fun a b _ _ hab hba => absurd hab (lt_asymm hba))
    pairwise_lt_range t.sorted).symm

theorem linksConnect_iff :
    LinksConnect t ((range t.cpuNodes.length).map t.device) ↔ t.Dense := by
  refine ⟨LinksConnect.dense, fun h => ?_⟩
  rcases h with hone | ⟨hrange, hcpu⟩
  · exact linksConnect_of_single hone
  · exact linksConnect_of_range hrange hcpu

/-- **The image of the CPUs and its devices.** The image fits in the buffer that is allocated for
it. Parsing ends, after as many sub-tables as its header has entries and at the length of its
header. The links of the devices connect the domains of the nodes that they were created for
exactly if one node is online, or the nodes are numbered without a gap and all have CPUs. -/
theorem vcrat_links (t : Numa) (known : List TopologyDevice) :
    ∃ image walk, createCratImageVirtual t = .ok (image, image.length) ∧
      image.length ≤ dynSize t ∧ (lengthOf image).toNat = image.length ∧
      (∀ n, (totalEntriesOf image).toNat < n → parseCratTable t known image 0 n = some (.ok walk)) ∧
      walk.visited = (totalEntriesOf image).toNat ∧ walk.off = image.length ∧
      (LinksConnect t walk.topology.devices ↔ t.Dense) := by
  obtain ⟨image, hcreate, hfits, hlen, hparse⟩ := parseCratTable_createCratImageVirtual t known
  exact ⟨image, _, hcreate, hfits, hlen, hparse, rfl, rfl, linksConnect_iff t⟩

def exSparse : Numa :=
  { online := [0, 2], sorted := by decide, online_lt := by decide
    apicId := fun n => UInt32.ofNat n, hasCpu := ⟨0, by decide, by decide⟩, cpus := fun _ => 1
    zonePages := fun _ => [], distance := fun _ _ => 20, amd := true, oem := none
    oem_length := by decide }

/-- The link from node 0 to node 2 goes to domain 2, which does not exist: node 2 has domain 1. -/
theorem vcrat_links_broken :
    exSparse.cpuNodes = [0, 2] ∧
      ∃ image walk, createCratImageVirtual exSparse = .ok (image, image.length) ∧
        (∀ n, (totalEntriesOf image).toNat < n →
          parseCratTable exSparse [] image 0 n = some (.ok walk)) ∧
        walk.topology.devices.map (·.proximityDomain) = [0, 1] ∧
        walk.topology.devices.map (·.ioLinkProps.map (·.nodeTo)) = [[2], []] ∧
        ¬ LinksConnect exSparse walk.topology.devices := by
  obtain ⟨image, hcreate, -, -, hparse⟩ := parseCratTable_createCratImageVirtual exSparse []
  have hdevs : (range exSparse.cpuNodes.length).map exSparse.device =
      [exSparse.device 0, exSparse.device 1] := by rfl
  refine ⟨by decide, image, _, hcreate, hparse, ?_, ?_, fun h => ?_⟩
  · show ((range exSparse.cpuNodes.length).map exSparse.device).map _ = _
    rw [hdevs]
    rfl
  · show ((range exSparse.cpuNodes.length).map exSparse.device).map _ = _
    rw [hdevs]
    simp only [map_cons, exSparse.device_ioLinkProps (show 0 < maxNumnodes by decide),
      exSparse.device_ioLinkProps (show 1 < maxNumnodes by decide)]
    rfl
  · exact absurd ((linksConnect_iff exSparse).1 h) (by decide)

end Amdkfd.Crat
