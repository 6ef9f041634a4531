import Amdkfd.Crat.Model

/-!
# The image of the CPUs is read back

`kfd_parse_crat_table` reads the image that `kfd_create_vcrat_image_cpu` wrote. The proof meets
at the list of sub-tables of the system: the image is a header and the bytes of the list, and
the walk over such bytes applies the list.
-/

namespace Amdkfd.Crat

open Lib
open List hiding beq_eq_decide

/-! ## Fields and structures -/

theorem u8At_append (pre bytes : List UInt8) (off : Nat) :
    u8At (pre ++ bytes) (pre.length + off) = u8At bytes off := by
  rw [u8At, u8At, readAt_append]

theorem u16At_append (pre bytes : List UInt8) (off : Nat) :
    u16At (pre ++ bytes) (pre.length + off) = u16At bytes off := by
  rw [u16At, u16At, readAt_append]

theorem u32At_append (pre bytes : List UInt8) (off : Nat) :
    u32At (pre ++ bytes) (pre.length + off) = u32At bytes off := by
  rw [u32At, u32At, readAt_append]

@[simp] theorem u8At_field (v : UInt8) (rest : List UInt8) :
    u8At (toBytes 1 v.toNat ++ rest) 0 = v := by
  have hlt : v.toNat < 256 ^ 1 := v.toNat_lt
  rw [u8At, readAt_field, Nat.mod_eq_of_lt hlt, UInt8.ofNat_toNat]

@[simp] theorem u16At_field (v : UInt16) (rest : List UInt8) :
    u16At (toBytes 2 v.toNat ++ rest) 0 = v := by
  have hlt : v.toNat < 256 ^ 2 := v.toNat_lt
  rw [u16At, readAt_field, Nat.mod_eq_of_lt hlt, UInt16.ofNat_toNat]

@[simp] theorem u32At_field (v : UInt32) (rest : List UInt8) :
    u32At (toBytes 4 v.toNat ++ rest) 0 = v := by
  have hlt : v.toNat < 256 ^ 4 := v.toNat_lt
  rw [u32At, readAt_field, Nat.mod_eq_of_lt hlt, UInt32.ofNat_toNat]

theorem u8At_skip {m off : Nat} (h : m ≤ off) (v : Nat) (rest : List UInt8) :
    u8At (toBytes m v ++ rest) off = u8At rest (off - m) := by
  rw [u8At, u8At, readAt_skip h]

theorem u16At_skip {m off : Nat} (h : m ≤ off) (v : Nat) (rest : List UInt8) :
    u16At (toBytes m v ++ rest) off = u16At rest (off - m) := by
  rw [u16At, u16At, readAt_skip h]

theorem u32At_skip {m off : Nat} (h : m ≤ off) (v : Nat) (rest : List UInt8) :
    u32At (toBytes m v ++ rest) off = u32At rest (off - m) := by
  rw [u32At, u32At, readAt_skip h]

theorem genericAt_append (pre bytes : List UInt8) :
    genericAt (pre ++ bytes) pre.length = genericAt bytes 0 := by
  have hzero : u8At (pre ++ bytes) pre.length = u8At bytes 0 := u8At_append pre bytes 0
  simp only [genericAt, hzero, u8At_append, u32At_append, zero_add]

theorem computeunitAt_append (pre bytes : List UInt8) :
    computeunitAt (pre ++ bytes) pre.length = computeunitAt bytes 0 := by
  simp only [computeunitAt, genericAt_append, u8At_append, u16At_append, u32At_append, zero_add]

theorem memoryAt_append (pre bytes : List UInt8) :
    memoryAt (pre ++ bytes) pre.length = memoryAt bytes 0 := by
  simp only [memoryAt, genericAt_append, u8At_append, u32At_append, zero_add]

theorem iolinkAt_append (pre bytes : List UInt8) :
    iolinkAt (pre ++ bytes) pre.length = iolinkAt bytes 0 := by
  simp only [iolinkAt, genericAt_append, u8At_append, u16At_append, u32At_append, zero_add]

@[simp] theorem Generic.length_bytes (g : Generic) : g.bytes.length = genericSize := by
  simp only [Generic.bytes, length_append, length_toBytes, genericSize]

@[simp] theorem Computeunit.length_bytes (c : Computeunit) : c.bytes.length = computeunitSize := by
  simp only [Computeunit.bytes, length_append, length_toBytes, Generic.length_bytes,
    genericSize, computeunitSize]

@[simp] theorem Memory.length_bytes (m : Memory) : m.bytes.length = memorySize := by
  simp only [Memory.bytes, length_append, length_toBytes, Generic.length_bytes,
    genericSize, memorySize]

@[simp] theorem Iolink.length_bytes (l : Iolink) : l.bytes.length = iolinkSize := by
  simp only [Iolink.bytes, length_append, length_toBytes, Generic.length_bytes,
    genericSize, iolinkSize]

theorem genericAt_bytes (g : Generic) (rest : List UInt8) : genericAt (g.bytes ++ rest) 0 = g := by
  simp (disch := decide) only [genericAt, Generic.bytes, append_assoc, u8At_field,
    u8At_skip, u32At_skip, u32At_field, Nat.reduceAdd, Nat.reduceSub]

theorem computeunitAt_bytes (c : Computeunit) (rest : List UInt8) :
    computeunitAt (c.bytes ++ rest) 0 = c := by
  have hgen : genericAt (c.bytes ++ rest) 0 = c.toGeneric := by
    rw [Computeunit.bytes, append_assoc, genericAt_bytes]
  rw [computeunitAt, hgen]
  simp (disch := decide) only [Computeunit.bytes, Generic.bytes, append_assoc, u8At_field,
    u16At_field, u32At_field, u8At_skip, u16At_skip, u32At_skip, Nat.reduceAdd, Nat.reduceSub]

theorem memoryAt_bytes (m : Memory) (rest : List UInt8) : memoryAt (m.bytes ++ rest) 0 = m := by
  have hgen : genericAt (m.bytes ++ rest) 0 = m.toGeneric := by
    rw [Memory.bytes, append_assoc, genericAt_bytes]
  rw [memoryAt, hgen]
  simp (disch := decide) only [Memory.bytes, Generic.bytes, append_assoc, u8At_field,
    u32At_field, u8At_skip, u32At_skip, Nat.reduceAdd, Nat.reduceSub]

theorem iolinkAt_bytes (l : Iolink) (rest : List UInt8) : iolinkAt (l.bytes ++ rest) 0 = l := by
  have hgen : genericAt (l.bytes ++ rest) 0 = l.toGeneric := by
    rw [Iolink.bytes, append_assoc, genericAt_bytes]
  rw [iolinkAt, hgen]
  simp (disch := decide) only [Iolink.bytes, Generic.bytes, append_assoc, u8At_field,
    u16At_field, u32At_field, u8At_skip, u16At_skip, u32At_skip, Nat.reduceAdd, Nat.reduceSub]

/-! ## Sub-tables -/

/-- A sub-table of an image of CPUs. -/
inductive Sub where
  | cu (c : Computeunit)
  | mem (m : Memory)
  | link (l : Iolink)

def Sub.generic : Sub → Generic
  | .cu c => c.toGeneric
  | .mem m => m.toGeneric
  | .link l => l.toGeneric

def Sub.bytes : Sub → List UInt8
  | .cu c => c.bytes
  | .mem m => m.bytes
  | .link l => l.bytes

/-- The sub-table has the type and the length of its structure, it is enabled, and a link has one
direction. -/
def Sub.WellFormed : Sub → Prop
  | .cu c => c.type = 0 ∧ c.length = 40 ∧ c.flags &&& flagsEnabled ≠ 0
  | .mem m => m.type = 1 ∧ m.length = 40 ∧ m.flags &&& flagsEnabled ≠ 0
  | .link l => l.type = 5 ∧ l.length = 64 ∧ l.flags &&& flagsEnabled ≠ 0 ∧
      l.flags &&& iolinkFlagsBiDirectional = 0

def Sub.apply (t : Numa) : Sub → List TopologyDevice → List TopologyDevice
  | .cu c, devs => parseSubtypeCu c devs
  | .mem m, devs => parseSubtypeMem m devs
  | .link l, devs =>
    updateFirst (l.proximityDomainFrom = ·.proximityDomain) (·.addLink (iolinkProperties t l)) devs

variable {s : Sub} {node : Nat} {nodes : List Nat}

theorem Sub.WellFormed.enabled (h : s.WellFormed) : s.generic.flags &&& flagsEnabled ≠ 0 := by
  cases s with
  | cu c | mem m => exact h.2.2
  | link l => exact h.2.2.1

theorem Sub.WellFormed.length (h : s.WellFormed) : s.generic.length.toNat = s.bytes.length := by
  cases s with
  | cu c => exact (congrArg UInt8.toNat h.2.1).trans c.length_bytes.symm
  | mem m => exact (congrArg UInt8.toNat h.2.1).trans m.length_bytes.symm
  | link l => exact (congrArg UInt8.toNat h.2.1).trans l.length_bytes.symm

theorem Sub.genericSize_lt (s : Sub) : genericSize < s.bytes.length := by
  cases s with
  | cu c => exact c.length_bytes ▸ (by decide : genericSize < computeunitSize)
  | mem m => exact m.length_bytes ▸ (by decide : genericSize < memorySize)
  | link l => exact l.length_bytes ▸ (by decide : genericSize < iolinkSize)

theorem Sub.genericAt (s : Sub) (pre post : List UInt8) :
    genericAt (pre ++ (s.bytes ++ post)) pre.length = s.generic := by
  rw [genericAt_append]
  cases s with
  | cu c => exact congrArg Computeunit.toGeneric (computeunitAt_bytes c post)
  | mem m => exact congrArg Memory.toGeneric (memoryAt_bytes m post)
  | link l => exact congrArg Iolink.toGeneric (iolinkAt_bytes l post)

theorem Sub.WellFormed.parseSubtype (h : s.WellFormed) (t : Numa) (pre post : List UInt8)
    (tp : Topology) :
    parseSubtype t (pre ++ (s.bytes ++ post)) pre.length tp =
      .ok { tp with devices := s.apply t tp.devices } := by
  rw [Crat.parseSubtype, s.genericAt]
  cases s with
  | cu c =>
    have htype : (Sub.cu c).generic.type.toNat = 0 := congrArg UInt8.toNat h.1
    simp only [htype, Sub.bytes, computeunitAt_append, computeunitAt_bytes, Sub.apply]
  | mem m =>
    have htype : (Sub.mem m).generic.type.toNat = 1 := congrArg UInt8.toNat h.1
    simp only [htype, Sub.bytes, memoryAt_append, memoryAt_bytes, Sub.apply]
  | link l =>
    have htype : (Sub.link l).generic.type.toNat = 5 := congrArg UInt8.toNat h.1
    simp only [htype, Sub.bytes, iolinkAt_append, iolinkAt_bytes, Sub.apply, parseSubtypeIolink,
      h.2.2.2, ne_eq, not_true_eq_false, and_false, if_false]

def bytesOf (subs : List Sub) : List UInt8 := subs.flatMap Sub.bytes

variable (t : Numa)

theorem parseLoop_bytesOf {subs : List Sub} (hwf : ∀ s ∈ subs, s.WellFormed) (pre : List UInt8)
    (w : Walk) (hoff : w.off = pre.length) {n : Nat} (hn : subs.length < n) :
    parseLoop t (pre ++ bytesOf subs) (pre.length + (bytesOf subs).length) n w =
      some (.ok
        { topology :=
            { w.topology with
              devices := subs.foldl (fun devs s => s.apply t devs) w.topology.devices }
          visited := w.visited + subs.length
          off := pre.length + (bytesOf subs).length }) := by
  induction subs generalizing pre w n with
  | nil =>
    obtain ⟨n, rfl⟩ := Nat.exists_eq_succ_of_ne_zero (ne_of_gt hn)
    have hend : ¬ w.off + genericSize < pre.length + (bytesOf []).length := by
      rw [hoff]
      exact not_lt.2 (Nat.add_le_add_left (Nat.zero_le _) _)
    rw [parseLoop, if_neg hend]
    cases w
    simp only at hoff
    simp only [hoff, foldl_nil, length_nil, add_zero, bytesOf, flatMap_nil]
  | cons s subs ih =>
    obtain ⟨n, rfl⟩ := Nat.exists_eq_succ_of_ne_zero (ne_of_gt (Nat.zero_lt_of_lt hn))
    have hs : s.WellFormed := hwf s mem_cons_self
    have hcons : bytesOf (s :: subs) = s.bytes ++ bytesOf subs := flatMap_cons
    have hmore : w.off + genericSize < pre.length + (bytesOf (s :: subs)).length := by
      have hsize := s.genericSize_lt
      rw [hcons, length_append]
      omega
    have hassoc : pre ++ (s.bytes ++ bytesOf subs) = (pre ++ s.bytes) ++ bytesOf subs :=
      (append_assoc ..).symm
    have hlen : pre.length + (s.bytes ++ bytesOf subs).length =
        (pre ++ s.bytes).length + (bytesOf subs).length := by
      rw [length_append, length_append, add_assoc]
    rw [parseLoop, if_pos hmore]
    simp only [hcons, hoff, s.genericAt, if_pos hs.enabled, hs.parseSubtype]
    rw [hassoc, hlen, ih (fun s' hs' => hwf s' (mem_cons_of_mem _ hs')) (pre ++ s.bytes) _
      (by rw [length_append, hs.length]) (Nat.lt_of_succ_lt_succ hn)]
    simp only [foldl_cons, length_cons, add_assoc, add_comm 1]

/-! ## The image -/

def Numa.others (t : Numa) (node : Nat) : List Nat := t.online.filter (· ≠ node)

/-- The nodes with CPUs, in the order of their proximity domains. -/
def Numa.cpuNodes (t : Numa) : List Nat := t.online.filter (t.apicId · ≠ noApicId)

def nodeSubs (t : Numa) (domain node : Nat) : List Sub :=
  .cu (cuForCpu t node (UInt16.ofNat domain)) :: .mem (memForCpu t node (UInt16.ofNat domain)) ::
    (t.others node).map fun nid => .link (iolinkForCpu t node nid)

def subsFrom (t : Numa) : Nat → List Nat → List Sub
  | _, [] => []
  | domain, node :: nodes => nodeSubs t domain node ++ subsFrom t (domain + 1) nodes

theorem bytesOf_append (subs subs' : List Sub) :
    bytesOf (subs ++ subs') = bytesOf subs ++ bytesOf subs' :=
  flatMap_append

theorem length_bytesOf_links (node : Nat) (nids : List Nat) :
    (bytesOf (nids.map fun nid => .link (iolinkForCpu t node nid))).length =
      iolinkSize * nids.length := by
  induction nids with
  | nil => rfl
  | cons nid nids ih =>
    have hcons : bytesOf (.link (iolinkForCpu t node nid) ::
        nids.map fun nid => .link (iolinkForCpu t node nid)) =
        (iolinkForCpu t node nid).bytes ++
          bytesOf (nids.map fun nid => .link (iolinkForCpu t node nid)) := flatMap_cons
    rw [map_cons, hcons, length_append, ih, Iolink.length_bytes, length_cons,
      Nat.mul_succ, add_comm]

theorem bytesOf_nodeSubs (domain node : Nat) :
    bytesOf (nodeSubs t domain node) =
      (cuForCpu t node (UInt16.ofNat domain)).bytes ++
        ((memForCpu t node (UInt16.ofNat domain)).bytes ++
          bytesOf ((t.others node).map fun nid => .link (iolinkForCpu t node nid))) :=
  rfl

theorem length_bytesOf_nodeSubs (domain node : Nat) :
    (bytesOf (nodeSubs t domain node)).length =
      computeunitSize + (memorySize + iolinkSize * (t.others node).length) := by
  rw [bytesOf_nodeSubs, length_append, length_append, length_bytesOf_links,
    Computeunit.length_bytes, Memory.length_bytes]

theorem fillIolinks_eq (node : Nat) {nids : List Nat} {availSize : Int}
    (h : (iolinkSize * (nids.filter (· ≠ node)).length : Nat) ≤ availSize) :
    fillIolinks t node nids availSize =
      .ok (availSize - (iolinkSize * (nids.filter (· ≠ node)).length : Nat),
        bytesOf ((nids.filter (· ≠ node)).map fun nid => .link (iolinkForCpu t node nid)),
        (nids.filter (· ≠ node)).length) := by
  induction nids generalizing availSize with
  | nil => simp only [fillIolinks, filter_nil, length_nil, mul_zero, Nat.cast_zero,
      Int.sub_zero, map_nil, bytesOf, flatMap_nil]
  | cons nid nids ih =>
    rw [fillIolinks]
    by_cases hself : nid = node
    · have hfilter : (nid :: nids).filter (· ≠ node) = nids.filter (· ≠ node) :=
        filter_cons_of_neg (by simp only [hself, ne_eq, not_true_eq_false, decide_false,
          Bool.false_eq_true, not_false_eq_true])
      rw [if_pos hself, hfilter, ih (hfilter ▸ h)]
    · have hfilter : (nid :: nids).filter (· ≠ node) = nid :: nids.filter (· ≠ node) :=
        filter_cons_of_pos (decide_eq_true hself)
      rw [hfilter, length_cons, Nat.mul_succ, Nat.cast_add] at h
      have hroom : ¬ availSize - iolinkSize < 0 := by omega
      rw [if_neg hself, if_neg hroom, ih (by omega), hfilter]
      simp only [length_cons, Nat.mul_succ, Nat.cast_add, map_cons, bytesOf,
        flatMap_cons, Sub.bytes, Int.sub_sub, Int.add_comm]

theorem createNode_eq {d : Draft} (hcpu : t.apicId node ≠ noApicId)
    (h : ((bytesOf (nodeSubs t d.numDomains node)).length : Int) ≤ d.availSize) :
    createNode t d node =
      .ok
        { length := d.length + (bytesOf (nodeSubs t d.numDomains node)).length
          totalEntries := d.totalEntries + (nodeSubs t d.numDomains node).length
          numDomains := d.numDomains + 1
          body := d.body ++ bytesOf (nodeSubs t d.numDomains node)
          availSize := d.availSize - (bytesOf (nodeSubs t d.numDomains node)).length } := by
  rw [length_bytesOf_nodeSubs, Nat.cast_add, Nat.cast_add] at h
  have hcu : ¬ d.availSize - computeunitSize < 0 := by omega
  have hmem : ¬ d.availSize - computeunitSize - memorySize < 0 := by omega
  have hlinks : (iolinkSize * (t.others node).length : Nat) ≤
      d.availSize - computeunitSize - memorySize := by omega
  have hfill := fillIolinks_eq t node hlinks
  rw [createNode, if_neg hcpu, fillCuForCpu, if_neg hcu, if_neg hcpu]
  simp only [fillMemInfoForCpu, if_neg hmem, fillIolinkInfoForCpu, hfill]
  rw [length_bytesOf_nodeSubs, bytesOf_nodeSubs]
  simp only [Except.ok.injEq, Draft.mk.injEq, Nat.cast_add, nodeSubs, length_cons,
    length_map, true_and]
  refine ⟨?_, ?_, rfl, ?_⟩
  · simp only [Numa.others, add_assoc]
  · simp only [Numa.others]
    omega
  · simp only [Numa.others]
    omega

theorem Numa.nodup : t.online.Nodup :=
  t.sorted.imp fun h => ne_of_lt h

theorem Numa.length_others (h : node ∈ t.online) :
    (t.others node).length = t.online.length - 1 := by
  have herase : t.others node = t.online.erase node := by
    rw [List.Nodup.erase_eq_filter t.nodup]
    exact filter_congr fun m _ => by rw [bne, beq_eq_decide, decide_not]
  rw [herase, length_erase_of_mem h]

/-- What `kfd_create_crat_image_virtual` reserves for a node. -/
def Numa.nodeSize (t : Numa) : Nat :=
  computeunitSize + memorySize + (t.online.length - 1) * iolinkSize

theorem length_bytesOf_node (domain : Nat) (h : node ∈ t.online) :
    (bytesOf (nodeSubs t domain node)).length = t.nodeSize := by
  rw [length_bytesOf_nodeSubs, t.length_others h, Numa.nodeSize, add_assoc, mul_comm]

theorem foldlM_createNode (hon : ∀ n ∈ nodes, n ∈ t.online) {d : Draft}
    (hroom : (nodes.length * t.nodeSize : Nat) ≤ d.availSize) :
    ∃ d', nodes.foldlM (createNode t) d = .ok d' ∧
      d'.length = d.length + (bytesOf (subsFrom t d.numDomains
        (nodes.filter (t.apicId · ≠ noApicId)))).length ∧
      d'.totalEntries = d.totalEntries + (subsFrom t d.numDomains
        (nodes.filter (t.apicId · ≠ noApicId))).length ∧
      d'.numDomains = d.numDomains + (nodes.filter (t.apicId · ≠ noApicId)).length ∧
      d'.body = d.body ++ bytesOf (subsFrom t d.numDomains
        (nodes.filter (t.apicId · ≠ noApicId))) := by
  induction nodes generalizing d with
  | nil =>
    refine ⟨d, rfl, ?_, ?_, ?_, ?_⟩ <;>
      simp only [filter_nil, subsFrom, bytesOf, flatMap_nil, length_nil,
        add_zero, append_nil]
  | cons node nodes ih =>
    have hnode : node ∈ t.online := hon node mem_cons_self
    have hrest : ∀ n ∈ nodes, n ∈ t.online := fun n hn => hon n (mem_cons_of_mem _ hn)
    rw [length_cons, Nat.succ_mul, Nat.cast_add] at hroom
    by_cases hcpu : t.apicId node = noApicId
    · have hfilter : (node :: nodes).filter (t.apicId · ≠ noApicId) =
          nodes.filter (t.apicId · ≠ noApicId) :=
        filter_cons_of_neg (by simp only [hcpu, ne_eq, not_true_eq_false, decide_false,
          Bool.false_eq_true, not_false_eq_true])
      have hstep : createNode t d node = .ok d := if_pos hcpu
      rw [hfilter, foldlM_cons, hstep]
      exact ih hrest (by omega)
    · have hfilter : (node :: nodes).filter (t.apicId · ≠ noApicId) =
          node :: nodes.filter (t.apicId · ≠ noApicId) :=
        filter_cons_of_pos (decide_eq_true hcpu)
      have hsize := length_bytesOf_node t d.numDomains hnode
      have hstep := createNode_eq t hcpu (d := d) (by rw [hsize]; omega)
      rw [hfilter, foldlM_cons, hstep]
      obtain ⟨d', heq, hlen, htot, hdom, hbody⟩ := ih hrest
        (d :=
          { length := d.length + (bytesOf (nodeSubs t d.numDomains node)).length
            totalEntries := d.totalEntries + (nodeSubs t d.numDomains node).length
            numDomains := d.numDomains + 1
            body := d.body ++ bytesOf (nodeSubs t d.numDomains node)
            availSize := d.availSize - (bytesOf (nodeSubs t d.numDomains node)).length })
        (by simp only [hsize]; omega)
      refine ⟨d', heq, ?_, ?_, ?_, ?_⟩
      · rw [hlen, subsFrom, bytesOf_append, length_append, add_assoc]
      · rw [htot, subsFrom, length_append, add_assoc]
      · rw [hdom, length_cons, add_assoc, add_comm 1]
      · rw [hbody, subsFrom, bytesOf_append, append_assoc]

def Numa.subs (t : Numa) : List Sub := subsFrom t 0 t.cpuNodes

theorem Numa.cpuNodes_sublist : t.cpuNodes.Sublist t.online :=
  filter_sublist

theorem length_bytesOf_subsFrom (hon : ∀ n ∈ nodes, n ∈ t.online) (domain : Nat) :
    (bytesOf (subsFrom t domain nodes)).length = nodes.length * t.nodeSize := by
  induction nodes generalizing domain with
  | nil => rw [length_nil, zero_mul]; rfl
  | cons node nodes ih =>
    rw [subsFrom, bytesOf_append, length_append,
      ih (fun n hn => hon n (mem_cons_of_mem _ hn)),
      length_bytesOf_node t domain (hon node mem_cons_self), length_cons, Nat.succ_mul,
      add_comm]

theorem length_subsFrom (hon : ∀ n ∈ nodes, n ∈ t.online) (domain : Nat) :
    (subsFrom t domain nodes).length = nodes.length * (t.online.length + 1) := by
  induction nodes generalizing domain with
  | nil => rw [length_nil, zero_mul]; rfl
  | cons node nodes ih =>
    have hnode : node ∈ t.online := hon node mem_cons_self
    have hpos : 0 < t.online.length := length_pos_of_mem hnode
    rw [subsFrom, length_append, ih (fun n hn => hon n (mem_cons_of_mem _ hn)),
      nodeSubs, length_cons, length_cons, length_map, t.length_others hnode,
      length_cons, Nat.succ_mul]
    omega

theorem Numa.length_online : t.online.length ≤ maxNumnodes := by
  have hsub : t.online.Subperm (range maxNumnodes) :=
    subperm_of_subset t.nodup fun n hn => mem_range.2 (t.online_lt n hn)
  exact hsub.length_le.trans_eq length_range

/-! ### The header -/

theorem Draft.header_oem (d : Draft) :
    (d.header t).oemId.length = 6 ∧ (d.header t).oemTableId.length = 8 := by
  cases ho : t.oem with
  | none => simp only [Draft.header, ho, Option.map_none, Option.getD_none,
      length_replicate, and_self]
  | some o =>
    have hlen := t.oem_length o ho
    simp only [Draft.header, ho, Option.map_some, Option.getD_some]
    exact hlen

theorem Header.lengthOf_bytes (h : Header) (rest : List UInt8) :
    lengthOf (h.bytes ++ rest) = h.length := by
  simp (disch := decide) only [lengthOf, Header.bytes, append_assoc, u32At_skip,
    u32At_field, Nat.sub_self]

section Header

variable {h : Header} (hid : h.oemId.length = 6) (htable : h.oemTableId.length = 8)

include hid htable

theorem Header.length_bytes : h.bytes.length = headerSize := by
  simp only [Header.bytes, length_append, length_toBytes, hid, htable, headerSize]

theorem Header.bytes_split (rest : List UInt8) :
    ∃ pre : List UInt8, pre.length = 36 ∧
      h.bytes ++ rest = pre ++ (toBytes 4 h.totalEntries.toNat ++
        (toBytes 2 h.numDomains.toNat ++ (toBytes 6 0 ++ rest))) := by
  refine ⟨toBytes 4 h.signature.toNat ++ (toBytes 4 h.length.toNat ++
    (toBytes 1 h.revision.toNat ++ (toBytes 1 h.checksum.toNat ++ (h.oemId ++ (h.oemTableId ++
    (toBytes 4 h.oemRevision.toNat ++ (toBytes 4 h.creatorId.toNat ++
    toBytes 4 h.creatorRevision.toNat))))))), ?_, ?_⟩
  · simp only [length_append, length_toBytes, hid, htable]
  · simp only [Header.bytes, append_assoc]

theorem Header.totalEntriesOf_bytes (rest : List UInt8) :
    totalEntriesOf (h.bytes ++ rest) = h.totalEntries := by
  obtain ⟨pre, hpre, hsplit⟩ := Header.bytes_split hid htable rest
  have happ := u32At_append pre (toBytes 4 h.totalEntries.toNat ++
    (toBytes 2 h.numDomains.toNat ++ (toBytes 6 0 ++ rest))) 0
  rw [totalEntriesOf, hsplit, ← hpre]
  exact happ.trans (u32At_field _ _)

theorem Header.numDomainsOf_bytes (rest : List UInt8) :
    numDomainsOf (h.bytes ++ rest) = h.numDomains := by
  obtain ⟨pre, hpre, hsplit⟩ := Header.bytes_split hid htable rest
  have happ := u16At_append pre (toBytes 4 h.totalEntries.toNat ++
    (toBytes 2 h.numDomains.toNat ++ (toBytes 6 0 ++ rest))) 4
  rw [numDomainsOf, hsplit, show 40 = pre.length + 4 by rw [hpre], happ,
    u16At_skip (le_refl 4), Nat.sub_self, u16At_field]

end Header

theorem createCratImageVirtual_eq :
    ∃ image, createCratImageVirtual t = .ok (image, image.length) ∧
      image.length ≤ dynSize t ∧
      (∃ pre : List UInt8, pre.length = headerSize ∧ image = pre ++ bytesOf t.subs) ∧
      (lengthOf image).toNat = image.length ∧
      (totalEntriesOf image).toNat = t.subs.length ∧
      (numDomainsOf image).toNat = t.cpuNodes.length := by
  have hcount := t.cpuNodes_sublist.length_le
  have hmax : t.online.length ≤ 1024 := t.length_online
  have hon : ∀ n ∈ t.cpuNodes, n ∈ t.online := fun n hn => t.cpuNodes_sublist.subset hn
  have hbytes : (bytesOf t.subs).length ≤ t.online.length * t.nodeSize := by
    rw [Numa.subs, length_bytesOf_subsFrom t hon]
    exact Nat.mul_le_mul_right _ hcount
  have hsubs : t.subs.length ≤ 1024 * 1025 := by
    rw [Numa.subs, length_subsFrom t hon]
    exact Nat.mul_le_mul (hcount.trans hmax) (Nat.succ_le_succ hmax)
  have hnode : t.nodeSize ≤ 80 + 1023 * 64 :=
    Nat.add_le_add_left (Nat.mul_le_mul_right _ (Nat.sub_le_sub_right hmax 1)) _
  have hsize : t.online.length * t.nodeSize ≤ 1024 * (80 + 1023 * 64) := Nat.mul_le_mul hmax hnode
  have hdyn : dynSize t = headerSize + t.online.length * t.nodeSize := rfl
  obtain ⟨d, hfold, hlen, htot, hdom, hbody⟩ := foldlM_createNode t (fun _ hn => hn)
    (d := { length := headerSize, totalEntries := 0, numDomains := 0, body := []
            availSize := (dynSize t : Int) - headerSize }) (by simp only [hdyn]; omega)
  obtain ⟨hid, htable⟩ := d.header_oem t
  have hhead := Header.length_bytes hid htable
  replace hlen : d.length = headerSize + (bytesOf t.subs).length := hlen
  replace htot : d.totalEntries = t.subs.length := htot.trans (zero_add _)
  replace hdom : d.numDomains = t.cpuNodes.length := hdom.trans (zero_add _)
  replace hbody : d.body = bytesOf t.subs := hbody
  have himage : ((d.header t).bytes ++ d.body).length = d.length := by
    rw [length_append, hhead, hbody, hlen]
  have hroom : ¬ (dynSize t : Int) - headerSize < 0 := by omega
  have hsmall : headerSize = 48 := rfl
  refine ⟨(d.header t).bytes ++ d.body, ?_, ?_, ⟨_, hhead, by rw [hbody]⟩, ?_, ?_, ?_⟩
  · rw [createCratImageVirtual, createVcratImageCpu, if_neg hroom, hfold, himage]
  · omega
  · rw [Header.lengthOf_bytes, himage]
    exact Nat.mod_eq_of_lt (by omega)
  · rw [Header.totalEntriesOf_bytes hid htable, ← htot]
    exact Nat.mod_eq_of_lt (by omega)
  · rw [Header.numDomainsOf_bytes hid htable, ← hdom]
    exact Nat.mod_eq_of_lt (by omega)

/-! ## The devices -/

variable {devs : List TopologyDevice} {nodes : List Nat} {i : Nat}

theorem updateFirst_eq_map (hdistinct : devs.Pairwise (·.proximityDomain ≠ ·.proximityDomain))
    (domain : UInt32) (f : TopologyDevice → TopologyDevice) :
    updateFirst (domain = ·.proximityDomain) f devs =
      devs.map fun dev => if domain = dev.proximityDomain then f dev else dev := by
  induction devs with
  | nil => rfl
  | cons dev devs ih =>
    obtain ⟨hdev, hdevs⟩ := pairwise_cons.1 hdistinct
    rw [updateFirst, map_cons]
    by_cases heq : domain = dev.proximityDomain
    · have hrest : (devs.map fun dev => if domain = dev.proximityDomain then f dev else dev) =
          devs := by
        rw [map_congr_left fun dev' hmem => if_neg (heq ▸ hdev dev' hmem), map_id']
      rw [if_pos (decide_eq_true heq), if_pos heq, hrest]
    · rw [if_neg (by simpa using heq), if_neg heq, ih hdevs]

def Sub.applyDev (t : Numa) (dev : TopologyDevice) : Sub → TopologyDevice
  | .cu c =>
    if c.proximityDomain = dev.proximityDomain then
      let dev := if c.flags &&& cuFlagsCpuPresent ≠ 0 then populatedCuInfoCpu c dev else dev
      if c.flags &&& cuFlagsGpuPresent ≠ 0 then populatedCuInfoGpu c dev else dev
    else dev
  | .mem m =>
    if m.proximityDomain = dev.proximityDomain then
      { dev with
        memProps := addBank
          { heapType := heapType m dev, flags := memFlags m
            sizeInBytes := (m.lengthHigh.toUInt64 <<< 32) + m.lengthLow.toUInt64
            width := m.width }
          dev.memProps }
    else dev
  | .link l =>
    if l.proximityDomainFrom = dev.proximityDomain then dev.addLink (iolinkProperties t l)
    else dev

@[simp] theorem Sub.applyDev_proximityDomain (dev : TopologyDevice) (s : Sub) :
    (s.applyDev t dev).proximityDomain = dev.proximityDomain := by
  cases s with
  | cu c =>
    rw [Sub.applyDev]
    split
    · simp only
      split <;> split <;> rfl
    · rfl
  | mem m | link l => rw [Sub.applyDev]; split <;> rfl

theorem Sub.apply_eq_map (s : Sub)
    (hdistinct : devs.Pairwise (·.proximityDomain ≠ ·.proximityDomain)) :
    s.apply t devs = devs.map (s.applyDev t ·) := by
  cases s with
  | cu c | mem m | link l => exact updateFirst_eq_map hdistinct _ _

theorem foldl_apply_eq_map (subs : List Sub)
    (hdistinct : devs.Pairwise (·.proximityDomain ≠ ·.proximityDomain)) :
    subs.foldl (fun devs s => s.apply t devs) devs =
      devs.map fun dev => subs.foldl (Sub.applyDev t) dev := by
  induction subs generalizing devs with
  | nil => exact (map_id' devs).symm
  | cons s subs ih =>
    have hmap : (devs.map (s.applyDev t ·)).Pairwise (·.proximityDomain ≠ ·.proximityDomain) := by
      rw [pairwise_map]
      simpa only [Sub.applyDev_proximityDomain] using hdistinct
    rw [foldl_cons, s.apply_eq_map t hdistinct, ih hmap, map_map]
    rfl

def linksFrom (domain : UInt32) (subs : List Sub) : List Iolink :=
  subs.filterMap fun
    | .link l => if l.proximityDomainFrom = domain then some l else none
    | _ => none

theorem foldl_applyDev_proximityDomain (subs : List Sub) (dev : TopologyDevice) :
    (subs.foldl (Sub.applyDev t) dev).proximityDomain = dev.proximityDomain := by
  induction subs generalizing dev with
  | nil => rfl
  | cons s subs ih => rw [foldl_cons, ih, Sub.applyDev_proximityDomain]

theorem foldl_applyDev_ioLinkProps (subs : List Sub) (dev : TopologyDevice) :
    (subs.foldl (Sub.applyDev t) dev).ioLinkProps =
      dev.ioLinkProps ++ (linksFrom dev.proximityDomain subs).map (iolinkProperties t) := by
  induction subs generalizing dev with
  | nil => exact (append_nil _).symm
  | cons s subs ih =>
    rw [foldl_cons, ih, Sub.applyDev_proximityDomain]
    cases s with
    | cu c =>
      have hkeep : ((Sub.cu c).applyDev t dev).ioLinkProps = dev.ioLinkProps := by
        rw [Sub.applyDev]
        split
        · simp only
          split <;> split <;> rfl
        · rfl
      rw [hkeep]
      rfl
    | mem m =>
      have hkeep : ((Sub.mem m).applyDev t dev).ioLinkProps = dev.ioLinkProps := by
        rw [Sub.applyDev]
        split <;> rfl
      rw [hkeep]
      rfl
    | link l =>
      by_cases hfrom : l.proximityDomainFrom = dev.proximityDomain
      · have hlinks : linksFrom dev.proximityDomain (.link l :: subs) =
            l :: linksFrom dev.proximityDomain subs := by
          simp only [linksFrom, filterMap_cons, if_pos hfrom]
        rw [Sub.applyDev, if_pos hfrom, hlinks]
        simp only [TopologyDevice.addLink, map_cons, append_assoc, cons_append,
          nil_append]
      · have hlinks : linksFrom dev.proximityDomain (.link l :: subs) =
            linksFrom dev.proximityDomain subs := by
          simp only [linksFrom, filterMap_cons, if_neg hfrom]
        rw [Sub.applyDev, if_neg hfrom, hlinks]

/-! ### The devices of the system -/

theorem linksFrom_append (domain : UInt32) (subs subs' : List Sub) :
    linksFrom domain (subs ++ subs') = linksFrom domain subs ++ linksFrom domain subs' :=
  filterMap_append

theorem linksFrom_nodeSubs (i node : Nat) (domain : UInt32) :
    linksFrom domain (nodeSubs t i node) =
      if UInt32.ofNat node = domain then (t.others node).map (iolinkForCpu t node) else [] := by
  have hlinks (nids : List Nat) :
      linksFrom domain (nids.map fun nid => .link (iolinkForCpu t node nid)) =
        if UInt32.ofNat node = domain then nids.map (iolinkForCpu t node) else [] := by
    induction nids with
    | nil => exact (ite_self _).symm
    | cons nid nids ih =>
      rw [linksFrom] at ih
      rw [linksFrom, map_cons, filterMap_cons, ih]
      by_cases hfrom : UInt32.ofNat node = domain
      · simp only [iolinkForCpu, hfrom, if_true, map_cons]
      · simp only [iolinkForCpu, hfrom, if_false]
  rw [← hlinks]
  rfl

theorem ofNat_inj {m n : Nat} (hm : m < maxNumnodes) (hn : n < maxNumnodes)
    (h : UInt32.ofNat m = UInt32.ofNat n) : m = n := by
  have htoNat := congrArg UInt32.toNat h
  have hsmall : maxNumnodes < 2 ^ 32 := by decide
  rwa [UInt32.toNat_ofNat_of_lt' (hm.trans hsmall), UInt32.toNat_ofNat_of_lt' (hn.trans hsmall)]
    at htoNat

theorem linksFrom_subsFrom (hnodup : nodes.Nodup) (hlt : ∀ n ∈ nodes, n < maxNumnodes) (i : Nat)
    {j : Nat} (hj : j < maxNumnodes) :
    linksFrom (UInt32.ofNat j) (subsFrom t i nodes) =
      if j ∈ nodes then (t.others j).map (iolinkForCpu t j) else [] := by
  induction nodes generalizing i with
  | nil => rfl
  | cons node nodes ih =>
    obtain ⟨hnot, hnodes⟩ := nodup_cons.1 hnodup
    have hnode := hlt node mem_cons_self
    rw [subsFrom, linksFrom_append, linksFrom_nodeSubs,
      ih hnodes fun n hn => hlt n (mem_cons_of_mem _ hn)]
    by_cases heq : node = j
    · subst heq
      rw [if_pos rfl, if_neg hnot, if_pos mem_cons_self, append_nil]
    · rw [if_neg fun h => heq (ofNat_inj hnode hj h), nil_append]
      by_cases hmem : j ∈ nodes
      · rw [if_pos hmem, if_pos (mem_cons_of_mem _ hmem)]
      · have hcons : j ∉ node :: nodes := fun h =>
          (mem_cons.1 h).elim (fun h => heq h.symm) hmem
        rw [if_neg hmem, if_neg hcons]

theorem foldl_nodeSubs_cpuCoreIdBase (hi : i < maxNumnodes) (node : Nat) (dev : TopologyDevice) :
    ((nodeSubs t i node).foldl (Sub.applyDev t) dev).cpuCoreIdBase =
      if UInt32.ofNat i = dev.proximityDomain then t.apicId node else dev.cpuCoreIdBase := by
  have hlinks (nids : List Nat) (dev : TopologyDevice) :
      ((nids.map fun nid => Sub.link (iolinkForCpu t node nid)).foldl
        (Sub.applyDev t) dev).cpuCoreIdBase = dev.cpuCoreIdBase := by
    induction nids generalizing dev with
    | nil => rfl
    | cons nid nids ih =>
      rw [map_cons, foldl_cons, ih, Sub.applyDev]
      split <;> rfl
  have hdomain : (UInt16.ofNat i).toUInt32 = UInt32.ofNat i := by
    have hmax : maxNumnodes < 2 ^ 16 := by decide
    apply UInt32.toNat_inj.1
    rw [UInt16.toNat_toUInt32, UInt16.toNat_ofNat_of_lt' (hi.trans hmax),
      UInt32.toNat_ofNat_of_lt' (hi.trans (hmax.trans (by decide)))]
  have hmem (dev : TopologyDevice) :
      ((Sub.mem (memForCpu t node (UInt16.ofNat i))).applyDev t dev).cpuCoreIdBase =
        dev.cpuCoreIdBase := by
    rw [Sub.applyDev]
    split <;> rfl
  have hcpu : (flagsEnabled ||| cuFlagsCpuPresent) &&& cuFlagsCpuPresent ≠ 0 := by decide
  have hgpu : ¬ (flagsEnabled ||| cuFlagsCpuPresent) &&& cuFlagsGpuPresent ≠ 0 := by decide
  rw [nodeSubs, foldl_cons, foldl_cons, hlinks, hmem, Sub.applyDev]
  simp only [cuForCpu, hdomain, if_pos hcpu, if_neg hgpu]
  split <;> rfl

theorem foldl_subsFrom_cpuCoreIdBase_of_lt (hlen : i + nodes.length ≤ maxNumnodes) {j : Nat}
    (hji : j < i) {dev : TopologyDevice} (hdev : dev.proximityDomain = UInt32.ofNat j) :
    ((subsFrom t i nodes).foldl (Sub.applyDev t) dev).cpuCoreIdBase = dev.cpuCoreIdBase := by
  induction nodes generalizing i dev with
  | nil => rfl
  | cons node nodes ih =>
    rw [length_cons] at hlen
    have hi : i < maxNumnodes := by omega
    have hne : UInt32.ofNat i ≠ UInt32.ofNat j := fun h =>
      ne_of_gt hji (ofNat_inj hi (hji.trans hi) h)
    rw [subsFrom, foldl_append,
      ih (by omega) (Nat.lt_succ_of_lt hji) (by rw [foldl_applyDev_proximityDomain, hdev]),
      foldl_nodeSubs_cpuCoreIdBase t hi, hdev, if_neg hne]

theorem foldl_subsFrom_cpuCoreIdBase (hlen : i + nodes.length ≤ maxNumnodes) {k node : Nat}
    (hk : nodes[k]? = some node) {dev : TopologyDevice}
    (hdev : dev.proximityDomain = UInt32.ofNat (i + k)) :
    ((subsFrom t i nodes).foldl (Sub.applyDev t) dev).cpuCoreIdBase = t.apicId node := by
  induction nodes generalizing i k dev with
  | nil => cases hk
  | cons node' nodes ih =>
    rw [length_cons] at hlen
    have hi : i < maxNumnodes := by omega
    have hdev' : ((nodeSubs t i node').foldl (Sub.applyDev t) dev).proximityDomain =
        dev.proximityDomain := foldl_applyDev_proximityDomain ..
    rw [subsFrom, foldl_append]
    cases k with
    | zero =>
      cases hk
      rw [foldl_subsFrom_cpuCoreIdBase_of_lt t (by omega) (Nat.lt_succ_self i) (hdev'.trans hdev),
        foldl_nodeSubs_cpuCoreIdBase t hi, hdev, add_zero, if_pos rfl]
    | succ k =>
      refine ih (by omega) hk (hdev'.trans (hdev.trans ?_))
      rw [add_right_comm, add_assoc]

/-! ## The round trip -/

theorem nodeSubs_wellFormed (i node : Nat) : ∀ s ∈ nodeSubs t i node, s.WellFormed := by
  intro s hs
  have hcu : (flagsEnabled ||| cuFlagsCpuPresent) &&& flagsEnabled ≠ 0 := by decide
  have hone : flagsEnabled &&& flagsEnabled ≠ 0 := by decide
  have hdir : flagsEnabled &&& iolinkFlagsBiDirectional = 0 := by decide
  rcases mem_cons.1 hs with rfl | hs
  · exact ⟨rfl, rfl, hcu⟩
  rcases mem_cons.1 hs with rfl | hs
  · exact ⟨rfl, rfl, hone⟩
  obtain ⟨nid, -, rfl⟩ := mem_map.1 hs
  exact ⟨rfl, rfl, hone, hdir⟩

theorem subsFrom_wellFormed (i : Nat) (nodes : List Nat) :
    ∀ s ∈ subsFrom t i nodes, s.WellFormed := by
  induction nodes generalizing i with
  | nil => exact fun s hs => absurd hs not_mem_nil
  | cons node nodes ih =>
    intro s hs
    rcases mem_append.1 hs with hs | hs
    · exact nodeSubs_wellFormed t i node s hs
    · exact ih (i + 1) s hs

/-- The device of a proximity domain after the image of the CPUs. -/
def Numa.device (t : Numa) (domain : Nat) : TopologyDevice :=
  t.subs.foldl (Sub.applyDev t) (createTopologyDevice (UInt32.ofNat domain))

theorem parseCratTable_createCratImageVirtual (known : List TopologyDevice) :
    ∃ image, createCratImageVirtual t = .ok (image, image.length) ∧
      image.length ≤ dynSize t ∧ (lengthOf image).toNat = image.length ∧
      ∀ n, (totalEntriesOf image).toNat < n →
        parseCratTable t known image 0 n = some (.ok
          { topology := { devices := (range t.cpuNodes.length).map t.device, known := known }
            visited := (totalEntriesOf image).toNat
            off := image.length }) := by
  obtain ⟨image, hcreate, hfits, ⟨pre, hpre, himage⟩, hlen, htot, hdom⟩ :=
    createCratImageVirtual_eq t
  refine ⟨image, hcreate, hfits, hlen, fun n hn => ?_⟩
  obtain ⟨node, hon, hcpu⟩ := t.hasCpu
  have hne : t.cpuNodes.length ≠ 0 :=
    ne_of_gt (length_pos_of_mem (mem_filter.2 ⟨hon, decide_eq_true hcpu⟩))
  have hmax : t.cpuNodes.length ≤ maxNumnodes :=
    t.cpuNodes_sublist.length_le.trans t.length_online
  have hdistinct : ((range t.cpuNodes.length).map fun i =>
      createTopologyDevice (UInt32.ofNat (0 + i))).Pairwise
        (·.proximityDomain ≠ ·.proximityDomain) := by
    rw [pairwise_map]
    refine List.Pairwise.imp_of_mem (fun {i j} hi hj hlt heq => ?_)
      (pairwise_lt_range (n := t.cpuNodes.length))
    have hi' : 0 + i < maxNumnodes := by have := mem_range.1 hi; omega
    have hj' : 0 + j < maxNumnodes := by have := mem_range.1 hj; omega
    have hij := ofNat_inj hi' hj' heq
    omega
  have hend : image.length = pre.length + (bytesOf t.subs).length := by
    rw [himage, length_append]
  have hwalk := parseLoop_bytesOf t (subsFrom_wellFormed t 0 t.cpuNodes) pre
    { topology := { devices := (range t.cpuNodes.length).map fun i =>
        createTopologyDevice (UInt32.ofNat (0 + i)), known := known }
      visited := 0, off := headerSize } hpre.symm (n := n) (htot ▸ hn)
  rw [parseCratTable]
  simp only [hdom, if_neg hne, hlen, htot]
  rw [foldl_apply_eq_map t _ hdistinct, map_map] at hwalk
  rw [hend, himage]
  refine hwalk.trans ?_
  simp only [zero_add, Numa.subs, Function.comp_def]
  rfl

end Amdkfd.Crat
