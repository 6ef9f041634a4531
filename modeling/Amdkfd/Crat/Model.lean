import Amdkfd.Basic
import Amdkfd.Lib.Bytes

/-!
# CRAT images

The virtual CRAT image that `kfd_crat.c` creates for the CPUs of the system, on x86, and the
parser of CRAT images. An image is a list of bytes: a header, and sub-tables each of which
starts with its type and its length. Allocations of the parser succeed.
-/

namespace Amdkfd.Crat

open Lib

/-! ## Structures -/

/-- `struct crat_header`. -/
structure Header where
  signature : UInt32
  length : UInt32
  revision : UInt8
  checksum : UInt8
  oemId : List UInt8
  oemTableId : List UInt8
  oemRevision : UInt32
  creatorId : UInt32
  creatorRevision : UInt32
  totalEntries : UInt32
  numDomains : UInt16
  deriving DecidableEq

/-- `struct crat_subtype_generic`. -/
structure Generic where
  type : UInt8
  length : UInt8
  flags : UInt32
  deriving DecidableEq

structure Computeunit extends Generic where
  proximityDomain : UInt32
  processorIdLow : UInt32
  numCpuCores : UInt16
  numSimdCores : UInt16
  maxWavesSimd : UInt16
  ioCount : UInt16
  hsaCapability : UInt16
  ldsSizeInKb : UInt16
  waveFrontSize : UInt8
  numBanks : UInt8
  microEngineId : UInt16
  arrayCount : UInt8
  numCuPerArray : UInt8
  numSimdPerCu : UInt8
  maxSlotsScatchCu : UInt8
  deriving DecidableEq

/-- `struct crat_subtype_memory`. -/
structure Memory extends Generic where
  proximityDomain : UInt32
  baseAddrLow : UInt32
  baseAddrHigh : UInt32
  lengthLow : UInt32
  lengthHigh : UInt32
  width : UInt32
  visibilityType : UInt8
  deriving DecidableEq

/-- `struct crat_subtype_cache`. -/
structure Cache extends Generic where
  processorIdLow : UInt32
  siblingMap : List UInt8
  cacheSize : UInt32
  cacheLevel : UInt8
  linesPerTag : UInt8
  cacheLineSize : UInt16
  associativity : UInt8
  cacheLatency : UInt16
  deriving DecidableEq

/-- `struct crat_subtype_iolink`. -/
structure Iolink extends Generic where
  proximityDomainFrom : UInt32
  proximityDomainTo : UInt32
  ioInterfaceType : UInt8
  versionMajor : UInt8
  versionMinor : UInt16
  minimumLatency : UInt32
  maximumLatency : UInt32
  minimumBandwidthMbs : UInt32
  maximumBandwidthMbs : UInt32
  recommendedTransferSize : UInt32
  weightXgmi : UInt8
  deriving DecidableEq

/-- The sizes of the structures. -/
def headerSize : Nat := 48
def genericSize : Nat := 8
def computeunitSize : Nat := 40
def memorySize : Nat := 40
def iolinkSize : Nat := 64

def cratSignature : UInt32 := 0x54415243

def flagsEnabled : UInt32 := 1

/-- `CRAT_CU_FLAGS_*`. -/
def cuFlagsHotPluggable : UInt32 := 2
def cuFlagsCpuPresent : UInt32 := 4
def cuFlagsGpuPresent : UInt32 := 8
def cuFlagsIommuPresent : UInt32 := 16

def iolinkFlagsBiDirectional : UInt32 := 0x80000000

/-- `CRAT_IOLINK_TYPE_*`. -/
def iolinkTypeHypertransport : UInt8 := 1
def iolinkTypePciexpress : UInt8 := 2
def iolinkTypeQpi11 : UInt8 := 5
def iolinkTypeXgmi : UInt8 := 11

/-! ## The structures in memory -/

def Header.bytes (h : Header) : List UInt8 :=
  toBytes 4 h.signature.toNat ++ (toBytes 4 h.length.toNat ++ (toBytes 1 h.revision.toNat ++
    (toBytes 1 h.checksum.toNat ++ (h.oemId ++ (h.oemTableId ++ (toBytes 4 h.oemRevision.toNat ++
    (toBytes 4 h.creatorId.toNat ++ (toBytes 4 h.creatorRevision.toNat ++
    (toBytes 4 h.totalEntries.toNat ++ (toBytes 2 h.numDomains.toNat ++ toBytes 6 0))))))))))

def Generic.bytes (g : Generic) : List UInt8 :=
  toBytes 1 g.type.toNat ++ (toBytes 1 g.length.toNat ++ (toBytes 2 0 ++ toBytes 4 g.flags.toNat))

def Computeunit.bytes (c : Computeunit) : List UInt8 :=
  c.toGeneric.bytes ++ (toBytes 4 c.proximityDomain.toNat ++ (toBytes 4 c.processorIdLow.toNat ++
    (toBytes 2 c.numCpuCores.toNat ++ (toBytes 2 c.numSimdCores.toNat ++
    (toBytes 2 c.maxWavesSimd.toNat ++ (toBytes 2 c.ioCount.toNat ++
    (toBytes 2 c.hsaCapability.toNat ++ (toBytes 2 c.ldsSizeInKb.toNat ++
    (toBytes 1 c.waveFrontSize.toNat ++ (toBytes 1 c.numBanks.toNat ++
    (toBytes 2 c.microEngineId.toNat ++ (toBytes 1 c.arrayCount.toNat ++
    (toBytes 1 c.numCuPerArray.toNat ++ (toBytes 1 c.numSimdPerCu.toNat ++
    (toBytes 1 c.maxSlotsScatchCu.toNat ++ toBytes 4 0)))))))))))))))

def Memory.bytes (m : Memory) : List UInt8 :=
  m.toGeneric.bytes ++ (toBytes 4 m.proximityDomain.toNat ++ (toBytes 4 m.baseAddrLow.toNat ++
    (toBytes 4 m.baseAddrHigh.toNat ++ (toBytes 4 m.lengthLow.toNat ++
    (toBytes 4 m.lengthHigh.toNat ++ (toBytes 4 m.width.toNat ++
    (toBytes 1 m.visibilityType.toNat ++ toBytes 7 0)))))))

def Iolink.bytes (l : Iolink) : List UInt8 :=
  l.toGeneric.bytes ++ (toBytes 4 l.proximityDomainFrom.toNat ++
    (toBytes 4 l.proximityDomainTo.toNat ++ (toBytes 1 l.ioInterfaceType.toNat ++
    (toBytes 1 l.versionMajor.toNat ++ (toBytes 2 l.versionMinor.toNat ++
    (toBytes 4 l.minimumLatency.toNat ++ (toBytes 4 l.maximumLatency.toNat ++
    (toBytes 4 l.minimumBandwidthMbs.toNat ++ (toBytes 4 l.maximumBandwidthMbs.toNat ++
    (toBytes 4 l.recommendedTransferSize.toNat ++
    (toBytes 23 0 ++ toBytes 1 l.weightXgmi.toNat)))))))))))

def u8At (image : List UInt8) (off : Nat) : UInt8 := UInt8.ofNat (readAt image off 1)
def u16At (image : List UInt8) (off : Nat) : UInt16 := UInt16.ofNat (readAt image off 2)
def u32At (image : List UInt8) (off : Nat) : UInt32 := UInt32.ofNat (readAt image off 4)

def lengthOf (image : List UInt8) : UInt32 := u32At image 4
def totalEntriesOf (image : List UInt8) : UInt32 := u32At image 36
def numDomainsOf (image : List UInt8) : UInt16 := u16At image 40

/-- The structure of each kind at `off`. -/
def genericAt (image : List UInt8) (off : Nat) : Generic :=
  { type := u8At image off, length := u8At image (off + 1), flags := u32At image (off + 4) }

def computeunitAt (image : List UInt8) (off : Nat) : Computeunit :=
  { genericAt image off with
    proximityDomain := u32At image (off + 8)
    processorIdLow := u32At image (off + 12)
    numCpuCores := u16At image (off + 16)
    numSimdCores := u16At image (off + 18)
    maxWavesSimd := u16At image (off + 20)
    ioCount := u16At image (off + 22)
    hsaCapability := u16At image (off + 24)
    ldsSizeInKb := u16At image (off + 26)
    waveFrontSize := u8At image (off + 28)
    numBanks := u8At image (off + 29)
    microEngineId := u16At image (off + 30)
    arrayCount := u8At image (off + 32)
    numCuPerArray := u8At image (off + 33)
    numSimdPerCu := u8At image (off + 34)
    maxSlotsScatchCu := u8At image (off + 35) }

def memoryAt (image : List UInt8) (off : Nat) : Memory :=
  { genericAt image off with
    proximityDomain := u32At image (off + 8)
    baseAddrLow := u32At image (off + 12)
    baseAddrHigh := u32At image (off + 16)
    lengthLow := u32At image (off + 20)
    lengthHigh := u32At image (off + 24)
    width := u32At image (off + 28)
    visibilityType := u8At image (off + 32) }

def cacheAt (image : List UInt8) (off : Nat) : Cache :=
  { genericAt image off with
    processorIdLow := u32At image (off + 8)
    siblingMap := (image.drop (off + 12)).take 32
    cacheSize := u32At image (off + 44)
    cacheLevel := u8At image (off + 48)
    linesPerTag := u8At image (off + 49)
    cacheLineSize := u16At image (off + 50)
    associativity := u8At image (off + 52)
    cacheLatency := u16At image (off + 54) }

def iolinkAt (image : List UInt8) (off : Nat) : Iolink :=
  { genericAt image off with
    proximityDomainFrom := u32At image (off + 8)
    proximityDomainTo := u32At image (off + 12)
    ioInterfaceType := u8At image (off + 16)
    versionMajor := u8At image (off + 17)
    versionMinor := u16At image (off + 18)
    minimumLatency := u32At image (off + 20)
    maximumLatency := u32At image (off + 24)
    minimumBandwidthMbs := u32At image (off + 28)
    maximumBandwidthMbs := u32At image (off + 32)
    recommendedTransferSize := u32At image (off + 36)
    weightXgmi := u8At image (off + 63) }

/-! ## The system -/

def maxNumnodes : Nat := 1024

/-- The value `-1` of `kfd_numa_node_to_apic_id`. -/
def noApicId : UInt32 := 0xffffffff

/-- The NUMA nodes of the system: those online in the order of `for_each_online_node`, the APIC
id of the first CPU of a node, its CPUs, the pages of its zones, and `node_distance`. Some node
that is online has a CPU. `oem` is what the DSDT has: its revision, and the ids. -/
structure Numa where
  online : List Nat
  sorted : online.Pairwise (· < ·)
  online_lt : ∀ n ∈ online, n < maxNumnodes
  apicId : Nat → UInt32
  hasCpu : ∃ n ∈ online, apicId n ≠ noApicId
  cpus : Nat → Nat
  zonePages : Nat → List Nat
  distance : UInt32 → UInt32 → UInt32
  amd : Bool
  oem : Option (UInt32 × List UInt8 × List UInt8)
  oem_length : ∀ o ∈ oem, o.2.1.length = 6 ∧ o.2.2.length = 8

/-! ## Creation -/

abbrev Filled := Except Errno (Int × List UInt8)

def cuForCpu (t : Numa) (node : Nat) (domain : UInt16) : Computeunit :=
  { type := 0, length := 40, flags := flagsEnabled ||| cuFlagsCpuPresent
    proximityDomain := domain.toUInt32, processorIdLow := t.apicId node
    numCpuCores := UInt16.ofNat (t.cpus node), numSimdCores := 0, maxWavesSimd := 0
    ioCount := 0, hsaCapability := 0, ldsSizeInKb := 0, waveFrontSize := 0, numBanks := 0
    microEngineId := 0, arrayCount := 0, numCuPerArray := 0, numSimdPerCu := 0
    maxSlotsScatchCu := 0 }

def fillCuForCpu (t : Numa) (node : Nat) (availSize : Int) (domain : UInt16) : Filled :=
  if availSize - computeunitSize < 0 then .error .enomem
  else if t.apicId node = noApicId then .error .einval
  else .ok (availSize - computeunitSize, (cuForCpu t node domain).bytes)

/-- `mem_in_bytes` of `kfd_fill_mem_info_for_cpu`. -/
def Numa.memInBytes (t : Numa) (node : Nat) : UInt64 :=
  UInt64.ofNat ((t.zonePages node).sum * 4096)

def memForCpu (t : Numa) (node : Nat) (domain : UInt16) : Memory :=
  { type := 1, length := 40, flags := flagsEnabled, proximityDomain := domain.toUInt32
    baseAddrLow := 0, baseAddrHigh := 0, lengthLow := (t.memInBytes node).toUInt32
    lengthHigh := (t.memInBytes node >>> 32).toUInt32, width := 0, visibilityType := 0 }

def fillMemInfoForCpu (t : Numa) (node : Nat) (availSize : Int) (domain : UInt16) : Filled :=
  if availSize - memorySize < 0 then .error .enomem
  else .ok (availSize - memorySize, (memForCpu t node domain).bytes)

def iolinkForCpu (t : Numa) (node nid : Nat) : Iolink :=
  { type := 5, length := 64, flags := flagsEnabled, proximityDomainFrom := UInt32.ofNat node
    proximityDomainTo := UInt32.ofNat nid
    ioInterfaceType := if t.amd then iolinkTypeHypertransport else iolinkTypeQpi11
    versionMajor := 0, versionMinor := 0, minimumLatency := 0, maximumLatency := 0
    minimumBandwidthMbs := 0, maximumBandwidthMbs := 0, recommendedTransferSize := 0
    weightXgmi := 0 }

def fillIolinks (t : Numa) (node : Nat) : List Nat → Int → Except Errno (Int × List UInt8 × Nat)
  | [], availSize => .ok (availSize, [], 0)
  | nid :: nids, availSize =>
    if nid = node then fillIolinks t node nids availSize
    else if availSize - iolinkSize < 0 then .error .enomem
    else
      match fillIolinks t node nids (availSize - iolinkSize) with
      | .error e => .error e
      | .ok (availSize, bytes, entries) =>
        .ok (availSize, (iolinkForCpu t node nid).bytes ++ bytes, entries + 1)

def fillIolinkInfoForCpu (t : Numa) (node : Nat) (availSize : Int) :
    Except Errno (Int × List UInt8 × Nat) :=
  fillIolinks t node t.online availSize

/-- The image so far: the fields of the header that change, the sub-tables, and the size that
remains. -/
structure Draft where
  length : Nat
  totalEntries : Nat
  numDomains : Nat
  body : List UInt8
  availSize : Int

/-- The body of the loop of `kfd_create_vcrat_image_cpu`. -/
def createNode (t : Numa) (d : Draft) (node : Nat) : Except Errno Draft :=
  if t.apicId node = noApicId then .ok d
  else
    match fillCuForCpu t node d.availSize (UInt16.ofNat d.numDomains) with
    | .error e => .error e
    | .ok (availSize, cu) =>
      match fillMemInfoForCpu t node availSize (UInt16.ofNat d.numDomains) with
      | .error e => .error e
      | .ok (availSize, mem) =>
        match fillIolinkInfoForCpu t node availSize with
        | .error e => .error e
        | .ok (availSize, links, entries) =>
          .ok
            { length := d.length + computeunitSize + memorySize + iolinkSize * entries
              totalEntries := d.totalEntries + 1 + 1 + entries
              numDomains := d.numDomains + 1
              body := d.body ++ (cu ++ (mem ++ links))
              availSize := availSize }

/-- The header of the image. -/
def Draft.header (t : Numa) (d : Draft) : Header :=
  { signature := cratSignature
    length := UInt32.ofNat d.length
    revision := 0
    checksum := 0
    oemId := (t.oem.map (·.2.1)).getD (List.replicate 6 0)
    oemTableId := (t.oem.map (·.2.2)).getD (List.replicate 8 0)
    oemRevision := (t.oem.map (·.1)).getD 0
    creatorId := 0
    creatorRevision := 0
    totalEntries := UInt32.ofNat d.totalEntries
    numDomains := UInt16.ofNat d.numDomains }

def createVcratImageCpu (t : Numa) (size : Nat) : Except Errno (List UInt8 × Nat) :=
  if (size : Int) - headerSize < 0 then .error .enomem
  else
    match t.online.foldlM (createNode t)
        { length := headerSize, totalEntries := 0, numDomains := 0, body := []
          availSize := size - headerSize } with
    | .error e => .error e
    | .ok d => .ok ((d.header t).bytes ++ d.body, d.length)

/-- `dyn_size` of `kfd_create_crat_image_virtual`. -/
def dynSize (t : Numa) : Nat :=
  headerSize + t.online.length *
    (computeunitSize + memorySize + (t.online.length - 1) * iolinkSize)

def createCratImageVirtual (t : Numa) : Except Errno (List UInt8 × Nat) :=
  createVcratImageCpu t (dynSize t)

/-! ## Parsing -/

structure MemProperties where
  heapType : UInt32
  flags : UInt32
  sizeInBytes : UInt64
  width : UInt32
  deriving DecidableEq

structure CacheProperties where
  processorIdLow : UInt32
  cacheLevel : UInt8
  cacheSize : UInt32
  cachelineSize : UInt16
  cachelinesPerTag : UInt8
  cacheAssoc : UInt8
  cacheLatency : UInt16
  siblingMap : List UInt8
  cacheType : UInt32
  deriving DecidableEq

structure IolinkProperties where
  nodeFrom : UInt32
  nodeTo : UInt32
  verMaj : UInt8
  verMin : UInt16
  iolinkType : UInt8
  weight : UInt32
  minLatency : UInt32
  maxLatency : UInt32
  minBandwidth : UInt32
  maxBandwidth : UInt32
  recTransferSize : UInt32
  deriving DecidableEq

/-- `struct kfd_topology_device`, with the node properties that CRAT sets. The counts of memory
banks, caches and links are the lengths of their lists. -/
structure TopologyDevice where
  proximityDomain : UInt32
  cpuCoresCount : UInt16
  cpuCoreIdBase : UInt32
  atsPresent : Bool
  hotPluggable : Bool
  simdIdBase : UInt32
  simdCount : UInt16
  ldsSizeInKb : UInt16
  maxWavesPerSimd : UInt16
  waveFrontSize : UInt8
  arrayCount : UInt8
  cuPerSimdArray : UInt8
  simdPerCu : UInt8
  maxSlotsScratchCu : UInt8
  memProps : List MemProperties
  cacheProps : List CacheProperties
  ioLinkProps : List IolinkProperties
  deriving DecidableEq

def createTopologyDevice (domain : UInt32) : TopologyDevice :=
  { proximityDomain := domain, cpuCoresCount := 0, cpuCoreIdBase := 0, atsPresent := false
    hotPluggable := false, simdIdBase := 0, simdCount := 0, ldsSizeInKb := 0
    maxWavesPerSimd := 0, waveFrontSize := 0, arrayCount := 0, cuPerSimdArray := 0
    simdPerCu := 0, maxSlotsScratchCu := 0, memProps := [], cacheProps := [], ioLinkProps := [] }

def updateFirst (p : TopologyDevice → Bool) (f : TopologyDevice → TopologyDevice) :
    List TopologyDevice → List TopologyDevice
  | [] => []
  | dev :: devs => if p dev then f dev :: devs else dev :: updateFirst p f devs

def populatedCuInfoCpu (cu : Computeunit) (dev : TopologyDevice) : TopologyDevice :=
  { dev with
    cpuCoresCount := cu.numCpuCores
    cpuCoreIdBase := cu.processorIdLow
    atsPresent := dev.atsPresent || cu.hsaCapability.toUInt32 &&& cuFlagsIommuPresent != 0 }

def populatedCuInfoGpu (cu : Computeunit) (dev : TopologyDevice) : TopologyDevice :=
  { dev with
    simdIdBase := cu.processorIdLow
    simdCount := cu.numSimdCores
    ldsSizeInKb := cu.ldsSizeInKb
    maxWavesPerSimd := cu.maxWavesSimd
    waveFrontSize := cu.waveFrontSize
    arrayCount := cu.arrayCount
    cuPerSimdArray := cu.numCuPerArray
    simdPerCu := cu.numSimdPerCu
    maxSlotsScratchCu := cu.maxSlotsScatchCu
    hotPluggable := dev.hotPluggable || cu.hsaCapability.toUInt32 &&& cuFlagsHotPluggable != 0 }

def parseSubtypeCu (cu : Computeunit) (devs : List TopologyDevice) : List TopologyDevice :=
  updateFirst (cu.proximityDomain = ·.proximityDomain)
    (fun dev =>
      let dev := if cu.flags &&& cuFlagsCpuPresent ≠ 0 then populatedCuInfoCpu cu dev else dev
      if cu.flags &&& cuFlagsGpuPresent ≠ 0 then populatedCuInfoGpu cu dev else dev)
    devs

/-- The heap type of a memory sub-table: `HSA_MEM_HEAP_TYPE_FB_PRIVATE` or the visibility on a
GPU node, else `HSA_MEM_HEAP_TYPE_SYSTEM`. -/
def heapType (mem : Memory) (dev : TopologyDevice) : UInt32 :=
  if dev.cpuCoresCount = 0 then
    if mem.visibilityType = 0 then 2 else mem.visibilityType.toUInt32
  else 0

/-- The flags of a memory sub-table, `CRAT_MEM_FLAGS_*` to `HSA_MEM_FLAGS_*`. -/
def memFlags (mem : Memory) : UInt32 :=
  (if mem.flags &&& 2 ≠ 0 then 1 else 0) ||| (if mem.flags &&& 4 ≠ 0 then 2 else 0)

def addBank (bank : MemProperties) : List MemProperties → List MemProperties
  | [] => [bank]
  | props :: rest =>
    if props.heapType = bank.heapType ∧ props.flags = bank.flags ∧ props.width = bank.width then
      { props with sizeInBytes := props.sizeInBytes + bank.sizeInBytes } :: rest
    else props :: addBank bank rest

def parseSubtypeMem (mem : Memory) (devs : List TopologyDevice) : List TopologyDevice :=
  updateFirst (mem.proximityDomain = ·.proximityDomain)
    (fun dev =>
      { dev with
        memProps := addBank
          { heapType := heapType mem dev, flags := memFlags mem
            sizeInBytes := (mem.lengthHigh.toUInt64 <<< 32) + mem.lengthLow.toUInt64
            width := mem.width }
          dev.memProps })
    devs

/-- `CRAT_CACHE_FLAGS_*` to `HSA_CACHE_TYPE_*`. -/
def cacheType (flags : UInt32) : UInt32 :=
  (if flags &&& 2 ≠ 0 then 1 else 0) ||| (if flags &&& 4 ≠ 0 then 2 else 0) |||
    (if flags &&& 8 ≠ 0 then 4 else 0) ||| (if flags &&& 16 ≠ 0 then 8 else 0)

def parseSubtypeCache (cache : Cache) (devs : List TopologyDevice) : List TopologyDevice :=
  let id := cache.processorIdLow
  updateFirst
    (fun dev =>
      (dev.cpuCoreIdBase ≤ id && id ≤ dev.cpuCoreIdBase + dev.cpuCoresCount.toUInt32) ||
      (dev.simdIdBase ≤ id &&
        id < dev.simdIdBase + dev.arrayCount.toUInt32 * dev.cuPerSimdArray.toUInt32))
    (fun dev =>
      { dev with
        cacheProps := dev.cacheProps ++
          [{ processorIdLow := id, cacheLevel := cache.cacheLevel, cacheSize := cache.cacheSize
             cachelineSize := cache.cacheLineSize, cachelinesPerTag := cache.linesPerTag
             cacheAssoc := cache.associativity, cacheLatency := cache.cacheLatency
             siblingMap := cache.siblingMap, cacheType := cacheType cache.flags }] })
    devs

/-- The properties of a link. -/
def iolinkProperties (t : Numa) (l : Iolink) : IolinkProperties :=
  { nodeFrom := l.proximityDomainFrom
    nodeTo := l.proximityDomainTo
    verMaj := l.versionMajor
    verMin := l.versionMinor
    iolinkType := l.ioInterfaceType
    weight :=
      if l.ioInterfaceType = iolinkTypePciexpress then 20
      else if l.ioInterfaceType = iolinkTypeXgmi then l.weightXgmi.toUInt32
      else t.distance l.proximityDomainFrom l.proximityDomainTo
    minLatency := l.minimumLatency
    maxLatency := l.maximumLatency
    minBandwidth := l.minimumBandwidthMbs
    maxBandwidth := l.maximumBandwidthMbs
    recTransferSize := l.recommendedTransferSize }

def TopologyDevice.addLink (props : IolinkProperties) (dev : TopologyDevice) : TopologyDevice :=
  { dev with ioLinkProps := dev.ioLinkProps ++ [props] }

/-- The devices of the image, and those that the topology has already. -/
structure Topology where
  devices : List TopologyDevice
  known : List TopologyDevice
  deriving DecidableEq

/-- `kfd_parse_subtype_iolink`. The other end of a link in both directions is looked up among
the known devices. -/
def parseSubtypeIolink (t : Numa) (l : Iolink) (s : Topology) : Except Errno Topology :=
  let props := iolinkProperties t l
  let found := s.devices.any (l.proximityDomainFrom = ·.proximityDomain)
  let devices := updateFirst (l.proximityDomainFrom = ·.proximityDomain) (·.addLink props) s.devices
  if found ∧ l.flags &&& iolinkFlagsBiDirectional ≠ 0 then
    if s.known.any (l.proximityDomainTo = ·.proximityDomain) then
      .ok
        { devices := devices
          known := updateFirst (l.proximityDomainTo = ·.proximityDomain)
            (·.addLink { props with nodeFrom := props.nodeTo, nodeTo := props.nodeFrom }) s.known }
    else .error .enodev
  else .ok { s with devices := devices }

/-- `kfd_parse_subtype` of the sub-table at `off`. -/
def parseSubtype (t : Numa) (image : List UInt8) (off : Nat) (s : Topology) :
    Except Errno Topology :=
  match (genericAt image off).type.toNat with
  | 0 => .ok { s with devices := parseSubtypeCu (computeunitAt image off) s.devices }
  | 1 => .ok { s with devices := parseSubtypeMem (memoryAt image off) s.devices }
  | 2 => .ok { s with devices := parseSubtypeCache (cacheAt image off) s.devices }
  | 5 => parseSubtypeIolink t (iolinkAt image off) s
  | _ => .ok s

/-- How a walk over the sub-tables ends: the devices, the sub-tables that it visited, and where
it ended. -/
structure Walk where
  topology : Topology
  visited : Nat
  off : Nat
  deriving DecidableEq

/-- The loop of `kfd_parse_crat_table`, if it ends within `n` rounds. -/
def parseLoop (t : Numa) (image : List UInt8) (imageLen : Nat) :
    Nat → Walk → Option (Except Errno Walk)
  | 0, _ => none
  | n + 1, w =>
    if w.off + genericSize < imageLen then
      let g := genericAt image w.off
      match if g.flags &&& flagsEnabled ≠ 0 then parseSubtype t image w.off w.topology
          else .ok w.topology with
      | .error e => some (.error e)
      | .ok s =>
        parseLoop t image imageLen n
          { topology := s, visited := w.visited + 1, off := w.off + g.length.toNat }
    else some (.ok w)

/-- `kfd_parse_crat_table` with an empty device list, if it ends within `n` rounds. `known` are
the devices that the topology has. -/
def parseCratTable (t : Numa) (known : List TopologyDevice) (image : List UInt8)
    (proximityDomain n : Nat) : Option (Except Errno Walk) :=
  let numNodes := (numDomainsOf image).toNat
  let devices := (List.range numNodes).map fun i =>
    createTopologyDevice (UInt32.ofNat (proximityDomain + i))
  if numNodes = 0 then some (.error .enomem)
  else
    parseLoop t image (lengthOf image).toNat n
      { topology := { devices := devices, known := known }, visited := 0, off := headerSize }

end Amdkfd.Crat
