import Mathlib

/-!
# Requests and cache parameters

The two request records of `DataType.h`, the cache operations of `EnumType.h`, and the
parameters `Cache::init` computes for each level. Times and counters are natural numbers;
addresses are reduced modulo `2 ^ 64` where the source computes one.

Two fields of a request are bookkeeping of the model and are read by no function of it:
`origin` says which part of the cache made the request, and `stamp` says how many events
the cache had recorded when the request entered its present level.
-/

namespace DataflowSim.Memory

inductive CacheOperation where
  | READ | WRITE | LOCK | UNLOCK | WRITEBACK_DIRTY_BLOCK
  deriving DecidableEq, Repr

inductive CacheSwapStyle where
  | CACHE_SWAP_FIFO | CACHE_SWAP_LRU | CACHE_SWAP_RAND | CACHE_SWAP_MAX
  deriving DecidableEq, Repr

inductive CacheWriteStrategy where
  | WRITE_BACK | WRITE_THROUGH
  deriving DecidableEq, Repr

inductive CacheWriteAllocate where
  | WRITE_ALLOCATE | WRITE_NON_ALLOCATE
  deriving DecidableEq, Repr

/-- Where a request comes from. A default element, such as the ones `resize` puts into a
queue, is `initial`; a request of an LSE is `core`; `fill l a` is the demand fill of the
`a`-th MSHR allocation of level `l`; `writeBack l k` is the `k`-th victim of level `l`. -/
inductive Origin where
  | initial
  | core
  | fill (level alloc : Nat)
  | writeBack (level victim : Nat)
  deriving DecidableEq, Repr

structure MemReq where
  valid : Bool := false
  addr : Nat := 0
  cnt : Nat := 0
  isWrite : Bool := false
  inflight : Bool := false
  ready : Bool := false
  hasPushChan : Bool := false
  lseId : Nat := 0
  lseReqQueueIndex : Nat := 0
  coalesced : Bool := false
  origin : Origin := .initial
  deriving DecidableEq, Repr

structure CacheReq where
  valid : Bool := false
  addr : Nat := 0
  cnt : Nat := 0
  lseId : Nat := 0
  lseReqQueueIndex : Nat := 0
  inflight : Bool := false
  ready : Bool := false
  cacheOp : CacheOperation := .READ
  coalesced : Bool := false
  origin : Origin := .initial
  stamp : Nat := 0
  deriving DecidableEq, Repr

def transMemReq2CacheReq (memReq : MemReq) : CacheReq where
  valid := memReq.valid
  addr := memReq.addr
  inflight := memReq.inflight
  ready := memReq.ready
  cnt := memReq.cnt
  coalesced := memReq.coalesced
  lseId := memReq.lseId
  lseReqQueueIndex := memReq.lseReqQueueIndex
  cacheOp := if memReq.isWrite then .WRITE else .READ
  origin := memReq.origin

def transCacheReq2MemReq (cacheReq : CacheReq) : MemReq where
  valid := cacheReq.valid
  addr := cacheReq.addr
  inflight := cacheReq.inflight
  ready := cacheReq.ready
  coalesced := cacheReq.coalesced
  lseId := cacheReq.lseId
  lseReqQueueIndex := cacheReq.lseReqQueueIndex
  -- a dirty write-back is not a `WRITE`, so the memory receives it as a read
  isWrite := cacheReq.cacheOp = .WRITE
  origin := cacheReq.origin

/-- The parameters of one level, as `Cache::init` collects them from `Global`. -/
structure LevelConfig where
  cacheSize : Nat
  cacheLineSize : Nat
  mappingWays : Nat
  accessLatency : Nat
  reqQueueSizePerBank : Nat
  ackQueueSizePerBank : Nat
  bankNum : Nat
  mshrEntryNum : Nat
  mshrSizePerEntry : Nat
  swapStyle : CacheSwapStyle := .CACHE_SWAP_LRU
  writeStrategy : CacheWriteStrategy := .WRITE_BACK
  writeAllocate : CacheWriteAllocate := .WRITE_ALLOCATE

namespace LevelConfig
variable (c : LevelConfig)

def cacheLineNum : Nat := c.cacheSize / c.cacheLineSize
def cacheLineShift : Nat := Nat.log2 c.cacheLineSize
def cacheSetSize : Nat := c.cacheLineNum / c.mappingWays
def cacheSetShift : Nat := Nat.log2 c.cacheSetSize

end LevelConfig

/-- The whole cache: `Global::cache_max_level` levels over the queue to the memory. `rand`
lists what successive calls of the C library's `rand` return. -/
structure Config where
  cacheMaxLevel : Nat
  level : Nat → LevelConfig
  reqQueueToMemSize : Nat
  rand : Nat → Nat := fun _ => 0

namespace Config
variable (cfg : Config)

/-- The last level, the one in front of the memory. -/
def llc : Nat := cfg.cacheMaxLevel - 1

def getCacheTag (addr level : Nat) : Nat :=
  addr >>> ((cfg.level level).cacheSetShift + (cfg.level level).cacheLineShift)

def getCacheSetIndex (addr level : Nat) : Nat :=
  (addr >>> (cfg.level level).cacheLineShift) % (cfg.level level).cacheSetSize

def getCacheBank (addr level : Nat) : Nat :=
  (addr >>> (cfg.level level).cacheLineShift) % (cfg.level level).bankNum

def getCacheBlockId (addr level : Nat) : Nat :=
  addr >>> (cfg.level level).cacheLineShift

theorem getCacheSetIndex_eq (addr level : Nat) :
    cfg.getCacheSetIndex addr level =
      cfg.getCacheBlockId addr level % (cfg.level level).cacheSetSize := rfl

theorem getCacheTag_eq (addr level : Nat) :
    cfg.getCacheTag addr level =
      cfg.getCacheBlockId addr level >>> (cfg.level level).cacheSetShift := by
  rw [getCacheTag, getCacheBlockId, Nat.add_comm, Nat.shiftRight_add]

/-- Tag and set together determine the block, for any number of sets: the blocks that share
a tag are fewer than the sets, so their remainders differ. -/
theorem block_eq_of_tag_set {a b level : Nat}
    (tag : cfg.getCacheTag a level = cfg.getCacheTag b level)
    (set : cfg.getCacheSetIndex a level = cfg.getCacheSetIndex b level) :
    cfg.getCacheBlockId a level = cfg.getCacheBlockId b level := by
  rw [getCacheTag_eq, getCacheTag_eq, Nat.shiftRight_eq_div_pow, Nat.shiftRight_eq_div_pow] at tag
  rw [getCacheSetIndex_eq, getCacheSetIndex_eq] at set
  set x := cfg.getCacheBlockId a level
  set y := cfg.getCacheBlockId b level
  set n := (cfg.level level).cacheSetSize
  have hk : (cfg.level level).cacheSetShift = Nat.log2 n := rfl
  rw [hk] at tag
  rcases Nat.eq_zero_or_pos n with hn | hn
  · simpa [hn] using set
  have hpow : 2 ^ Nat.log2 n ≤ n := Nat.log2_self_le hn.ne'
  have hx := Nat.div_add_mod x (2 ^ Nat.log2 n)
  have hy := Nat.div_add_mod y (2 ^ Nat.log2 n)
  have hxlt := Nat.mod_lt x (Nat.two_pow_pos (Nat.log2 n))
  have hylt := Nat.mod_lt y (Nat.two_pow_pos (Nat.log2 n))
  rw [tag] at hx
  -- both blocks lie in one window of at most `n` consecutive numbers
  rcases Nat.le_total x y with hle | hle
  · have hd : (y - x) % n = 0 := Nat.sub_mod_eq_zero_of_mod_eq set.symm
    have hlt : y - x < n := by omega
    rw [Nat.mod_eq_of_lt hlt] at hd
    omega
  · have hd : (x - y) % n = 0 := Nat.sub_mod_eq_zero_of_mod_eq set
    have hlt : x - y < n := by omega
    rw [Nat.mod_eq_of_lt hlt] at hd
    omega

end Config

end DataflowSim.Memory
