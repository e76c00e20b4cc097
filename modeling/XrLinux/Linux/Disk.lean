import XrLinux.Lib.BitField
import XrLinux.Lib.Run

/-!
# Linux — the disk driver

`xrarch_disk.c`: all disks of a controller share its registers and its completion bits, and the lock
of `struct xrarch_disk_ctrl` is what keeps their uses apart. Each register access is a step of its
own; between any two of them a disk may complete, the block layer may hand in a request for a disk
that has none, and where the lock is free, anyone who wants it may get it. The code under the lock
is the `Section` its holder still has to go through.

The controller is not part of the sources. `Controller` is what the driver takes it to do: a
command latches or reports what its name says, and a disk completes no command but one that was
submitted to it.
-/

namespace XrLinux.Linux

/-! ### The registers -/

/-- `XRDISK_CMD` and `XRDISK_DATA0`; the driver only reads `XRDISK_DATA1`. -/
def xrdiskCmd : Nat := 0x00

def xrdiskData0 : Nat := 0x04

/-- The commands. -/
def xrdiskSelect : BitVec 32 := 0x01

def xrdiskRead : BitVec 32 := 0x02

def xrdiskWrite : BitVec 32 := 0x03

def xrdiskComplete : BitVec 32 := 0x04

def xrdiskInfo : BitVec 32 := 0x05

def xrdiskCount : BitVec 32 := 0x08

def xrdiskDest : BitVec 32 := 0x09

def xrdiskMax : Nat := 8

def xrdiskSectShift : Nat := 9

def pageSize : Nat := 4096

/-! ### Requests -/

inductive ReqOp where
  | read
  | write
  | other
deriving DecidableEq, Repr

inductive DmaDirection where
  | fromDevice
  | toDevice
deriving DecidableEq, Repr

/-- A run of physical memory, as one `bio_vec` has it. It may cover more than one page. -/
structure Segment where
  addr : Nat
  len : Nat
deriving DecidableEq, Repr

structure Request where
  op : ReqOp
  pos : Nat
  segments : List Segment
deriving DecidableEq, Repr

def Request.bytes (req : Request) : Nat := (req.segments.map Segment.len).sum

/-- `struct queue_limits`, the fields that bound a request. `dmaAlignment` is a mask: the bits that
an address must not have. -/
structure QueueLimits where
  maxHwSectors : Nat
  maxSegmentSize : Nat
  logicalBlockSize : Nat
  maxSegments : Nat
  dmaAlignment : Nat

/-- `lim` of `xrarch_disk_init_one`. -/
def xrarchDiskLimits : QueueLimits :=
  { maxHwSectors := 8
    maxSegmentSize := 8 <<< xrdiskSectShift
    logicalBlockSize := 1 <<< xrdiskSectShift
    maxSegments := 1
    dmaAlignment := 1 <<< xrdiskSectShift }

/-- What the block layer sees to before it hands a request to the driver of a disk with `capacity`
sectors of 512 bytes. The driver declares no write cache, so there is no request without data. -/
def Request.satisfies (req : Request) (lim : QueueLimits) (capacity : Nat) : Bool :=
  decide (req.segments ≠ []) && decide (req.segments.length ≤ lim.maxSegments) &&
    req.segments.all (fun seg => decide (0 < seg.len ∧ seg.len ≤ lim.maxSegmentSize ∧
      seg.addr &&& lim.dmaAlignment = 0 ∧ seg.addr + seg.len ≤ 4294967296)) &&
    decide (req.bytes ≤ lim.maxHwSectors * 512 ∧ lim.logicalBlockSize ∣ req.bytes ∧
      req.pos + req.bytes / 512 ≤ capacity)

/-! ### The driver's state -/

/-- `struct xrarch_disk`, with the capacity of its `gendisk`. -/
structure Xdisk where
  index : Nat
  capacity : Nat
  req : Option Request
  dmaAddr : Nat
  dmaLength : Nat
  dmaDirection : DmaDirection

/-- The locals of `xrarch_disk_queue_rq` where it takes the lock. -/
structure Submission where
  req : Request
  submitCmd : BitVec 32
  dmaDirection : DmaDirection
  sector : BitVec 32
  size : Nat
  dmaAddr : Nat

/-- What the holder of the lock has still to do: a disk's writes to the registers, the interrupt
handler at its write, its read or a turn of its loop, or the discovery of a disk at its writes or
reads. -/
inductive Section where
  | submit (idx : Nat) (writes : List (Nat × BitVec 32))
  | intWrite
  | intRead
  | intLoop (complete : BitVec 32) (idx : Nat)
  | info (idx : Nat) (writes : List (Nat × BitVec 32))

/-- The controller's registers. -/
structure Controller where
  data0 : BitVec 32
  data1 : BitVec 32
  select : BitVec 32
  dest : BitVec 32
  count : BitVec 32

/-- A command as the controller gets it. -/
structure Command where
  select : BitVec 32
  dest : BitVec 32
  count : BitVec 32
  sector : BitVec 32
  op : BitVec 32
deriving DecidableEq, Repr

/-- What `dma_unmap_page` is told. -/
structure DmaMapping where
  dmaAddr : Nat
  dmaLength : Nat
  dmaDirection : DmaDirection
deriving DecidableEq, Repr

/-- The driver, the controller, and what the block layer knows of each disk: the request it waits
for, and all that were started and completed so far. -/
structure DiskState where
  disks : Nat → Option Xdisk
  lock : Option Section
  waiting : Nat → Option Submission
  probed : Nat
  ctrl : Controller
  inFlight : Nat → Bool
  done : BitVec 32
  commands : List Command
  outstanding : Nat → Option Request
  started : Nat → List Request
  completed : Nat → List Request
  unmapped : Nat → List DmaMapping
  bug : Bool

/-! ### The controller -/

/-- A write to a register that has no effect outside of the registers. -/
def Controller.write (ctrl : Controller) (access : Nat × BitVec 32) : Controller :=
  if access.1 = xrdiskData0 then { ctrl with data0 := access.2 }
  else if access.1 = xrdiskCmd then
    if access.2 = xrdiskSelect then { ctrl with select := ctrl.data0 }
    else if access.2 = xrdiskDest then { ctrl with dest := ctrl.data0 }
    else if access.2 = xrdiskCount then { ctrl with count := ctrl.data0 }
    else ctrl
  else ctrl

/-- The command that `XRDISK_READ` or `XRDISK_WRITE` submits. -/
def Controller.command (ctrl : Controller) (op : BitVec 32) : Command :=
  { select := ctrl.select, dest := ctrl.dest, count := ctrl.count, sector := ctrl.data0, op }

/-- `xrarch_disk_write`. `sectors` is which disks there are, and their sizes. -/
def DiskState.write (sectors : Nat → Option (BitVec 32)) (s : DiskState) (access : Nat × BitVec 32) :
    DiskState :=
  if access.1 = xrdiskCmd ∧ (access.2 = xrdiskRead ∨ access.2 = xrdiskWrite) then
    { s with
      inFlight := Function.update s.inFlight s.ctrl.select.toNat true
      commands := s.commands ++ [s.ctrl.command access.2] }
  else if access.1 = xrdiskCmd ∧ access.2 = xrdiskComplete then
    { s with ctrl := { s.ctrl with data1 := s.done }, done := 0 }
  else if access.1 = xrdiskCmd ∧ access.2 = xrdiskInfo then
    { s with
      ctrl :=
        { s.ctrl with
          data0 := bif (sectors s.ctrl.data0.toNat).isSome then 1 else 0
          data1 := (sectors s.ctrl.data0.toNat).getD 0 } }
  else { s with ctrl := s.ctrl.write access }

/-- A disk has carried out its command. -/
def DiskState.complete (s : DiskState) (idx : Nat) : DiskState :=
  { s with
    inFlight := Function.update s.inFlight idx false
    done := s.done ||| (1 : BitVec 32) <<< idx }

/-! ### `xrarch_disk_queue_rq` -/

/-- `BUG_ON`. -/
def DiskState.bugOn (s : DiskState) : DiskState := { s with bug := true }

/-- `submit_cmd` and `dma_direction`. -/
def submitCmd : ReqOp → Option (BitVec 32 × DmaDirection)
  | .read => some (xrdiskRead, .fromDevice)
  | .write => some (xrdiskWrite, .toDevice)
  | .other => none

/-- `bio_for_each_segment (...) break`: the first piece of the first segment within one page. -/
def Segment.firstPiece (seg : Segment) : Segment :=
  { seg with len := min seg.len (pageSize - seg.addr % pageSize) }

/-- `xrarch_disk_queue_rq` before it takes the lock. `maps` is whether `dma_map_bvec` succeeds; it
maps memory where it is. -/
def DiskState.queueRq (s : DiskState) (idx : Nat) (req : Request) (maps : Bool) : DiskState :=
  match req.segments with
  | [seg] =>
    match submitCmd req.op with
    | none => s
    | some (submitCmd, dmaDirection) =>
      let bvec := seg.firstPiece
      if bvec.len &&& (1 <<< xrdiskSectShift) - 1 ≠ 0 then s.bugOn
      else if 8 <<< xrdiskSectShift < bvec.len then s.bugOn
      else if !maps then s
      else if bvec.addr &&& (1 <<< xrdiskSectShift) - 1 ≠ 0 then s.bugOn
      else
        { s with
          outstanding := Function.update s.outstanding idx (some req)
          started := Function.update s.started idx (s.started idx ++ [req])
          waiting := Function.update s.waiting idx (some
            { req, submitCmd, dmaDirection
              sector := BitVec.ofNat 32 req.pos
              size := bvec.len
              dmaAddr := bvec.addr }) }
  | _ => s.bugOn

/-- The register writes of `xrarch_disk_queue_rq`. -/
def submitWrites (index : Nat) (sub : Submission) : List (Nat × BitVec 32) :=
  [(xrdiskData0, BitVec.ofNat 32 index), (xrdiskCmd, xrdiskSelect),
    (xrdiskData0, BitVec.ofNat 32 sub.dmaAddr), (xrdiskCmd, xrdiskDest),
    (xrdiskData0, BitVec.ofNat 32 (sub.size >>> xrdiskSectShift)), (xrdiskCmd, xrdiskCount),
    (xrdiskData0, sub.sector), (xrdiskCmd, sub.submitCmd)]

/-- `xrarch_disk_queue_rq` gets the lock. -/
def DiskState.lockQueue (s : DiskState) (idx : Nat) (xdisk : Xdisk) (sub : Submission) : DiskState :=
  if xdisk.req.isSome then s.bugOn
  else
    { s with
      waiting := Function.update s.waiting idx none
      disks := Function.update s.disks idx (some
        { xdisk with
          req := some sub.req
          dmaAddr := sub.dmaAddr
          dmaLength := sub.size
          dmaDirection := sub.dmaDirection })
      lock := some (.submit idx (submitWrites xdisk.index sub)) }

/-! ### `xrarch_disk_int` -/

/-- A turn of the loop for a disk whose bit is set. `blk_mq_complete_request` hands the request
back, and the block layer may have a new one for the disk from then on. -/
def DiskState.completeRequest (s : DiskState) (idx : Nat) : DiskState :=
  match s.disks idx with
  | none => s.bugOn
  | some xdisk =>
    match xdisk.req with
    | none => s.bugOn
    | some req =>
      { s with
        disks := Function.update s.disks idx (some { xdisk with req := none })
        unmapped := Function.update s.unmapped idx (s.unmapped idx ++
          [{ dmaAddr := xdisk.dmaAddr, dmaLength := xdisk.dmaLength
             dmaDirection := xdisk.dmaDirection }])
        completed := Function.update s.completed idx (s.completed idx ++ [req])
        outstanding := Function.update s.outstanding idx none }

/-- The loop of `xrarch_disk_int` at its test. -/
def DiskState.intLoop (s : DiskState) (complete : BitVec 32) (idx : Nat) : DiskState :=
  if idx < xrdiskMax ∧ complete ≠ 0 then
    if complete &&& (1 : BitVec 32) <<< idx = 0 then
      { s with lock := some (.intLoop complete (idx + 1)) }
    else { s.completeRequest idx with lock := some (.intLoop complete (idx + 1)) }
  else { s with lock := none }

/-! ### `xrarch_disk_probe` -/

/-- The register writes for one disk. -/
def infoWrites (idx : Nat) : List (Nat × BitVec 32) :=
  [(xrdiskData0, BitVec.ofNat 32 idx), (xrdiskCmd, xrdiskInfo)]

/-- The reads, and `xrarch_disk_init_one` where there is a disk; `ok` is whether it succeeds. -/
def DiskState.initOne (s : DiskState) (idx : Nat) (ok : Bool) : DiskState :=
  { s with
    lock := none
    probed := idx + 1
    disks :=
      bif s.ctrl.data0 != 0 && ok then
        Function.update s.disks idx (some
          { index := idx, capacity := s.ctrl.data1.toNat, req := none, dmaAddr := 0, dmaLength := 0
            dmaDirection := .fromDevice })
      else s.disks }

/-! ### Steps -/

/-- What may happen next. -/
inductive DiskEvent where
  /-- The block layer hands in a request. -/
  | queueRq (idx : Nat) (req : Request) (maps : Bool)
  /-- The lock is taken by `queue_rq`, by the interrupt handler, or by the discovery of disks. -/
  | lockQueue (idx : Nat)
  | lockInt
  | lockProbe
  /-- The holder of the lock goes on; `ok` is for `xrarch_disk_init_one`. -/
  | go (ok : Bool)
  /-- A disk carries out its command. -/
  | complete (idx : Nat)
deriving DecidableEq, Repr

/-- The holder of the lock goes on. -/
def DiskState.go (sectors : Nat → Option (BitVec 32)) (s : DiskState) (ok : Bool) :
    Section → DiskState
  | .submit _ [] => { s with lock := none }
  | .submit idx (access :: writes) =>
    { s.write sectors access with lock := some (.submit idx writes) }
  | .intWrite => { s.write sectors (xrdiskCmd, xrdiskComplete) with lock := some .intRead }
  | .intRead => { s with lock := some (.intLoop s.ctrl.data1 0) }
  | .intLoop complete idx => s.intLoop complete idx
  | .info idx [] => s.initOne idx ok
  | .info idx (access :: writes) =>
    { s.write sectors access with lock := some (.info idx writes) }

/-- One step; `none` where the event cannot happen. After a `BUG` nothing does. -/
def diskStep (sectors : Nat → Option (BitVec 32)) (s : DiskState) (event : DiskEvent) :
    Option DiskState :=
  if s.bug then none
  else
    match event with
    | .queueRq idx req maps =>
      match s.disks idx, s.outstanding idx with
      | some xdisk, none =>
        if req.satisfies xrarchDiskLimits xdisk.capacity then some (s.queueRq idx req maps) else none
      | _, _ => none
    | .lockQueue idx =>
      match s.lock, s.disks idx, s.waiting idx with
      | none, some xdisk, some sub => some (s.lockQueue idx xdisk sub)
      | _, _, _ => none
    | .lockInt => if s.lock.isNone then some { s with lock := some .intWrite } else none
    | .lockProbe =>
      if s.lock.isNone ∧ s.probed < xrdiskMax then
        some { s with lock := some (.info s.probed (infoWrites s.probed)) }
      else none
    | .go ok => s.lock.map (s.go sectors ok)
    | .complete idx => if s.inFlight idx then some (s.complete idx) else none

/-- Before the discovery of disks. The registers may hold anything. -/
def DiskState.init (ctrl : Controller) : DiskState :=
  { disks := fun _ => none, lock := none, waiting := fun _ => none, probed := 0, ctrl
    inFlight := fun _ => false, done := 0, commands := [], outstanding := fun _ => none
    started := fun _ => [], completed := fun _ => [], unmapped := fun _ => [], bug := false }

end XrLinux.Linux
