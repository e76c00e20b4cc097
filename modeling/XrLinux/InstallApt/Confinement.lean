import XrLinux.InstallApt.Atomicity

/-!
# `install-apt` — where it writes

Every write belongs to one of four areas of the disk: the header in sector 0, the OS record, the
logo and the image. They share nothing, and they end before the first used partition and the
default limit, because `main` compares the sectors of the image with the free area. That comparison
is made in 32 bits, so it says nothing about an image of 2^32 sectors.

The other way out of the areas is a read of the image that fails: `CopyData` reports it and goes on
with a count of -1.
-/

namespace XrLinux.InstallApt

/-- The partition table. -/
def partitionTable (mbr : ByteMemory) : List MbrPartition := (List.range 4).map (mbrPartition mbr)

/-- A partition that is in use. -/
def MbrPartition.Used (part : MbrPartition) : Prop := part.osType ≠ 0 ∧ part.sizeInLba ≠ 0

/-- What a call writes to. -/
inductive Area where
  | header
  | record
  | logo
  | image
  deriving DecidableEq

/-- The first byte of an area, and the first one behind it. -/
def Area.range (stSize : Nat) : Area → Nat × Nat
  | header => (0, sectorSize)
  | record => ((aptStartSector + 1) * sectorSize, (aptStartSector + 1) * sectorSize + 28)
  | logo => ((aptStartSector + 2) * sectorSize, (aptStartSector + 2) * sectorSize + 512)
  | image =>
    ((aptStartSector + aptBootSectors) * sectorSize,
      (aptStartSector + aptBootSectors) * sectorSize + stSize)

/-- The write that the program stands at: its area, and the locals of `main` and `WriteFully`. -/
def Point.write : Point → Option (Area × Locals × Transfer)
  | .copyWrite l _ _ t => some (.image, l, t)
  | .writeRecord l t => some (.record, l, t)
  | .writeLogo l t => some (.logo, l, t)
  | .writeMbr l t => some (.header, l, t)
  | .readMbr _ | .copyRead .. | .exited _ => none

/-- The byte is in sector 0, or in the sectors from the start of the APT partition up to the first
used partition and the default limit. -/
def Host.Free (h : Host) (x : Nat) : Prop :=
  x < sectorSize ∨
    aptStartSector * sectorSize ≤ x ∧ x < defaultAvailSize ∧
      ∀ part ∈ partitionTable h.disk.bytes, part.Used → x < part.startingLba * sectorSize

/-- The locals have passed the checks. -/
def Locals.Accepted (l : Locals) : Prop :=
  ∃ partitionEnd, aptPartitionEnd (defaultAvailSize / sectorSize) (partitionTable l.mbr) =
      some partitionEnd ∧
    aptStartSector < partitionEnd ∧ l.aptPartitionAvailable = partitionEnd - aptStartSector ∧
    ¬ l.aptPartitionAvailable < uint32 (aptBootSectors + l.imageSectors)

end XrLinux.InstallApt
