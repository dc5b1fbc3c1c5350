import ZigKernel.LangInt
import Mathlib.Data.List.Basic

/-! `boot/uefi/ebs_retry.zig`: the policy for a boot that has to read the memory map again, the driver that tests run it
with, and the two loops of `boot/uefi/main.zig` that consult it. After the first failed ExitBootServices the firmware
may be asked for the map only. -/

namespace Boot

open Zig

namespace EbsRetry

inductive Boundary where
  | preEbs
  | postEbs
  deriving DecidableEq

inductive Call where
  | getMemoryMapInfo
  | allocatePool
  | freePool
  | getMemoryMap
  | exitBootServices
  | returnToFirmware
  | halt
  deriving DecidableEq

def legal (boundary : Boundary) : Call → Bool
  | .halt => true
  | .returnToFirmware => boundary = .preEbs
  | .getMemoryMap | .exitBootServices => true
  | .getMemoryMapInfo | .allocatePool | .freePool => boundary = .preEbs

/-- The errors that the policy tells apart. -/
inductive Err where
  | bufferTooSmall
  | invalidParameter
  | unexpected
  deriving DecidableEq

inductive MapAction where
  | grow
  | failReturn
  | failHalt
  deriving DecidableEq

def onGetMemoryMapError (boundary : Boundary) (err : Err) (canGrow : Bool) : MapAction :=
  match boundary with
  | .preEbs => if err = .bufferTooSmall ∧ canGrow then .grow else .failReturn
  | .postEbs => .failHalt

inductive EbsAction where
  | retryRetained
  | failHalt
  deriving DecidableEq

def onExitBootServicesError (err : Err) (retriesLeft : Bool) : EbsAction :=
  if err = .invalidParameter ∧ retriesLeft then .retryRetained else .failHalt

inductive MapGet where
  | ok
  | bufferTooSmall
  | other
  deriving DecidableEq

inductive EbsGet where
  | ok
  | invalidParameter
  | other
  deriving DecidableEq

/-- The replies of the firmware; the bounds are `u32`, and so are the counters below them. -/
structure Script where
  preTooSmall : U32 := 0
  ebs : List EbsGet
  postMap : MapGet := .ok
  maxRetries : U32 := 3
  maxGrowths : U32 := 3

inductive Outcome where
  | handoff
  | halt
  | returned
  deriving DecidableEq

structure Trace where
  /-- `calls[0..len]` -/
  calls : List Call := []
  outcome : Outcome := .halt
  illegal : Bool := false
  boundary : Boundary := .preEbs
  /-- Every call, also those that `calls` has no room for. -/
  issued : List Call := []

/-- The length of the array `calls`. -/
def maxCalls : Nat := 32

namespace Trace

def record (t : Trace) (call : Call) : Trace :=
  { t with
    illegal := t.illegal || !legal t.boundary call
    calls := if t.calls.length < maxCalls then t.calls ++ [call] else t.calls
    issued := t.issued ++ [call] }

/-- `t.rec(call)` with the outcome of a return. -/
def close (t : Trace) (call : Call) (outcome : Outcome) : Trace := { t.record call with outcome }

end Trace

end EbsRetry

/-! ### The loader -/

namespace Loader

open EbsRetry

def mapHeadroomDescs : Nat := 8

/-- What the two loops of `main` depend on besides the replies. -/
structure Machine where
  /-- `mm_info.len` and `mm_info.descriptor_size` -/
  len : Nat
  descriptorSize : Nat
  /-- Whether a buffer of this size can be had from the pool. -/
  allocates : Nat → Bool
  /-- Whether `publishBootInfo` takes the map of this attempt. -/
  publishes : Nat → Bool

/-- What the loader has called, and how it has ended; it has not where the replies are used up. -/
structure Progress where
  issued : List Call
  ended : Option EbsRetry.Outcome

/-- `return fatal(..)` -/
def fatal (issued : List Call) : Progress := ⟨issued ++ [.returnToFirmware], some .returned⟩

/-- `haltFatal(..)` -/
def haltFatal (issued : List Call) : Progress := ⟨issued ++ [.halt], some .halt⟩

/-- The loop `acquire`, with the number of replies that the buffer is too small. -/
def acquire (m : Machine) (mapGrowths : Nat) : (small growth extra : Nat) → List Call → Except Progress (List Call)
  | small, growth, extra, issued =>
      match mathAdd m.len extra with
      | none => .error (fatal issued)
      | some totalDescs =>
          match mathMul totalDescs m.descriptorSize with
          | none => .error (fatal issued)
          | some bufLen =>
              let issued := issued ++ [.allocatePool]
              if ¬m.allocates bufLen then .error (fatal issued)
              else
                let issued := issued ++ [.getMemoryMap]
                match small with
                | 0 => .ok issued
                | small + 1 =>
                    let issued := issued ++ [.freePool]
                    match onGetMemoryMapError .preEbs .bufferTooSmall (growth < mapGrowths) with
                    | .grow =>
                        match mathMul extra 2 with
                        | none => .error (fatal issued)
                        | some extra => acquire m mapGrowths small (growth + 1) extra issued
                    | .failReturn => .error (fatal issued)
                    | .failHalt => .error (haltFatal issued)

/-- The loop over the attempts to leave the boot services. -/
def exitLoop (m : Machine) (ebsRetries : Nat) (postMap : MapGet) :
    (attempt : Nat) → Boundary → List EbsGet → List Call → Progress
  | attempt, boundary, replies, issued =>
      if attempt < ebsRetries then
        if ¬m.publishes attempt then (if boundary = .postEbs then haltFatal issued else fatal issued)
        else
          match replies with
          | [] => ⟨issued, none⟩
          | reply :: rest =>
              let issued := issued ++ [.exitBootServices]
              if reply = .ok then ⟨issued, some .handoff⟩
              else
                let err := if reply = .invalidParameter then Err.invalidParameter else .unexpected
                match onExitBootServicesError err (attempt + 1 < ebsRetries) with
                | .retryRetained =>
                    let issued := issued ++ [.getMemoryMap]
                    if postMap = .ok then exitLoop m ebsRetries postMap (attempt + 1) .postEbs rest issued
                    else
                      let mapErr := if postMap = .bufferTooSmall then Err.bufferTooSmall else .unexpected
                      match onGetMemoryMapError .postEbs mapErr false with
                      | .failHalt => haltFatal issued
                      | .grow | .failReturn => haltFatal issued
                | .failHalt => haltFatal issued
      else haltFatal issued

/-- `main` from `getMemoryMapInfo` on, with `MAP_GROWTHS` and `EBS_RETRIES` of this size. -/
def main (m : Machine) (mapGrowths ebsRetries : Nat) (preTooSmall : Nat) (ebs : List EbsGet) (postMap : MapGet) : Progress :=
  match acquire m mapGrowths preTooSmall 0 mapHeadroomDescs [.getMemoryMapInfo] with
  | .error p => p
  | .ok issued => exitLoop m ebsRetries postMap 0 .preEbs ebs issued

end Loader

end Boot
