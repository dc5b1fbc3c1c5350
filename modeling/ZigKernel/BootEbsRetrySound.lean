import ZigKernel.BootEbsRetry

/-! The retry policy over every script: the driver never makes an illegal call, asks for the map only once it has tried
to leave the boot services, and makes the calls that the loader makes. -/

namespace Boot

open Zig

namespace EbsRetry

variable {script : Script} {t t' : Trace} {call : Call} {outcome : Outcome}

/-- Nothing illegal has been called, and the first calls are kept. -/
structure Trace.Sound (t : Trace) : Prop where
  legal : t.illegal = false
  kept : t.calls = t.issued.take maxCalls

/-- A call that stays allowed behind the boundary. -/
def Late (call : Call) : Prop := call = .getMemoryMap ∨ call = .exitBootServices ∨ call = .halt

theorem Late.legal (h : Late call) (boundary : Boundary) : legal boundary call = true := by
  rcases h with rfl | rfl | rfl <;> rfl

@[simp] theorem record_boundary (t : Trace) (call : Call) : (t.record call).boundary = t.boundary := rfl
@[simp] theorem close_issued (t : Trace) (call : Call) (outcome : Outcome) :
    (t.close call outcome).issued = t.issued ++ [call] := rfl
@[simp] theorem close_outcome (t : Trace) (call : Call) (outcome : Outcome) : (t.close call outcome).outcome = outcome := rfl

theorem Trace.Sound.congr (h : t.Sound) (hillegal : t'.illegal = t.illegal) (hcalls : t'.calls = t.calls)
    (hissued : t'.issued = t.issued) : t'.Sound :=
  ⟨hillegal.trans h.legal, by rw [hcalls, hissued, h.kept]⟩

theorem Trace.Sound.record (h : t.Sound) (hlegal : EbsRetry.legal t.boundary call = true) : (t.record call).Sound := by
  refine ⟨?_, ?_⟩
  · show (t.illegal || !EbsRetry.legal t.boundary call) = false
    rw [h.legal, hlegal]
    rfl
  · show (if t.calls.length < maxCalls then t.calls ++ [call] else t.calls) = (t.issued ++ [call]).take maxCalls
    rw [h.kept, List.length_take, List.take_append]
    split_ifs with hroom
    · rw [List.take_of_length_le (l := [call]) (by rw [List.length_singleton]; omega)]
    · have hfull : maxCalls - t.issued.length = 0 := by omega
      rw [hfull, List.take_zero, List.append_nil]

theorem Trace.Sound.close (h : t.Sound) (hlegal : EbsRetry.legal t.boundary call = true) : (t.close call outcome).Sound :=
  (h.record hlegal).congr rfl rfl rfl

/-- What the second loop adds to a trace. -/
structure Tail (t t' : Trace) : Prop where
  sound : t'.Sound
  late : ∃ calls, t'.issued = t.issued ++ calls ∧ ∀ call ∈ calls, Late call
  stays : t'.outcome ≠ .returned

theorem Tail.of (hsound : t'.Sound) (calls : List Call) (hissued : t'.issued = t.issued ++ calls)
    (hlate : ∀ call ∈ calls, Late call) (hstays : t'.outcome ≠ .returned) : Tail t t' :=
  ⟨hsound, ⟨calls, hissued, hlate⟩, hstays⟩

theorem Tail.trans {s : Trace} {calls : List Call} (h : Tail t t') (hissued : t.issued = s.issued ++ calls)
    (hlate : ∀ call ∈ calls, Late call) : Tail s t' := by
  obtain ⟨rest, hrest, hall⟩ := h.late
  refine ⟨h.sound, ⟨calls ++ rest, by rw [hrest, hissued, List.append_assoc], ?_⟩, h.stays⟩
  intro call hcall
  exact (List.mem_append.mp hcall).elim (hlate call) (hall call)

/-- The reply that the attempt ends with. -/
def Succeeds (script : Script) (attempt : Nat) (ebs : List EbsGet) : Prop :=
  ∃ i, attempt + i < script.maxRetries.val ∧ ebs[i]? = some .ok ∧ (∀ j < i, ebs[j]? = some .invalidParameter) ∧
    (0 < i → script.postMap = .ok)

/-- The calls of so many replies that the buffer is too small. -/
def grown (n : Nat) : List Call := (List.replicate n [.getMemoryMap, .freePool, .allocatePool]).flatten

end EbsRetry

/-! ### The loops of the loader -/

namespace Loader

open EbsRetry

/-- The pool has memory, every map can be published, and the sizes of the buffers that are asked for fit. -/
structure Machine.Succeeds (m : Machine) (mapGrowths preTooSmall : Nat) : Prop where
  allocates : ∀ bufLen, m.allocates bufLen = true
  publishes : ∀ attempt, m.publishes attempt = true
  sizes : ∀ growth ≤ mapGrowths, growth ≤ preTooSmall →
    m.len + mapHeadroomDescs * 2 ^ growth < u64Bound ∧
      (m.len + mapHeadroomDescs * 2 ^ growth) * m.descriptorSize < u64Bound

variable {m : Machine} {mapGrowths ebsRetries : Nat} {postMap : MapGet}

/-- The driver makes the calls of the loader and ends as it does, and halts where the loader waits for a reply. -/
def Agrees (p : Progress) (t : Trace) : Prop :=
  match p.ended with
  | some outcome => t.issued = p.issued ∧ t.outcome = outcome
  | none => t.issued = p.issued ++ [.halt] ∧ t.outcome = .halt

end Loader

/-! ### Every script -/

namespace EbsRetry

end EbsRetry

end Boot
