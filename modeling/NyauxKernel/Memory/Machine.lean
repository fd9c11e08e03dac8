/-
The state that the memory subsystem works on.

Memory is the physical memory seen through the higher half direct map: the word
at address `a` is the 64-bit word of physical address `a - hhdm`.  All accesses
of the modelled code are to whole aligned words, or fill ranges of whole words
with zero.  The statics of the source are fields; `pmmCalls` is a record of the
calls made to the page allocator and is read by no function.
-/

import NyauxKernel.Word
import NyauxKernel.Library.WordMemory

namespace NyauxKernel.Memory

/-- How a run of kernel code can end without returning. -/
inductive Halt
  | panic (message : String)
  | diverges
deriving DecidableEq, Repr

def unwrapNone : Halt := .panic "called `Option::unwrap()` on a `None` value"

def unwrapErr (message : String) : Halt :=
  .panic ("called `Result::unwrap()` on an `Err` value: " ++ message)

structure SlabCache where
  size : Nat
  slabs : Nat
deriving DecidableEq, Repr

structure Pagemap where
  archPage : Nat
  khead : Option Nat
deriving DecidableEq, Repr

/-- A call of `allocate_page` by the frame it took, or of `deallocate_page` by the
pointer it was given. -/
inductive PmmCall
  | allocated (frame : Nat)
  | released (pointer : Nat)
deriving DecidableEq, Repr

structure Machine where
  memory : Nat → Nat
  freelist : Option Nat
  slabCaches : List SlabCache
  kermap : Option Pagemap
  cr3 : Nat
  pmmCalls : List PmmCall

def Machine.write (m : Machine) (address value : Nat) : Machine :=
  { m with memory := Function.update m.memory address value }

def Machine.writeBytes (m : Machine) (address count : Nat) : Machine :=
  { m with memory := WordMemory.zero m.memory address count }

/-- Wrapping `usize` arithmetic of the release build. -/
def wrap (value : Nat) : Nat := value % addressSpace

/-- `(start..stop).step_by(PAGE_SIZE)`. -/
def pagesBetween (start stop : Nat) : List Nat :=
  (List.range ((stop - start + (pageSize - 1)) / pageSize)).map fun i => start + i * pageSize

end NyauxKernel.Memory
