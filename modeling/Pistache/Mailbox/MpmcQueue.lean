import Pistache.Lib.Machine
import Pistache.Lib.TicketRing

/-!
# The bounded queue of many producers and consumers

`MPMCQueue` with any number of threads that call `enqueue` and `dequeue`.  A step is one access
to memory, in one order for all threads.

* `MPMCQueue.step` — the code.  Its words are 64 bits wide.
* `System.step` — the code beside a history that counts without wrapping; no step of the code
  reads the history.
-/

set_option autoImplicit false

namespace Pistache.Mailbox

open Machine

/-- `size_t`. -/
abbrev Word := BitVec 64

/-- The parameter `Size`, with what the code asserts of it. -/
structure Size where
  word : Word
  two_le : 2 ≤ word.toNat
  and_sub_one : word &&& (word - 1) = 0

def Size.cells (size : Size) : Nat := size.word.toNat

def Size.mask (size : Size) : Word := size.word - 1

/-- `cellIndex`. -/
def Size.cellIndex (size : Size) (index : Word) : Nat := (index &&& size.mask).toNat

structure Cell (T : Type) where
  sequence : Word
  data : T

/-- Where a thread is in a call, and what it holds there. -/
inductive Pc (T : Type) where
  | idle
  /-- before `enqueueIndex.load` -/
  | enqueueIndex (data : T)
  /-- before `target->sequence.load` -/
  | enqueueSequence (data : T) (index : Word)
  /-- before `enqueueIndex.compare_exchange_weak` -/
  | enqueueExchange (data : T) (index : Word)
  /-- before `target->data = data` -/
  | enqueueData (data : T) (index : Word)
  /-- before `target->sequence.store` -/
  | enqueueStore (index : Word)
  | enqueued (result : Bool)
  | dequeueIndex
  | dequeueSequence (index : Word)
  | dequeueExchange (index : Word)
  | dequeueData (index : Word)
  | dequeueStore (data : T) (index : Word)
  | dequeued (result : Option T)

namespace Pc

variable {T : Type}

/-- No call is running. -/
def Rests : Pc T → Bool
  | idle | enqueued _ | dequeued _ => true
  | _ => false

/-- The thread has a ticket of `enqueue`. -/
def Writes : Pc T → Bool
  | enqueueData _ _ | enqueueStore _ => true
  | _ => false

/-- The thread has a ticket of `dequeue`. -/
def Reads : Pc T → Bool
  | dequeueData _ | dequeueStore _ _ => true
  | _ => false

end Pc

/-- `cells_` is an array: no step reaches an entry from `Size` on. -/
structure MPMCQueue (T : Type) where
  cells : Nat → Cell T
  enqueueIndex : Word
  dequeueIndex : Word
  threads : Nat → Pc T

/-- The constructor. -/
def MPMCQueue.init (T : Type) [Inhabited T] : MPMCQueue T where
  cells i := ⟨BitVec.ofNat 64 i, default⟩
  enqueueIndex := 0
  dequeueIndex := 0
  threads _ := .idle

/-- A thread calls, or takes its next step; `spurious` lets a `compare_exchange_weak` fail. -/
inductive Event (T : Type) where
  | enqueue (thread : Nat) (data : T)
  | dequeue (thread : Nat)
  | step (thread : Nat) (spurious : Bool)

/-- `static_cast<std::intptr_t>(seq) - static_cast<std::intptr_t>(index)`, wrapping. -/
def diff (seq index : Word) : Int := (seq - index).toInt

namespace MPMCQueue

variable {T : Type} (size : Size) (q : MPMCQueue T)

def cell (index : Word) : Cell T := q.cells (size.cellIndex index)

def setCell (index : Word) (cell : Cell T) : MPMCQueue T :=
  { q with cells := Function.update q.cells (size.cellIndex index) cell }

def goto (thread : Nat) (pc : Pc T) : MPMCQueue T :=
  { q with threads := Function.update q.threads thread pc }

/-- The next step of a thread. -/
def advance (thread : Nat) (spurious : Bool) : MPMCQueue T :=
  match q.threads thread with
  | .idle | .enqueued _ | .dequeued _ => q
  | .enqueueIndex data => q.goto thread (.enqueueSequence data q.enqueueIndex)
  | .enqueueSequence data index =>
    let diff := diff (q.cell size index).sequence index
    if diff = 0 then q.goto thread (.enqueueExchange data index)
    else if diff < 0 then q.goto thread (.enqueued false)
    else q.goto thread (.enqueueIndex data)
  | .enqueueExchange data index =>
    if q.enqueueIndex = index ∧ spurious = false then
      { q with enqueueIndex := index + 1 }.goto thread (.enqueueData data index)
    else q.goto thread (.enqueueSequence data q.enqueueIndex)
  | .enqueueData data index =>
    (q.setCell size index { q.cell size index with data }).goto thread (.enqueueStore index)
  | .enqueueStore index =>
    (q.setCell size index { q.cell size index with sequence := index + 1 }).goto thread
      (.enqueued true)
  | .dequeueIndex => q.goto thread (.dequeueSequence q.dequeueIndex)
  | .dequeueSequence index =>
    let diff := diff (q.cell size index).sequence (index + 1)
    if diff = 0 then q.goto thread (.dequeueExchange index)
    else if diff < 0 then q.goto thread (.dequeued none)
    else q.goto thread .dequeueIndex
  | .dequeueExchange index =>
    if q.dequeueIndex = index ∧ spurious = false then
      { q with dequeueIndex := index + 1 }.goto thread (.dequeueData index)
    else q.goto thread (.dequeueSequence q.dequeueIndex)
  | .dequeueData index => q.goto thread (.dequeueStore (q.cell size index).data index)
  | .dequeueStore data index =>
    (q.setCell size index { q.cell size index with sequence := index + size.mask + 1 }).goto thread
      (.dequeued (some data))

def step : Event T → MPMCQueue T
  | .enqueue thread data =>
    if (q.threads thread).Rests then q.goto thread (.enqueueIndex data) else q
  | .dequeue thread => if (q.threads thread).Rests then q.goto thread .dequeueIndex else q
  | .step thread spurious => q.advance size thread spurious

end MPMCQueue

/-! ## The history -/

/-- The queue with what has happened: the ring of its tickets, and the count behind the index
that each thread works with. -/
structure System (T : Type) where
  queue : MPMCQueue T
  ring : TicketRing T
  ticket : Nat → Nat

namespace System

variable {T : Type} (size : Size) (s : System T)

def init (T : Type) [Inhabited T] : System T := ⟨.init T, {}, fun _ => 0⟩

/-- What a step adds to the ring. -/
def record (thread : Nat) (spurious : Bool) : TicketRing T :=
  match s.queue.threads thread with
  | .enqueueExchange data index =>
    if s.queue.enqueueIndex = index ∧ spurious = false then s.ring.claim size.cells thread data
    else s.ring
  | .enqueueStore _ => s.ring.publish size.cells (s.ticket thread)
  | .dequeueExchange index =>
    if s.queue.dequeueIndex = index ∧ spurious = false then s.ring.take size.cells thread
    else s.ring
  | .dequeueStore data _ => s.ring.release size.cells (s.ticket thread) data
  | _ => s.ring

/-- The count behind the index that a thread has loaded. -/
def loaded (thread : Nat) : Nat :=
  match s.queue.threads thread with
  | .enqueueIndex _ | .enqueueExchange _ _ => s.ring.stored.length
  | .dequeueIndex | .dequeueExchange _ => s.ring.taken
  | _ => s.ticket thread

def step : Event T → System T
  | .step thread spurious =>
    { queue := s.queue.step size (.step thread spurious)
      ring := s.record size thread spurious
      ticket := Function.update s.ticket thread (s.loaded thread) }
  | event => { s with queue := s.queue.step size event }

def run (events : List (Event T)) : System T := Machine.run (System.step size) s events

/-- A `compare_exchange` that finds the index it expects finds the state that the index stands
for: no number of tickets divisible by `2 ^ 64` has been given since the index was loaded, or the
cell shows the same sequence again. -/
def Fresh (s : System T) : Event T → Prop
  | .step thread _ =>
    match s.queue.threads thread with
    | .enqueueExchange _ index =>
      s.queue.enqueueIndex = index → s.ticket thread ≠ s.ring.stored.length →
        (s.queue.cell size index).sequence = index
    | .dequeueExchange index =>
      s.queue.dequeueIndex = index → s.ticket thread ≠ s.ring.taken →
        (s.queue.cell size index).sequence = index + 1
    | _ => True
  | _ => True

/-- The cell of a thread is `2 ^ 63` tickets or more ahead of it. -/
def Overtaken (thread : Nat) : Prop :=
  s.ticket thread + 2 ^ 63 ≤ (s.ring.stage (s.ticket thread % size.cells)).turn

end System

/-! ## Words -/

namespace Size

variable (size : Size)

theorem cells_eq : ∃ k, 1 ≤ k ∧ k ≤ 63 ∧ size.cells = 2 ^ k := by
  have htwo : 2 ≤ size.cells := size.two_le
  have hone : (1 : Word).toNat ≤ size.word.toNat := le_trans (by decide) htwo
  have hand : size.cells &&& (size.cells - 1) = 0 := by
    have := congrArg BitVec.toNat size.and_sub_one
    rwa [BitVec.toNat_and, BitVec.toNat_sub_of_le hone] at this
  have hzero : size.cells ≠ 0 := by omega
  obtain ⟨k, hk⟩ := (Nat.and_sub_one_eq_zero_iff_isPowerOfTwo hzero).mp hand
  refine ⟨k, ?_, ?_, hk⟩
  · by_contra hzero
    obtain rfl : k = 0 := by omega
    omega
  · have hlt : 2 ^ k < 2 ^ 64 := hk ▸ size.word.isLt
    have := (Nat.pow_lt_pow_iff_right (by decide)).mp hlt
    omega

theorem two_le_cells : 2 ≤ size.cells := size.two_le

theorem cells_pos : 0 < size.cells := Nat.lt_of_lt_of_le (by decide) size.two_le

theorem cells_le : size.cells ≤ 2 ^ 63 := by
  obtain ⟨k, -, hk, hcells⟩ := size.cells_eq
  rw [hcells]
  exact Nat.pow_le_pow_right (by decide) hk

theorem mod_lt (t : Nat) : t % size.cells < size.cells := Nat.mod_lt t size.cells_pos

theorem mask_eq : size.mask = BitVec.ofNat 64 (size.cells - 1) := by
  have hone : (1 : Word).toNat ≤ size.word.toNat := le_trans (by decide) size.two_le
  refine BitVec.eq_of_toNat_eq ?_
  have := size.word.isLt
  rw [mask, BitVec.toNat_sub_of_le hone, BitVec.toNat_ofNat, Nat.mod_eq_of_lt]
  · rfl
  · unfold cells
    omega

theorem cellIndex_ofNat (t : Nat) : size.cellIndex (BitVec.ofNat 64 t) = t % size.cells := by
  obtain ⟨k, -, hk, hcells⟩ := size.cells_eq
  rw [cellIndex, mask_eq, hcells]
  exact Ticket.and_mask (by omega) t

/-- `index + Mask + 1`. -/
theorem add_mask (t : Nat) :
    BitVec.ofNat 64 t + size.mask + 1 = BitVec.ofNat 64 (t + size.cells) := by
  have := size.cells_pos
  rw [mask_eq, ← BitVec.ofNat_add, Ticket.ofNat_succ]
  congr 1
  omega

end Size

theorem diff_eq_zero {seq index : Word} : diff seq index = 0 ↔ seq = index :=
  Ticket.toInt_sub_eq_zero

@[simp] theorem diff_self (index : Word) : diff index index = 0 := diff_eq_zero.mpr rfl

theorem diff_of_near {a b : Nat} (hle : b ≤ a + 2 ^ 63) (hlt : a < b + 2 ^ 63) :
    diff (BitVec.ofNat 64 a) (BitVec.ofNat 64 b) = (a : Int) - b :=
  Ticket.toInt_sub_of_near hle hlt

end Pistache.Mailbox
