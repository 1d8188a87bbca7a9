import Pistache.Mailbox.MpmcInvariant

/-!
# `MPMCQueue` is a bounded queue

* `Inv.diff_enqueue`, `Inv.diff_dequeue` — a thread that is not overtaken sees how far its cell
  is from its turn.
* `Inv.enqueueAlone`, `Inv.dequeueAlone` — a call that runs alone succeeds when its cell is ready.
* `bounded_fifo` — over every interleaving: first in and first out, nothing lost or returned
  twice, at most `Size` values at a time, and false only from a full or an empty queue.
-/

set_option autoImplicit false

namespace Pistache.Mailbox

open Machine

section

variable {T : Type} {size : Size} {s : System T}

/-! ## Calls that return false -/

/-- A producer that is not overtaken sees the difference of the counts. -/
theorem Inv.diff_enqueue (h : Inv size s) {i : Nat} {data : T} {index : Word}
    (hpc : s.queue.threads i = .enqueueSequence data index) (hov : ¬ s.Overtaken size i) :
    diff (s.queue.cell size index).sequence index =
      ((s.ring.stage (s.ticket i % size.cells)).turn : Int) - s.ticket i := by
  have hknows := h.knows i
  rw [hpc] at hknows
  obtain ⟨hword, hle⟩ := hknows
  have hsize := size.cells_le
  unfold System.Overtaken at hov
  rw [hword, h.sequence_cell]
  by_cases hbehind : (s.ring.stage (s.ticket i % size.cells)).turn < s.ticket i
  · obtain ⟨heq, -⟩ := h.ring.not_free_of_turn_lt size.cells_pos hle hbehind
    have hnear := (h.ring.turn_near (size.mod_lt (s.ticket i))).1
    exact diff_of_near (by omega) (by omega)
  · exact diff_of_near (by omega) (by omega)

/-- A consumer that is not overtaken sees the difference of the counts. -/
theorem Inv.diff_dequeue (h : Inv size s) {i : Nat} {index : Word}
    (hpc : s.queue.threads i = .dequeueSequence index) (hov : ¬ s.Overtaken size i) :
    diff (s.queue.cell size index).sequence (index + 1) =
      ((s.ring.stage (s.ticket i % size.cells)).turn : Int) - (s.ticket i + 1 : Nat) := by
  have hknows := h.knows i
  rw [hpc] at hknows
  obtain ⟨hword, hle⟩ := hknows
  have hsize := size.cells_le
  unfold System.Overtaken at hov
  rw [hword, h.sequence_cell, Ticket.ofNat_succ]
  by_cases hbehind : (s.ring.stage (s.ticket i % size.cells)).turn ≤ s.ticket i
  · obtain ⟨heq, -⟩ := h.ring.not_full_of_turn_lt size.cells_pos hle hbehind
    have hnear := (h.ring.turn_near_taken (size.mod_lt (s.ticket i))).1
    exact diff_of_near (by omega) (by omega)
  · exact diff_of_near (by omega) (by omega)

/-- A call returns false at its load of a sequence, when the difference is negative. -/
theorem MPMCQueue.refuses {q : MPMCQueue T} {i : Nat} {spurious : Bool}
    (hruns : (q.threads i).Rests = false) :
    ((q.advance size i spurious).threads i = .enqueued false →
      ∃ data index, q.threads i = .enqueueSequence data index ∧
        diff (q.cell size index).sequence index < 0) ∧
    ((q.advance size i spurious).threads i = .dequeued none →
      ∃ index, q.threads i = .dequeueSequence index ∧
        diff (q.cell size index).sequence (index + 1) < 0) := by
  unfold advance
  cases hi : q.threads i with
  | idle | enqueued result | dequeued result =>
    rw [hi] at hruns
    cases hruns
  | enqueueSequence data index =>
    dsimp only
    split
    · simp [goto]
    · split
      · rename_i hdiff
        exact ⟨fun _ => ⟨data, index, rfl, hdiff⟩, by simp [goto]⟩
      · simp [goto]
  | dequeueSequence index =>
    dsimp only
    split
    · simp [goto]
    · split
      · rename_i hdiff
        exact ⟨by simp [goto], fun _ => ⟨index, rfl, hdiff⟩⟩
      · simp [goto]
  | enqueueExchange data index | dequeueExchange index =>
    dsimp only
    split <;> simp [goto]
  | enqueueIndex data | enqueueData data index | enqueueStore index | dequeueIndex
  | dequeueData index | dequeueStore data index =>
    simp [goto]

/-! ## The queue -/

/-- A bounded queue, first in and first out: the tickets of `enqueue` and of `dequeue` are given in
the order of the exchanges. -/
structure Fifo (size : Size) (s : System T) : Prop where
  /-- what is returned for a ticket has been stored for it -/
  values : ∀ p ∈ s.ring.returned, s.ring.stored[p.1]? = some p.2
  once : (s.ring.returned.map Prod.fst).Nodup
  /-- the tickets that have been taken are those returned and those of calls in flight -/
  gapless : ∀ t, t < s.ring.taken ↔ t ∈ s.ring.returned.map Prod.fst ∨
    ∃ i, (s.queue.threads i).Reads ∧ s.ticket i = t
  alone : ∀ i, (s.queue.threads i).Reads → s.ticket i ∉ s.ring.returned.map Prod.fst ∧
    ∀ j, (s.queue.threads j).Reads → s.ticket j = s.ticket i → j = i
  /-- with no `dequeue` in flight, the values returned are the first ones stored, in order -/
  in_order : (∀ i, (s.queue.threads i).Reads = false) →
    s.ring.returned.Perm ((List.range s.ring.taken).zip s.ring.stored)
  /-- the values that have not been taken are in the cells, or are being written -/
  kept : ∀ t v, s.ring.taken ≤ t → s.ring.stored[t]? = some v →
    s.queue.cells (t % size.cells) = ⟨BitVec.ofNat 64 (t + 1), v⟩ ∨
      ∃ i, (s.queue.threads i).Writes ∧ s.ticket i = t
  capacity : s.ring.stored.length ≤ s.ring.returned.length + size.cells
  enqueue_false : ∀ i spurious, (s.queue.threads i).Rests = false → ¬ s.Overtaken size i →
    (s.queue.advance size i spurious).threads i = .enqueued false →
      (s.queue.cell size s.queue.enqueueIndex).sequence ≠ s.queue.enqueueIndex ∧
        ∃ k < size.cells, ∀ t, s.ring.stage k ≠ .free t
  dequeue_false : ∀ i spurious, (s.queue.threads i).Rests = false → ¬ s.Overtaken size i →
    (s.queue.advance size i spurious).threads i = .dequeued none →
      (s.queue.cell size s.queue.dequeueIndex).sequence ≠ s.queue.dequeueIndex + 1 ∧
        s.ring.stage (s.ring.taken % size.cells) ≠ .full s.ring.taken

/-- A thread that has a ticket of `dequeue` reads its cell. -/
theorem Inv.reading (h : Inv size s) {i : Nat} (hreads : (s.queue.threads i).Reads) :
    s.ring.stage (s.ticket i % size.cells) = .reading (s.ticket i) i := by
  have hknows := h.knows i
  cases hpc : s.queue.threads i <;> rw [hpc] at hreads hknows <;> cases hreads
  · exact hknows.2
  · exact hknows.2.1

theorem Inv.reads_iff (h : Inv size s) (t : Nat) :
    (∃ i, s.ring.stage (t % size.cells) = .reading t i) ↔
      ∃ i, (s.queue.threads i).Reads ∧ s.ticket i = t := by
  constructor
  · rintro ⟨i, hstage⟩
    exact ⟨i, h.reader _ (size.mod_lt t) t i hstage⟩
  · rintro ⟨i, hreads, rfl⟩
    exact ⟨i, h.reading hreads⟩

theorem Inv.fifo (h : Inv size s) : Fifo size s where
  values := h.ring.values
  once := h.ring.once
  gapless t := by rw [h.ring.accounted t, h.reads_iff t]
  alone i hi := by
    have hstage := h.reading hi
    refine ⟨fun hmem => h.ring.apart _ hmem i hstage, fun j hj hticket => ?_⟩
    have hstage' := h.reading hj
    rw [hticket, hstage] at hstage'
    cases hstage'
    rfl
  in_order hno := by
    refine h.ring.returned_perm fun t i hreading => ?_
    have hreads := (h.reader _ (size.mod_lt t) t i hreading).1
    rw [hno i] at hreads
    cases hreads
  kept t v htaken hstored := by
    have hk := size.mod_lt t
    have hlt := (List.getElem?_eq_some_iff.mp hstored).1
    rcases h.ring.waiting size.cells_pos htaken hlt with hfull | ⟨i, hwriting⟩
    · refine .inl ?_
      have hsequence := h.sequence _ hk
      have hdata := h.data _ hk t (.inl hfull)
      rw [hfull] at hsequence
      rw [hstored] at hdata
      cases hcell : s.queue.cells (t % size.cells) with
      | mk sequence data =>
        rw [hcell] at hsequence hdata
        rw [Option.some.inj hdata]
        exact congrArg (Cell.mk · data) hsequence
    · exact .inr ⟨i, h.writer _ hk t i hwriting⟩
  capacity := h.ring.capacity size.cells_pos
  enqueue_false i spurious hruns hov hstep := by
    obtain ⟨data, index, hpc, hdiff⟩ := (MPMCQueue.refuses hruns).1 hstep
    have hknows := h.knows i
    rw [hpc] at hknows
    obtain ⟨hword, hle⟩ := hknows
    have hnear := h.diff_enqueue hpc hov
    obtain ⟨hticket, hstage⟩ := h.ring.not_free_of_turn_lt size.cells_pos hle (by omega)
    refine ⟨fun heq => ?_, _, size.mod_lt _, hstage⟩
    rw [h.enqueueIndex, ← hticket, ← hword] at heq
    rw [diff_eq_zero.mpr heq] at hdiff
    omega
  dequeue_false i spurious hruns hov hstep := by
    obtain ⟨index, hpc, hdiff⟩ := (MPMCQueue.refuses hruns).2 hstep
    have hknows := h.knows i
    rw [hpc] at hknows
    obtain ⟨hword, hle⟩ := hknows
    have hnear := h.diff_dequeue hpc hov
    obtain ⟨hticket, hstage⟩ := h.ring.not_full_of_turn_lt size.cells_pos hle (by omega)
    refine ⟨fun heq => ?_, hticket ▸ hstage⟩
    rw [h.dequeueIndex, ← hticket, ← hword] at heq
    rw [diff_eq_zero.mpr heq] at hdiff
    omega

/-! ## Calls that run alone -/

/-- No thread holds a ticket. -/
def System.Calm (s : System T) : Prop :=
  ∀ i, (s.queue.threads i).Writes = false ∧ (s.queue.threads i).Reads = false

/-- With room, the next ticket for `enqueue` finds its cell free. -/
theorem Inv.free_of_calm (h : Inv size s) (hcalm : s.Calm)
    (hroom : s.ring.stored.length < s.ring.taken + size.cells) :
    s.ring.stage (s.ring.stored.length % size.cells) = .free s.ring.stored.length := by
  have hk := size.mod_lt s.ring.stored.length
  have hlies := h.ring.lies _ hk
  have hticket := h.ring.cell _ hk
  have hbehind := h.ring.behind
  cases hstage : s.ring.stage (s.ring.stored.length % size.cells) with
  | free t =>
    rw [hstage] at hlies hticket
    simp only [TicketRing.Lies] at hlies
    rw [Ticket.eq_of_mod_eq (show t % size.cells = _ from hticket) (by omega) (by omega)]
  | full t =>
    rw [hstage] at hlies hticket
    simp only [TicketRing.Lies] at hlies
    have := Ticket.eq_of_mod_eq (show t % size.cells = _ from hticket) (by omega) (by omega)
    omega
  | writing t i =>
    have hwrites := (h.writer _ hk t i hstage).1
    rw [(hcalm i).1] at hwrites
    cases hwrites
  | reading t i =>
    have hreads := (h.reader _ hk t i hstage).1
    rw [(hcalm i).2] at hreads
    cases hreads

/-- With a value stored, the next ticket for `dequeue` finds its cell full. -/
theorem Inv.full_of_calm (h : Inv size s) (hcalm : s.Calm)
    (hsome : s.ring.taken < s.ring.stored.length) :
    s.ring.stage (s.ring.taken % size.cells) = .full s.ring.taken := by
  refine (h.ring.waiting size.cells_pos (Nat.le_refl _) hsome).resolve_right ?_
  rintro ⟨i, hwriting⟩
  have hwrites := (h.writer _ (size.mod_lt _) _ i hwriting).1
  rw [(hcalm i).1] at hwrites
  cases hwrites

def enqueueAlone (i : Nat) (data : T) : List (Event T) :=
  .enqueue i data :: List.replicate 5 (.step i false)

def dequeueAlone (i : Nat) : List (Event T) := .dequeue i :: List.replicate 5 (.step i false)

/-- A call of `enqueue` that runs alone succeeds, when the cell of the next ticket is free. -/
theorem Inv.enqueueAlone (h : Inv size s) {i : Nat} (data : T)
    (hrests : (s.queue.threads i).Rests)
    (hfree : s.ring.stage (s.ring.stored.length % size.cells) = .free s.ring.stored.length) :
    Always (System.step size) (System.Fresh size) s (enqueueAlone i data) ∧
    s.run size (Mailbox.enqueueAlone i data) =
      { queue :=
          { cells := Function.update s.queue.cells (size.cellIndex s.queue.enqueueIndex)
              ⟨s.queue.enqueueIndex + 1, data⟩
            enqueueIndex := s.queue.enqueueIndex + 1
            dequeueIndex := s.queue.dequeueIndex
            threads := Function.update s.queue.threads i (.enqueued true) }
        ring := (s.ring.claim size.cells i data).publish size.cells s.ring.stored.length
        ticket := Function.update s.ticket i s.ring.stored.length } := by
  have hsequence : (s.queue.cells (size.cellIndex s.queue.enqueueIndex)).sequence =
      s.queue.enqueueIndex := by
    have := h.sequence_cell s.ring.stored.length
    rw [hfree, ← h.enqueueIndex] at this
    exact this.trans h.enqueueIndex.symm
  constructor
  · simp [Always, Mailbox.enqueueAlone, System.Fresh, System.step, MPMCQueue.step,
      MPMCQueue.advance, System.record, System.loaded, MPMCQueue.goto, MPMCQueue.setCell,
      MPMCQueue.cell, hrests, hsequence]
  · simp [System.run, Machine.run, Mailbox.enqueueAlone, System.step, MPMCQueue.step,
      MPMCQueue.advance, System.record, System.loaded, MPMCQueue.goto, MPMCQueue.setCell,
      MPMCQueue.cell, hrests, hsequence]

/-- A call of `dequeue` that runs alone succeeds, when the cell of the next ticket is full. -/
theorem Inv.dequeueAlone (h : Inv size s) {i : Nat} (hrests : (s.queue.threads i).Rests)
    (hfull : s.ring.stage (s.ring.taken % size.cells) = .full s.ring.taken) :
    Always (System.step size) (System.Fresh size) s (dequeueAlone i) ∧
    s.run size (Mailbox.dequeueAlone i) =
      { queue :=
          { cells := Function.update s.queue.cells (size.cellIndex s.queue.dequeueIndex)
              { s.queue.cell size s.queue.dequeueIndex with
                sequence := s.queue.dequeueIndex + size.mask + 1 }
            enqueueIndex := s.queue.enqueueIndex
            dequeueIndex := s.queue.dequeueIndex + 1
            threads := Function.update s.queue.threads i
              (.dequeued (some (s.queue.cell size s.queue.dequeueIndex).data)) }
        ring := (s.ring.take size.cells i).release size.cells s.ring.taken
          (s.queue.cell size s.queue.dequeueIndex).data
        ticket := Function.update s.ticket i s.ring.taken } := by
  have hsequence : (s.queue.cells (size.cellIndex s.queue.dequeueIndex)).sequence =
      s.queue.dequeueIndex + 1 := by
    have := h.sequence_cell s.ring.taken
    rw [hfull, ← h.dequeueIndex] at this
    rw [← MPMCQueue.cell, this, h.dequeueIndex, Ticket.ofNat_succ]
    rfl
  constructor
  · simp [Always, Mailbox.dequeueAlone, System.Fresh, System.step, MPMCQueue.step,
      MPMCQueue.advance, System.record, System.loaded, MPMCQueue.goto, MPMCQueue.cell, hrests,
      hsequence]
  · simp [System.run, Machine.run, Mailbox.dequeueAlone, System.step, MPMCQueue.step,
      MPMCQueue.advance, System.record, System.loaded, MPMCQueue.goto, MPMCQueue.setCell,
      MPMCQueue.cell, hrests, hsequence]

/-- Without values and tickets, all cells are free. -/
theorem Inv.free_of_empty (h : Inv size s) (hcalm : s.Calm)
    (hempty : s.ring.stored.length = s.ring.taken) {k : Nat} (hk : k < size.cells) :
    ∃ t, s.ring.stage k = .free t := by
  have hlies := h.ring.lies k hk
  cases hstage : s.ring.stage k with
  | free t => exact ⟨t, rfl⟩
  | full t =>
    rw [hstage] at hlies
    simp only [TicketRing.Lies] at hlies
    omega
  | writing t i =>
    have hwrites := (h.writer k hk t i hstage).1
    rw [(hcalm i).1] at hwrites
    cases hwrites
  | reading t i =>
    have hreads := (h.reader k hk t i hstage).1
    rw [(hcalm i).2] at hreads
    cases hreads

/-- Thread 1 runs alone; thread 0 is at `pc`, with the index of the first ticket. -/
structure Still (size : Size) (pc : Pc T) (e d : Nat) (s : System T) : Prop where
  inv : Inv size s
  calm : s.Calm
  rests : (s.queue.threads 1).Rests
  thread : s.queue.threads 0 = pc
  ticket : s.ticket 0 = 0
  stored : s.ring.stored.length = e
  taken : s.ring.taken = d
  returned : s.ring.returned.length = d

variable {pc : Pc T} {e d : Nat}

theorem System.Calm.update (hcalm : s.Calm) (i : Nat) {pc : Pc T} (hpc : pc.Rests) {s' : System T}
    (hthreads : s'.queue.threads = Function.update s.queue.threads i pc) : s'.Calm := by
  intro j
  rw [hthreads]
  by_cases hj : j = i
  · subst hj
    rw [Function.update_self]
    cases pc <;> cases hpc <;> exact ⟨rfl, rfl⟩
  · rw [Function.update_of_ne hj]
    exact hcalm j

theorem Still.enqueue (h : Still size pc e d s) (hroom : e < d + size.cells) (data : T) :
    Still size pc (e + 1) d (s.run size (enqueueAlone 1 data)) := by
  obtain ⟨hfresh, hrun⟩ := h.inv.enqueueAlone data h.rests
    (h.inv.free_of_calm h.calm (by rw [h.stored, h.taken]; exact hroom))
  have hinv := h.inv.run _ hfresh
  rw [hrun] at hinv ⊢
  refine ⟨hinv, h.calm.update 1 rfl rfl, rfl, h.thread, h.ticket, ?_, h.taken, h.returned⟩
  rw [TicketRing.publish, TicketRing.claim, List.length_append, List.length_singleton, h.stored]

theorem Still.dequeue (h : Still size pc e d s) (hsome : d < e) :
    Still size pc e (d + 1) (s.run size (dequeueAlone 1)) := by
  obtain ⟨hfresh, hrun⟩ := h.inv.dequeueAlone h.rests
    (h.inv.full_of_calm h.calm (by rw [h.stored, h.taken]; exact hsome))
  have hinv := h.inv.run _ hfresh
  rw [hrun] at hinv ⊢
  refine ⟨hinv, h.calm.update 1 rfl rfl, rfl, h.thread, h.ticket, h.stored, ?_, ?_⟩
  · rw [TicketRing.release, TicketRing.take, h.taken]
  · rw [TicketRing.release, TicketRing.take, List.length_append, List.length_singleton, h.returned]

/-- Thread 1 stores and takes a value, `n` times. -/
def pairs (data : T) (n : Nat) : List (Event T) :=
  (List.replicate n (enqueueAlone 1 data ++ dequeueAlone 1)).flatten

theorem Still.pairs (data : T) : ∀ (n : Nat) {count : Nat} {s : System T},
    Still size pc count count s →
      Still size pc (count + n) (count + n) (s.run size (pairs data n))
  | 0, _, _, h => h
  | n + 1, count, s, h => by
    have hroom : count < count + size.cells := Nat.lt_add_of_pos_right size.cells_pos
    have hpair := (h.enqueue hroom data).dequeue (Nat.lt_succ_self count)
    have hrest := Still.pairs data n hpair
    rw [Mailbox.pairs, List.replicate_succ, List.flatten_cons, System.run, run_append, run_append,
      Nat.add_comm n 1, ← Nat.add_assoc]
    exact hrest

end

/-- **`MPMCQueue` is a bounded queue, first in and first out**, for every interleaving of any
number of calls in which no exchange finds its index again after `2 ^ 64` tickets, in a cell that
is not ready for it; also when the indices wrap around. -/
theorem bounded_fifo {T : Type} [Inhabited T] (size : Size) (events : List (Event T))
    (hfresh : Always (System.step size) (System.Fresh size) (System.init T) events) :
    Fifo size ((System.init T).run size events) :=
  (Inv.init.run events hfresh).fifo

def two : Size := ⟨2, by decide, by decide⟩

theorem two_cells : two.cells = 2 := rfl

/-- A value passes through the queue. -/
theorem bounded_fifo_pair : Fifo two ((System.init Nat).run two (pairs 7 1)) ∧
    ((System.init Nat).run two (pairs 7 1)).ring.returned = [(0, 7)] := by
  refine ⟨bounded_fifo two (pairs 7 1) ?_, by decide⟩
  exact ⟨trivial, trivial, trivial, fun _ h => absurd rfl h, trivial, trivial, trivial, trivial,
    trivial, fun _ h => absurd rfl h, trivial, trivial, trivial⟩

/-- A producer has loaded its index when `n` values pass through the queue. -/
def stalled (n : Nat) : List (Event Nat) := [.enqueue 0 7, .step 0 false] ++ pairs 0 n

/-- A producer is about to exchange when `n` values pass through the queue and two are stored;
then it goes on. -/
def resumed (n : Nat) : List (Event Nat) :=
  [.enqueue 0 7, .step 0 false, .step 0 false] ++ (pairs 0 n ++
    (enqueueAlone 1 0 ++ (enqueueAlone 1 0 ++ [.step 0 false])))

theorem calm_called {pc : Pc Nat} {s : System Nat}
    (hthreads : s.queue.threads = Function.update (fun _ => .idle) 0 pc)
    (hpc : pc.Writes = false ∧ pc.Reads = false) : s.Calm := by
  intro i
  rw [hthreads]
  by_cases hi : i = 0
  · subst hi
    exact hpc
  · rw [Function.update_of_ne hi]
    exact ⟨rfl, rfl⟩

theorem still_loaded : Still two (.enqueueSequence 7 0) 0 0
    ((System.init Nat).run two [.enqueue 0 7, .step 0 false]) where
  inv := Inv.init.run _ ⟨trivial, trivial, trivial⟩
  calm := calm_called (Function.update_idem ..) ⟨rfl, rfl⟩
  rests := rfl
  thread := rfl
  ticket := rfl
  stored := rfl
  taken := rfl
  returned := rfl

theorem still_ready : Still two (.enqueueExchange 7 0) 0 0
    ((System.init Nat).run two [.enqueue 0 7, .step 0 false, .step 0 false]) where
  inv := Inv.init.run _ ⟨trivial, trivial, trivial, trivial⟩
  calm := calm_called ((congrArg (Function.update · 0 _) (Function.update_idem ..)).trans
    (Function.update_idem ..)) ⟨rfl, rfl⟩
  rests := rfl
  thread := rfl
  ticket := rfl
  stored := rfl
  taken := rfl
  returned := rfl

theorem stalled_refuses (n : Nat) (heven : n % 2 = 0) (hn : diff (BitVec.ofNat 64 n) 0 < 0) :
    (((System.init Nat).run two (stalled n)).queue.threads 0).Rests = false ∧
    (((System.init Nat).run two (stalled n)).queue.advance two 0 false).threads 0 =
      .enqueued false ∧
    ∀ k < two.cells, ∃ t, ((System.init Nat).run two (stalled n)).ring.stage k = .free t := by
  have h := still_loaded.pairs 0 n
  rw [Nat.zero_add] at h
  have hrun : (System.init Nat).run two (stalled n) =
      ((System.init Nat).run two [.enqueue 0 7, .step 0 false]).run two (pairs 0 n) :=
    run_append _ _ _
  rw [hrun]
  refine ⟨by rw [h.thread]; rfl, ?_, fun k hk =>
    h.inv.free_of_empty h.calm (h.stored.trans h.taken.symm) hk⟩
  have hfree := h.inv.free_of_calm h.calm (by rw [h.stored, h.taken, two_cells]; omega)
  have hsequence := h.inv.sequence_cell 0
  rw [h.stored, two_cells, heven] at hfree
  rw [two_cells, Nat.zero_mod, hfree] at hsequence
  have hdiff : diff (((((System.init Nat).run two [.enqueue 0 7, .step 0 false]).run two
      (pairs 0 n)).queue.cell two 0).sequence) 0 < 0 := by
    rw [show (0 : Word) = BitVec.ofNat 64 0 from rfl, hsequence]
    exact hn
  rw [MPMCQueue.advance, h.thread]
  dsimp only
  rw [if_neg (ne_of_lt hdiff), if_pos hdiff]
  simp [MPMCQueue.goto]

theorem resumed_stores (n : Nat) (hn : BitVec.ofNat 64 (n + 1 + 1) = 0) :
    ((System.init Nat).run two (resumed n)).ring.returned.length + two.cells <
      ((System.init Nat).run two (resumed n)).ring.stored.length := by
  have h := still_ready.pairs 0 n
  rw [Nat.zero_add] at h
  have h' := (h.enqueue (by rw [two_cells]; omega) 0).enqueue (by rw [two_cells]; omega) 0
  have hrun : (System.init Nat).run two (resumed n) = (((((System.init Nat).run two
      [.enqueue 0 7, .step 0 false, .step 0 false]).run two (pairs 0 n)).run two
        (enqueueAlone 1 0)).run two (enqueueAlone 1 0)).step two (.step 0 false) := by
    rw [resumed, System.run, run_append, run_append, run_append, run_append]
    rfl
  rw [hrun]
  generalize ((((System.init Nat).run two [.enqueue 0 7, .step 0 false, .step 0 false]).run two
    (pairs 0 n)).run two (enqueueAlone 1 0)).run two (enqueueAlone 1 0) = s at h'
  have hindex : s.queue.enqueueIndex = 0 := by rw [h'.inv.enqueueIndex, h'.stored, hn]
  have hring : (s.step two (.step 0 false)).ring = s.ring.claim two.cells 0 7 := by
    simp [System.step, System.record, h'.thread, hindex]
  have hstored := h'.stored
  have hreturned := h'.returned
  simp only [hring, TicketRing.claim, List.length_append, List.length_singleton, two_cells]
  omega

/-- A producer that is overtaken by `2 ^ 63` tickets returns false with all cells free; one that
is overtaken by `2 ^ 64` tickets at its exchange stores a value too many. -/
theorem overtaken :
    ((((System.init Nat).run two (stalled (2 ^ 63))).queue.threads 0).Rests = false ∧
      (((System.init Nat).run two (stalled (2 ^ 63))).queue.advance two 0 false).threads 0 =
        .enqueued false ∧
      ∀ k < two.cells, ∃ t,
        ((System.init Nat).run two (stalled (2 ^ 63))).ring.stage k = .free t) ∧
    ((System.init Nat).run two (resumed (2 ^ 64 - 2))).ring.returned.length + two.cells <
      ((System.init Nat).run two (resumed (2 ^ 64 - 2))).ring.stored.length :=
  ⟨stalled_refuses (2 ^ 63) (by decide) (by decide), resumed_stores (2 ^ 64 - 2) (by decide)⟩

end Pistache.Mailbox
