import Pistache.Mailbox.MpmcQueue

/-!
# The cells and the threads of `MPMCQueue`

What holds in every state that fresh events reach: the indices and the sequences of the cells are
the words of the counts of a ring with tickets, and a thread knows the stage of its cell.

* `Knows.others` — what a thread knows outlasts the steps of the others.
* `Inv.claim`, `Inv.publish`, `Inv.take`, `Inv.release` — the exchanges and the stores of a
  sequence are the operations of the ring.
* `Inv.run` — every run of fresh events.
-/

set_option autoImplicit false

namespace Pistache.Mailbox

open Machine

/-- What a thread that holds the count `t` knows. -/
def Knows {T : Type} (size : Size) (r : TicketRing T) (cells : Nat → Cell T) (i t : Nat) :
    Pc T → Prop
  | .enqueueSequence _ index => index = BitVec.ofNat 64 t ∧ t ≤ r.stored.length
  | .enqueueExchange _ index => index = BitVec.ofNat 64 t ∧ t ≤ r.stored.length ∧
      (t = r.stored.length →
        r.stage (r.stored.length % size.cells) = .free r.stored.length)
  | .enqueueData data index => index = BitVec.ofNat 64 t ∧
      r.stage (t % size.cells) = .writing t i ∧ r.stored[t]? = some data
  | .enqueueStore index => index = BitVec.ofNat 64 t ∧
      r.stage (t % size.cells) = .writing t i ∧
      r.stored[t]? = some (cells (t % size.cells)).data
  | .dequeueSequence index => index = BitVec.ofNat 64 t ∧ t ≤ r.taken
  | .dequeueExchange index => index = BitVec.ofNat 64 t ∧ t ≤ r.taken ∧
      (t = r.taken → r.stage (r.taken % size.cells) = .full r.taken)
  | .dequeueData index => index = BitVec.ofNat 64 t ∧ r.stage (t % size.cells) = .reading t i
  | .dequeueStore data index => index = BitVec.ofNat 64 t ∧
      r.stage (t % size.cells) = .reading t i ∧ r.stored[t]? = some data
  | _ => True

structure Inv {T : Type} (size : Size) (s : System T) : Prop where
  ring : s.ring.Inv size.cells
  enqueueIndex : s.queue.enqueueIndex = BitVec.ofNat 64 s.ring.stored.length
  dequeueIndex : s.queue.dequeueIndex = BitVec.ofNat 64 s.ring.taken
  sequence : ∀ k < size.cells,
    (s.queue.cells k).sequence = BitVec.ofNat 64 (s.ring.stage k).turn
  data : ∀ k < size.cells, ∀ t, (s.ring.stage k = .full t ∨ ∃ i, s.ring.stage k = .reading t i) →
    s.ring.stored[t]? = some (s.queue.cells k).data
  writer : ∀ k < size.cells, ∀ t i, s.ring.stage k = .writing t i →
    (s.queue.threads i).Writes ∧ s.ticket i = t
  reader : ∀ k < size.cells, ∀ t i, s.ring.stage k = .reading t i →
    (s.queue.threads i).Reads ∧ s.ticket i = t
  knows : ∀ i, Knows size s.ring s.queue.cells i (s.ticket i) (s.queue.threads i)

section

variable {T : Type} {size : Size} {s : System T}

/-- What a thread knows outlasts the steps of the others. -/
theorem Knows.others {r r' : TicketRing T} {cells cells' : Nat → Cell T} {i j t : Nat} {pc : Pc T}
    (hothers : TicketRing.Others size.cells i r r') (hj : j ≠ i)
    (hcells : ∀ k u, r.stage k = .writing u j → (cells' k).data = (cells k).data)
    (h : Knows size r cells j t pc) : Knows size r' cells' j t pc := by
  have hlen : r.stored.length ≤ r'.stored.length := hothers.stored.length_le
  have htaken : r.taken ≤ r'.taken := hothers.taken
  have hvalue : ∀ v, r.stored[t]? = some v → r'.stored[t]? = some v := fun v hv => by
    obtain ⟨rest, hrest⟩ := hothers.stored
    rw [← hrest, List.getElem?_append_left (List.getElem?_eq_some_iff.mp hv).1, hv]
  have hwriting := hothers.owned j hj (.writing t j) rfl
  have hreading := hothers.owned j hj (.reading t j) rfl
  cases pc with
  | enqueueSequence data index => exact ⟨h.1, le_trans h.2 hlen⟩
  | enqueueExchange data index =>
    refine ⟨h.1, le_trans h.2.1 hlen, fun heq => ?_⟩
    have hsame : r'.stored.length = r.stored.length := le_antisymm (heq ▸ h.2.1) hlen
    rw [hsame]
    exact hothers.free hsame (h.2.2 (heq.trans hsame))
  | enqueueData data index => exact ⟨h.1, (hwriting _).mpr h.2.1, hvalue _ h.2.2⟩
  | enqueueStore index =>
    refine ⟨h.1, (hwriting _).mpr h.2.1, hvalue _ ?_⟩
    rw [hcells _ t h.2.1]
    exact h.2.2
  | dequeueSequence index => exact ⟨h.1, le_trans h.2 htaken⟩
  | dequeueExchange index =>
    refine ⟨h.1, le_trans h.2.1 htaken, fun heq => ?_⟩
    have hsame : r'.taken = r.taken := le_antisymm (heq ▸ h.2.1) htaken
    rw [hsame]
    exact hothers.full hsame (h.2.2 (heq.trans hsame))
  | dequeueData index => exact ⟨h.1, (hreading _).mpr h.2⟩
  | dequeueStore data index => exact ⟨h.1, (hreading _).mpr h.2.1, hvalue _ h.2.2⟩
  | _ => trivial

/-- One step of thread `i`, which goes to `pc` with the count `t`. -/
theorem Inv.move (h : Inv size s) {i t : Nat} {pc : Pc T} {q : MPMCQueue T} {r : TicketRing T}
    (hothers : TicketRing.Others size.cells i s.ring r) (hring : r.Inv size.cells)
    (hthreads : q.threads = Function.update s.queue.threads i pc)
    (henqueue : q.enqueueIndex = BitVec.ofNat 64 r.stored.length)
    (hdequeue : q.dequeueIndex = BitVec.ofNat 64 r.taken)
    (hsequence : ∀ k < size.cells, (q.cells k).sequence = BitVec.ofNat 64 (r.stage k).turn)
    (hdata : ∀ k < size.cells, ∀ u, (r.stage k = .full u ∨ ∃ j, r.stage k = .reading u j) →
      r.stored[u]? = some (q.cells k).data)
    (hcells : ∀ j ≠ i, ∀ k u, s.ring.stage k = .writing u j →
      (q.cells k).data = (s.queue.cells k).data)
    (hwriter : ∀ k < size.cells, ∀ u, r.stage k = .writing u i → pc.Writes ∧ t = u)
    (hreader : ∀ k < size.cells, ∀ u, r.stage k = .reading u i → pc.Reads ∧ t = u)
    (hknows : Knows size r q.cells i t pc) :
    Inv size ⟨q, r, Function.update s.ticket i t⟩ where
  ring := hring
  enqueueIndex := henqueue
  dequeueIndex := hdequeue
  sequence := hsequence
  data := hdata
  writer k hk u j hstage := by
    dsimp only at hstage ⊢
    rw [hthreads]
    by_cases hj : j = i
    · subst hj
      rw [Function.update_self, Function.update_self]
      exact hwriter k hk u hstage
    · rw [Function.update_of_ne hj, Function.update_of_ne hj]
      exact h.writer k hk u j ((hothers.owned j hj _ rfl k).mp hstage)
  reader k hk u j hstage := by
    dsimp only at hstage ⊢
    rw [hthreads]
    by_cases hj : j = i
    · subst hj
      rw [Function.update_self, Function.update_self]
      exact hreader k hk u hstage
    · rw [Function.update_of_ne hj, Function.update_of_ne hj]
      exact h.reader k hk u j ((hothers.owned j hj _ rfl k).mp hstage)
  knows j := by
    dsimp only
    rw [hthreads]
    by_cases hj : j = i
    · subst hj
      rw [Function.update_self, Function.update_self]
      exact hknows
    · rw [Function.update_of_ne hj, Function.update_of_ne hj]
      exact (h.knows j).others hothers hj (hcells j hj)

/-- A step that only moves thread `i`. -/
theorem Inv.goto (h : Inv size s) {i t : Nat} {pc : Pc T}
    (hwriter : (s.queue.threads i).Writes → pc.Writes ∧ t = s.ticket i)
    (hreader : (s.queue.threads i).Reads → pc.Reads ∧ t = s.ticket i)
    (hknows : Knows size s.ring s.queue.cells i t pc) :
    Inv size ⟨s.queue.goto i pc, s.ring, Function.update s.ticket i t⟩ := by
  refine h.move (.refl _ _ _) h.ring rfl h.enqueueIndex h.dequeueIndex h.sequence h.data
    (fun _ _ _ _ _ => rfl) (fun k hk u hstage => ?_) (fun k hk u hstage => ?_) hknows
  · obtain ⟨hw, ht⟩ := h.writer k hk u i hstage
    exact ⟨(hwriter hw).1, (hwriter hw).2.trans ht⟩
  · obtain ⟨hr, ht⟩ := h.reader k hk u i hstage
    exact ⟨(hreader hr).1, (hreader hr).2.trans ht⟩

/-! ## The steps that change the ring -/

/-- The cell of the next ticket for `enqueue` shows its turn: it is free. -/
theorem Inv.free (h : Inv size s)
    (hseq : (s.queue.cell size (BitVec.ofNat 64 s.ring.stored.length)).sequence =
      BitVec.ofNat 64 s.ring.stored.length) :
    s.ring.stage (s.ring.stored.length % size.cells) = .free s.ring.stored.length := by
  have hk := size.mod_lt s.ring.stored.length
  obtain ⟨hle, hlt⟩ := h.ring.turn_near hk
  have hsize := size.cells_le
  rw [MPMCQueue.cell, size.cellIndex_ofNat, h.sequence _ hk] at hseq
  exact h.ring.free_of_turn size.two_le_cells (Ticket.ofNat_inj hseq (by omega) (by omega))

/-- The cell of the next ticket for `dequeue` shows that it is published. -/
theorem Inv.full (h : Inv size s)
    (hseq : (s.queue.cell size (BitVec.ofNat 64 s.ring.taken)).sequence =
      BitVec.ofNat 64 s.ring.taken + 1) :
    s.ring.stage (s.ring.taken % size.cells) = .full s.ring.taken := by
  have hk := size.mod_lt s.ring.taken
  obtain ⟨hlt, hle⟩ := h.ring.turn_near_taken hk
  have hsize := size.cells_le
  rw [MPMCQueue.cell, size.cellIndex_ofNat, h.sequence _ hk, Ticket.ofNat_succ] at hseq
  exact h.ring.full_of_turn size.two_le_cells (Ticket.ofNat_inj hseq (by omega) (by omega))

/-- A producer has its ticket. -/
theorem Inv.claim (h : Inv size s) {i : Nat} {data : T} {index : Word}
    (hpc : s.queue.threads i = .enqueueExchange data index) (hindex : s.queue.enqueueIndex = index)
    (hfresh : s.ticket i ≠ s.ring.stored.length → (s.queue.cell size index).sequence = index) :
    Inv size ⟨{ s.queue with enqueueIndex := index + 1 }.goto i (.enqueueData data index),
      s.ring.claim size.cells i data, Function.update s.ticket i s.ring.stored.length⟩ := by
  have hknows := h.knows i
  rw [hpc] at hknows
  have hword : index = BitVec.ofNat 64 s.ring.stored.length := hindex ▸ h.enqueueIndex
  have hfree : s.ring.stage (s.ring.stored.length % size.cells) = .free s.ring.stored.length := by
    by_cases hticket : s.ticket i = s.ring.stored.length
    · exact hknows.2.2 hticket
    · exact h.free (hword ▸ hfresh hticket)
  refine h.move (.claim i data hfree) (h.ring.claim size.cells_pos i data hfree) rfl ?_
    h.dequeueIndex (fun k hk => ?_) (fun k hk u hstage => ?_) (fun _ _ _ _ _ => rfl)
    (fun k hk u hstage => ?_) (fun k hk u hstage => ?_) ⟨hword, ?_, ?_⟩
  · rw [hword, Ticket.ofNat_succ, TicketRing.claim, List.length_append, List.length_singleton]
    rfl
  · by_cases hcell : k = s.ring.stored.length % size.cells
    · subst hcell
      have := h.sequence _ hk
      rw [hfree] at this
      simp only [TicketRing.claim, Function.update_self]
      exact this
    · simp only [TicketRing.claim, Function.update_of_ne hcell]
      exact h.sequence k hk
  · by_cases hcell : k = s.ring.stored.length % size.cells
    · subst hcell
      simp [TicketRing.claim] at hstage
    · simp only [TicketRing.claim, Function.update_of_ne hcell] at hstage
      have hvalue := h.data k hk u hstage
      simp only [TicketRing.claim,
        List.getElem?_append_left (List.getElem?_eq_some_iff.mp hvalue).1]
      exact hvalue
  · by_cases hcell : k = s.ring.stored.length % size.cells
    · subst hcell
      simp only [TicketRing.claim, Function.update_self, Stage.writing.injEq] at hstage
      exact ⟨rfl, hstage.1⟩
    · simp only [TicketRing.claim, Function.update_of_ne hcell] at hstage
      have hwrites := (h.writer k hk u i hstage).1
      rw [hpc] at hwrites
      cases hwrites
  · by_cases hcell : k = s.ring.stored.length % size.cells
    · subst hcell
      simp [TicketRing.claim] at hstage
    · simp only [TicketRing.claim, Function.update_of_ne hcell] at hstage
      have hreads := (h.reader k hk u i hstage).1
      rw [hpc] at hreads
      cases hreads
  · simp [TicketRing.claim]
  · simp [TicketRing.claim]

/-- A producer writes into its cell. -/
theorem Inv.write (h : Inv size s) {i : Nat} {data : T} {index : Word}
    (hpc : s.queue.threads i = .enqueueData data index) :
    Inv size ⟨(s.queue.setCell size index { s.queue.cell size index with data }).goto i
        (.enqueueStore index), s.ring, Function.update s.ticket i (s.ticket i)⟩ := by
  have hknows := h.knows i
  rw [hpc] at hknows
  obtain ⟨hword, hwriting, hvalue⟩ := hknows
  have hindex : size.cellIndex index = s.ticket i % size.cells := by
    rw [hword, size.cellIndex_ofNat]
  have hcell : ∀ k, k ≠ s.ticket i % size.cells →
      Function.update s.queue.cells (size.cellIndex index) { s.queue.cell size index with data } k =
        s.queue.cells k := fun k hk => Function.update_of_ne (hindex ▸ hk) _ _
  have hself : Function.update s.queue.cells (size.cellIndex index)
      { s.queue.cell size index with data } (s.ticket i % size.cells) =
        { s.queue.cells (s.ticket i % size.cells) with data } := by
    rw [hindex, Function.update_self, MPMCQueue.cell, hindex]
  refine h.move (.refl _ _ _) h.ring rfl h.enqueueIndex h.dequeueIndex (fun k hk => ?_)
    (fun k hk u hstage => ?_) (fun j hj k u hstage => ?_) (fun k hk u hstage => ?_)
    (fun k hk u hstage => ?_) ⟨hword, hwriting, ?_⟩
  · by_cases hkey : k = s.ticket i % size.cells
    · subst hkey
      simp only [MPMCQueue.goto, MPMCQueue.setCell, hself]
      exact h.sequence _ hk
    · simp only [MPMCQueue.goto, MPMCQueue.setCell, hcell k hkey]
      exact h.sequence k hk
  · by_cases hkey : k = s.ticket i % size.cells
    · subst hkey
      rw [hwriting] at hstage
      rcases hstage with hstage | ⟨j, hstage⟩
      · cases hstage
      · cases hstage
    · simp only [MPMCQueue.goto, MPMCQueue.setCell, hcell k hkey]
      exact h.data k hk u hstage
  · have hkey : k ≠ s.ticket i % size.cells := fun hkey => by
      rw [hkey, hwriting] at hstage
      cases hstage
      exact hj rfl
    simp only [MPMCQueue.goto, MPMCQueue.setCell, hcell k hkey]
  · exact ⟨rfl, (h.writer k hk u i hstage).2⟩
  · have hreads := (h.reader k hk u i hstage).1
    rw [hpc] at hreads
    cases hreads
  · simp only [MPMCQueue.goto, MPMCQueue.setCell, hself]
    exact hvalue

/-- A thread stores the sequence of its cell, as one operation of the ring. -/
theorem Inv.store (h : Inv size s) {i t : Nat} {index sequence : Word} {pc : Pc T} {x : Stage}
    {returned : List (Nat × T)} (hword : index = BitVec.ofNat 64 t)
    (howner : (s.ring.stage (t % size.cells)).owner = some i)
    (hothers : TicketRing.Others size.cells i s.ring { s.ring with
      stage := Function.update s.ring.stage (t % size.cells) x, returned })
    (hring : TicketRing.Inv size.cells { s.ring with
      stage := Function.update s.ring.stage (t % size.cells) x, returned })
    (hx : x.owner = none) (hsequence : sequence = BitVec.ofNat 64 x.turn)
    (hdata : ∀ u, x = .full u → s.ring.stored[u]? = some (s.queue.cells (t % size.cells)).data)
    (hwriter : ∀ k < size.cells, k ≠ t % size.cells → ∀ u, s.ring.stage k ≠ .writing u i)
    (hreader : ∀ k < size.cells, k ≠ t % size.cells → ∀ u, s.ring.stage k ≠ .reading u i)
    (hpc : ∀ cells r, Knows size r cells i t pc) :
    Inv size ⟨(s.queue.setCell size index { s.queue.cell size index with sequence }).goto i pc,
      { s.ring with stage := Function.update s.ring.stage (t % size.cells) x, returned },
      Function.update s.ticket i t⟩ := by
  have hindex : size.cellIndex index = t % size.cells := by rw [hword, size.cellIndex_ofNat]
  have hcell : ∀ k, k ≠ t % size.cells →
      Function.update s.queue.cells (size.cellIndex index)
        { s.queue.cell size index with sequence } k = s.queue.cells k := fun k hk =>
    Function.update_of_ne (hindex ▸ hk) _ _
  have hself : Function.update s.queue.cells (size.cellIndex index)
      { s.queue.cell size index with sequence } (t % size.cells) =
        { s.queue.cells (t % size.cells) with sequence } := by
    rw [hindex, Function.update_self, MPMCQueue.cell, hindex]
  refine h.move hothers hring rfl h.enqueueIndex h.dequeueIndex (fun k hk => ?_)
    (fun k hk u hstage => ?_) (fun j hj k u hstage => ?_) (fun k hk u hstage => ?_)
    (fun k hk u hstage => ?_) (hpc _ _)
  · by_cases hkey : k = t % size.cells
    · subst hkey
      simp only [MPMCQueue.goto, MPMCQueue.setCell, hself, Function.update_self]
      exact hsequence
    · simp only [MPMCQueue.goto, MPMCQueue.setCell, hcell k hkey, Function.update_of_ne hkey]
      exact h.sequence k hk
  · by_cases hkey : k = t % size.cells
    · subst hkey
      simp only [Function.update_self] at hstage
      simp only [MPMCQueue.goto, MPMCQueue.setCell, hself]
      rcases hstage with hstage | ⟨j, hstage⟩
      · exact hdata u hstage
      · rw [hstage] at hx
        cases hx
    · simp only [Function.update_of_ne hkey] at hstage
      simp only [MPMCQueue.goto, MPMCQueue.setCell, hcell k hkey]
      exact h.data k hk u hstage
  · by_cases hkey : k = t % size.cells
    · rw [hkey] at hstage
      rw [hstage] at howner
      exact absurd (Option.some.inj howner) hj
    · simp only [MPMCQueue.goto, MPMCQueue.setCell, hcell k hkey]
  · by_cases hkey : k = t % size.cells
    · subst hkey
      simp only [Function.update_self] at hstage
      rw [hstage] at hx
      cases hx
    · simp only [Function.update_of_ne hkey] at hstage
      exact absurd hstage (hwriter k hk hkey u)
  · by_cases hkey : k = t % size.cells
    · subst hkey
      simp only [Function.update_self] at hstage
      rw [hstage] at hx
      cases hx
    · simp only [Function.update_of_ne hkey] at hstage
      exact absurd hstage (hreader k hk hkey u)

/-- A producer publishes its cell. -/
theorem Inv.publish (h : Inv size s) {i : Nat} {index : Word}
    (hpc : s.queue.threads i = .enqueueStore index) :
    Inv size ⟨(s.queue.setCell size index
        { s.queue.cell size index with sequence := index + 1 }).goto i (.enqueued true),
      s.ring.publish size.cells (s.ticket i), Function.update s.ticket i (s.ticket i)⟩ := by
  have hknows := h.knows i
  rw [hpc] at hknows
  obtain ⟨hword, hwriting, hvalue⟩ := hknows
  refine h.store hword (by rw [hwriting]; rfl) (.publish hwriting) (h.ring.publish hwriting) rfl ?_
    (fun u hu => ?_) (fun k hk hne u hstage => ?_) (fun k hk hne u hstage => ?_) fun _ _ => trivial
  · rw [hword, Ticket.ofNat_succ]
    rfl
  · cases hu
    exact hvalue
  · have hticket := h.ring.cell k hk
    rw [hstage] at hticket
    exact hne (by rw [(h.writer k hk u i hstage).2]; exact hticket.symm)
  · have hreads := (h.reader k hk u i hstage).1
    rw [hpc] at hreads
    cases hreads

/-- A consumer has its ticket. -/
theorem Inv.take (h : Inv size s) {i : Nat} {index : Word}
    (hpc : s.queue.threads i = .dequeueExchange index) (hindex : s.queue.dequeueIndex = index)
    (hfresh : s.ticket i ≠ s.ring.taken → (s.queue.cell size index).sequence = index + 1) :
    Inv size ⟨{ s.queue with dequeueIndex := index + 1 }.goto i (.dequeueData index),
      s.ring.take size.cells i, Function.update s.ticket i s.ring.taken⟩ := by
  have hknows := h.knows i
  rw [hpc] at hknows
  have hword : index = BitVec.ofNat 64 s.ring.taken := hindex ▸ h.dequeueIndex
  have hfull : s.ring.stage (s.ring.taken % size.cells) = .full s.ring.taken := by
    by_cases hticket : s.ticket i = s.ring.taken
    · exact hknows.2.2 hticket
    · exact h.full (hword ▸ hfresh hticket)
  refine h.move (.take i hfull) (h.ring.take size.cells_pos i hfull) rfl h.enqueueIndex ?_
    (fun k hk => ?_) (fun k hk u hstage => ?_) (fun _ _ _ _ _ => rfl)
    (fun k hk u hstage => ?_) (fun k hk u hstage => ?_) ⟨hword, ?_⟩
  · rw [hword, Ticket.ofNat_succ, TicketRing.take]
    rfl
  · by_cases hcell : k = s.ring.taken % size.cells
    · subst hcell
      have := h.sequence _ hk
      rw [hfull] at this
      simp only [TicketRing.take, Function.update_self]
      exact this
    · simp only [TicketRing.take, Function.update_of_ne hcell]
      exact h.sequence k hk
  · by_cases hcell : k = s.ring.taken % size.cells
    · subst hcell
      simp only [TicketRing.take, Function.update_self] at hstage
      rcases hstage with hstage | ⟨j, hstage⟩
      · cases hstage
      cases hstage
      exact h.data _ hk _ (.inl hfull)
    · simp only [TicketRing.take, Function.update_of_ne hcell] at hstage
      exact h.data k hk u hstage
  · by_cases hcell : k = s.ring.taken % size.cells
    · subst hcell
      simp [TicketRing.take] at hstage
    · simp only [TicketRing.take, Function.update_of_ne hcell] at hstage
      have hwrites := (h.writer k hk u i hstage).1
      rw [hpc] at hwrites
      cases hwrites
  · by_cases hcell : k = s.ring.taken % size.cells
    · subst hcell
      simp only [TicketRing.take, Function.update_self, Stage.reading.injEq] at hstage
      exact ⟨rfl, hstage.1⟩
    · simp only [TicketRing.take, Function.update_of_ne hcell] at hstage
      have hreads := (h.reader k hk u i hstage).1
      rw [hpc] at hreads
      cases hreads
  · simp [TicketRing.take]

/-- A consumer frees its cell for the next turn. -/
theorem Inv.release (h : Inv size s) {i : Nat} {data : T} {index : Word}
    (hpc : s.queue.threads i = .dequeueStore data index) :
    Inv size ⟨(s.queue.setCell size index
        { s.queue.cell size index with sequence := index + size.mask + 1 }).goto i
          (.dequeued (some data)),
      s.ring.release size.cells (s.ticket i) data, Function.update s.ticket i (s.ticket i)⟩ := by
  have hknows := h.knows i
  rw [hpc] at hknows
  obtain ⟨hword, hreading, hvalue⟩ := hknows
  refine h.store hword (by rw [hreading]; rfl) (.release data hreading)
    (h.ring.release hreading hvalue) rfl ?_ nofun (fun k hk hne u hstage => ?_)
    (fun k hk hne u hstage => ?_) fun _ _ => trivial
  · rw [hword, size.add_mask]
    rfl
  · have hwrites := (h.writer k hk u i hstage).1
    rw [hpc] at hwrites
    cases hwrites
  · have hticket := h.ring.cell k hk
    rw [hstage] at hticket
    exact hne (by rw [(h.reader k hk u i hstage).2]; exact hticket.symm)

/-! ## Every step -/

/-- The cell of a producer's index, which is not ahead of the ring. -/
theorem Inv.sequence_cell (h : Inv size s) (t : Nat) :
    (s.queue.cell size (BitVec.ofNat 64 t)).sequence =
      BitVec.ofNat 64 (s.ring.stage (t % size.cells)).turn := by
  rw [MPMCQueue.cell, size.cellIndex_ofNat, h.sequence _ (size.mod_lt t)]

theorem Inv.advance (h : Inv size s) (i : Nat) (spurious : Bool)
    (hfresh : s.Fresh size (.step i spurious)) : Inv size (s.step size (.step i spurious)) := by
  have hknows := h.knows i
  simp only [System.Fresh] at hfresh
  simp only [System.step, MPMCQueue.step, MPMCQueue.advance, System.record, System.loaded]
  cases hpc : s.queue.threads i with
  | idle | enqueued result | dequeued result =>
    simp only [Function.update_eq_self]
    exact h
  | enqueueIndex data =>
    dsimp only
    exact h.goto (by rw [hpc]; nofun) (by rw [hpc]; nofun) ⟨h.enqueueIndex, Nat.le_refl _⟩
  | enqueueSequence data index =>
    rw [hpc] at hknows
    obtain ⟨hword, hle⟩ := hknows
    dsimp only
    split
    · rename_i hdiff
      refine h.goto (by rw [hpc]; nofun) (by rw [hpc]; nofun) ⟨hword, hle, fun hticket => ?_⟩
      rw [hword, hticket] at hdiff
      exact h.free (diff_eq_zero.mp hdiff)
    · split
      · exact h.goto (by rw [hpc]; nofun) (by rw [hpc]; nofun) trivial
      · exact h.goto (by rw [hpc]; nofun) (by rw [hpc]; nofun) trivial
  | enqueueExchange data index =>
    rw [hpc] at hfresh
    dsimp only at hfresh ⊢
    by_cases hexchange : s.queue.enqueueIndex = index ∧ spurious = false
    · rw [if_pos hexchange, if_pos hexchange]
      exact h.claim hpc hexchange.1 (hfresh hexchange.1)
    · rw [if_neg hexchange, if_neg hexchange]
      exact h.goto (by rw [hpc]; nofun) (by rw [hpc]; nofun) ⟨h.enqueueIndex, Nat.le_refl _⟩
  | enqueueData data index =>
    dsimp only
    exact h.write hpc
  | enqueueStore index =>
    dsimp only
    exact h.publish hpc
  | dequeueIndex =>
    dsimp only
    exact h.goto (by rw [hpc]; nofun) (by rw [hpc]; nofun) ⟨h.dequeueIndex, Nat.le_refl _⟩
  | dequeueSequence index =>
    rw [hpc] at hknows
    obtain ⟨hword, hle⟩ := hknows
    dsimp only
    split
    · rename_i hdiff
      refine h.goto (by rw [hpc]; nofun) (by rw [hpc]; nofun) ⟨hword, hle, fun hticket => ?_⟩
      rw [hword, hticket] at hdiff
      exact h.full (diff_eq_zero.mp hdiff)
    · split
      · exact h.goto (by rw [hpc]; nofun) (by rw [hpc]; nofun) trivial
      · exact h.goto (by rw [hpc]; nofun) (by rw [hpc]; nofun) trivial
  | dequeueExchange index =>
    rw [hpc] at hfresh
    dsimp only at hfresh ⊢
    by_cases hexchange : s.queue.dequeueIndex = index ∧ spurious = false
    · rw [if_pos hexchange, if_pos hexchange]
      exact h.take hpc hexchange.1 (hfresh hexchange.1)
    · rw [if_neg hexchange, if_neg hexchange]
      exact h.goto (by rw [hpc]; nofun) (by rw [hpc]; nofun) ⟨h.dequeueIndex, Nat.le_refl _⟩
  | dequeueData index =>
    rw [hpc] at hknows
    obtain ⟨hword, hreading⟩ := hknows
    dsimp only
    refine h.goto (by rw [hpc]; nofun) (fun _ => ⟨rfl, rfl⟩) ⟨hword, hreading, ?_⟩
    rw [hword, MPMCQueue.cell, size.cellIndex_ofNat]
    exact h.data _ (size.mod_lt _) _ (.inr ⟨i, hreading⟩)
  | dequeueStore data index =>
    dsimp only
    exact h.release hpc

theorem Inv.rests (h : Inv size s) {i : Nat} (hrests : (s.queue.threads i).Rests) {pc : Pc T}
    (hknows : Knows size s.ring s.queue.cells i (s.ticket i) pc) :
    Inv size { s with queue := s.queue.goto i pc } := by
  have hmove : Inv size ⟨s.queue.goto i pc, s.ring, Function.update s.ticket i (s.ticket i)⟩ :=
    h.goto (fun hw => ?_) (fun hr => ?_) hknows
  · rwa [Function.update_eq_self] at hmove
  · cases hpc : s.queue.threads i <;> rw [hpc] at hrests hw <;> cases hrests <;> cases hw
  · cases hpc : s.queue.threads i <;> rw [hpc] at hrests hr <;> cases hrests <;> cases hr

theorem Inv.step (h : Inv size s) (event : Event T) (hfresh : s.Fresh size event) :
    Inv size (s.step size event) := by
  cases event with
  | enqueue i data =>
    by_cases hrests : (s.queue.threads i).Rests
    · simp only [System.step, MPMCQueue.step, if_pos hrests]
      exact h.rests hrests trivial
    · simp only [System.step, MPMCQueue.step, if_neg hrests]
      exact h
  | dequeue i =>
    by_cases hrests : (s.queue.threads i).Rests
    · simp only [System.step, MPMCQueue.step, if_pos hrests]
      exact h.rests hrests trivial
    · simp only [System.step, MPMCQueue.step, if_neg hrests]
      exact h
  | step i spurious => exact h.advance i spurious hfresh

theorem Inv.init [Inhabited T] : Inv size (System.init T) where
  ring := .init
  enqueueIndex := rfl
  dequeueIndex := rfl
  sequence _ _ := rfl
  data _ _ _ h := by
    rcases h with h | ⟨i, h⟩
    · cases h
    · cases h
  writer _ _ _ _ h := by cases h
  reader _ _ _ _ h := by cases h
  knows _ := trivial

theorem Inv.run (h : Inv size s) (events : List (Event T))
    (hfresh : Always (System.step size) (System.Fresh size) s events) :
    Inv size (s.run size events) := by
  have hstep : ∀ (s : System T) (event : Event T), Inv size s → s.Fresh size event →
      Inv size (s.step size event) := fun s event h => h.step event
  exact Always.inv hstep events s h hfresh

end

end Pistache.Mailbox
