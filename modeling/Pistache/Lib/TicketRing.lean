import Mathlib.Data.List.Nodup
import Mathlib.Data.List.Perm.Basic
import Mathlib.Logic.Function.Basic
import Pistache.Lib.Ticket

/-!
# A ring with tickets

A bounded queue over `size` cells, seen from its tickets.  A producer claims the next ticket and
publishes the cell of its remainder; a consumer takes the next ticket, when its cell has been
published, and releases the cell for the ticket that comes one turn later.

* `Inv` — where the ticket of each cell lies, and what has become of each ticket.
* `Inv.claim`, `Inv.publish`, `Inv.take`, `Inv.release` — each operation keeps it, when the cell
  is in the stage that the operation asks for.
* `free_of_turn`, `full_of_turn`, `not_free_of_turn_lt`, `not_full_of_turn_lt` — the turn of a
  cell, a number, gives this stage away.
* `Others` — what an operation leaves to the other owners.
-/

set_option autoImplicit false

/-- What happens in a cell, for which ticket, and by whom. -/
inductive Stage where
  | free (ticket : Nat)
  | writing (ticket owner : Nat)
  | full (ticket : Nat)
  | reading (ticket owner : Nat)
  deriving DecidableEq, Repr

namespace Stage

def ticket : Stage → Nat
  | free ticket => ticket
  | writing ticket _ => ticket
  | full ticket => ticket
  | reading ticket _ => ticket

def owner : Stage → Option Nat
  | free _ => none
  | writing _ owner => some owner
  | full _ => none
  | reading _ owner => some owner

/-- The number that a cell shows. -/
def turn : Stage → Nat
  | free ticket => ticket
  | writing ticket _ => ticket
  | full ticket => ticket + 1
  | reading ticket _ => ticket + 1

end Stage

/-- The values of the tickets that have been claimed, how many have been taken, and what has been
returned for which ticket. -/
structure TicketRing (T : Type) where
  stored : List T := []
  taken : Nat := 0
  stage : Nat → Stage := Stage.free
  returned : List (Nat × T) := []

namespace TicketRing

variable {T : Type} (size : Nat) (r : TicketRing T)

def claim (owner : Nat) (value : T) : TicketRing T :=
  { r with
    stored := r.stored ++ [value]
    stage := Function.update r.stage (r.stored.length % size) (.writing r.stored.length owner) }

def publish (ticket : Nat) : TicketRing T :=
  { r with stage := Function.update r.stage (ticket % size) (.full ticket) }

def take (owner : Nat) : TicketRing T :=
  { r with
    taken := r.taken + 1
    stage := Function.update r.stage (r.taken % size) (.reading r.taken owner) }

def release (ticket : Nat) (value : T) : TicketRing T :=
  { r with
    stage := Function.update r.stage (ticket % size) (.free (ticket + size))
    returned := r.returned ++ [(ticket, value)] }

/-- Where the ticket of a cell lies. -/
def Lies (r : TicketRing T) : Stage → Prop
  | .free ticket => r.stored.length ≤ ticket ∧ ticket < r.taken + size
  | .writing ticket _ => r.taken ≤ ticket ∧ ticket < r.stored.length
  | .full ticket => r.taken ≤ ticket ∧ ticket < r.stored.length
  | .reading ticket _ => ticket < r.taken ∧ r.stored.length ≤ ticket + size

structure Inv : Prop where
  behind : r.taken ≤ r.stored.length
  room : r.stored.length ≤ r.taken + size
  cell : ∀ k < size, (r.stage k).ticket % size = k
  lies : ∀ k < size, r.Lies size (r.stage k)
  values : ∀ p ∈ r.returned, r.stored[p.1]? = some p.2
  once : (r.returned.map Prod.fst).Nodup
  accounted : ∀ t, t < r.taken ↔
    t ∈ r.returned.map Prod.fst ∨ ∃ i, r.stage (t % size) = .reading t i
  apart : ∀ t ∈ r.returned.map Prod.fst, ∀ i, r.stage (t % size) ≠ .reading t i

variable {size} {r}

theorem Inv.init : Inv size ({} : TicketRing T) where
  behind := Nat.le_refl 0
  room := Nat.zero_le _
  cell k hk := Nat.mod_eq_of_lt hk
  lies k hk := ⟨Nat.zero_le k, by simpa using hk⟩
  values p hp := by cases hp
  once := List.nodup_nil
  accounted t := by simp
  apart t ht := by cases ht

/-! ## The operations -/

section

variable (h : Inv size r)
include h

theorem Inv.claim (hsize : 0 < size) (owner : Nat) (value : T)
    (hfree : r.stage (r.stored.length % size) = .free r.stored.length) :
    Inv size (r.claim size owner value) where
  behind := by
    have := h.behind
    simp [TicketRing.claim]
    omega
  room := by
    have hlies := h.lies _ (Nat.mod_lt r.stored.length hsize)
    rw [hfree] at hlies
    have := hlies.2
    simp [TicketRing.claim]
    omega
  cell k hk := by
    by_cases hcell : k = r.stored.length % size
    · subst hcell
      simp [TicketRing.claim, Stage.ticket]
    · simp only [TicketRing.claim, Function.update_of_ne hcell]
      exact h.cell k hk
  lies k hk := by
    by_cases hcell : k = r.stored.length % size
    · subst hcell
      simp [TicketRing.claim, Lies, h.behind]
    · have hlies := h.lies k hk
      have hticket := h.cell k hk
      simp only [TicketRing.claim, Function.update_of_ne hcell]
      cases hstage : r.stage k with
      | free t =>
        rw [hstage] at hlies hticket
        have hne : t ≠ r.stored.length := fun heq => hcell (by rw [← hticket, heq]; rfl)
        simp only [Lies, List.length_append, List.length_singleton] at hlies ⊢
        omega
      | writing t i =>
        rw [hstage] at hlies
        simp only [Lies, List.length_append, List.length_singleton] at hlies ⊢
        omega
      | full t =>
        rw [hstage] at hlies
        simp only [Lies, List.length_append, List.length_singleton] at hlies ⊢
        omega
      | reading t i =>
        rw [hstage] at hlies hticket
        have hne : r.stored.length ≠ t + size := fun heq =>
          hcell (by rw [← hticket, heq, Nat.add_mod_right]; rfl)
        simp only [Lies, List.length_append, List.length_singleton] at hlies ⊢
        omega
  values p hp := by
    have hvalue := h.values p hp
    have hlt := (List.getElem?_eq_some_iff.mp hvalue).1
    simp only [TicketRing.claim, List.getElem?_append_left hlt]
    exact hvalue
  once := h.once
  accounted t := by
    rw [show (r.claim size owner value).taken = r.taken from rfl,
      show (r.claim size owner value).returned = r.returned from rfl, h.accounted t]
    by_cases hcell : t % size = r.stored.length % size
    · simp [TicketRing.claim, hcell, hfree]
    · simp [TicketRing.claim, Function.update_of_ne hcell]
  apart t ht i := by
    by_cases hcell : t % size = r.stored.length % size
    · simp [TicketRing.claim, hcell]
    · simp only [TicketRing.claim, Function.update_of_ne hcell]
      exact h.apart t ht i

theorem Inv.publish {ticket owner : Nat}
    (hwriting : r.stage (ticket % size) = .writing ticket owner) :
    Inv size (r.publish size ticket) where
  behind := h.behind
  room := h.room
  cell k hk := by
    by_cases hcell : k = ticket % size
    · subst hcell
      simp [TicketRing.publish, Stage.ticket]
    · simp only [TicketRing.publish, Function.update_of_ne hcell]
      exact h.cell k hk
  lies k hk := by
    by_cases hcell : k = ticket % size
    · subst hcell
      have hlies := h.lies _ hk
      rw [hwriting] at hlies
      simp only [TicketRing.publish, Function.update_self]
      exact hlies
    · simp only [TicketRing.publish, Function.update_of_ne hcell]
      exact h.lies k hk
  values := h.values
  once := h.once
  accounted t := by
    rw [show (r.publish size ticket).taken = r.taken from rfl,
      show (r.publish size ticket).returned = r.returned from rfl, h.accounted t]
    by_cases hcell : t % size = ticket % size
    · simp [TicketRing.publish, hcell, hwriting]
    · simp [TicketRing.publish, Function.update_of_ne hcell]
  apart t ht i := by
    by_cases hcell : t % size = ticket % size
    · simp [TicketRing.publish, hcell]
    · simp only [TicketRing.publish, Function.update_of_ne hcell]
      exact h.apart t ht i

theorem Inv.take (hsize : 0 < size) (owner : Nat)
    (hfull : r.stage (r.taken % size) = .full r.taken) : Inv size (r.take size owner) where
  behind := by
    have hlies := h.lies _ (Nat.mod_lt r.taken hsize)
    rw [hfull] at hlies
    exact hlies.2
  room := by
    have := h.room
    simp only [TicketRing.take]
    omega
  cell k hk := by
    by_cases hcell : k = r.taken % size
    · subst hcell
      simp [TicketRing.take, Stage.ticket]
    · simp only [TicketRing.take, Function.update_of_ne hcell]
      exact h.cell k hk
  lies k hk := by
    by_cases hcell : k = r.taken % size
    · subst hcell
      have hroom := h.room
      simp only [TicketRing.take, Function.update_self, Lies]
      omega
    · have hlies := h.lies k hk
      have hticket := h.cell k hk
      simp only [TicketRing.take, Function.update_of_ne hcell]
      have hne : (r.stage k).ticket ≠ r.taken := fun heq => hcell (by rw [← hticket, heq])
      cases hstage : r.stage k with
      | free t =>
        rw [hstage] at hlies
        simp only [Lies] at hlies ⊢
        omega
      | writing t i =>
        rw [hstage] at hlies hne
        simp only [Lies, Stage.ticket] at hlies hne ⊢
        omega
      | full t =>
        rw [hstage] at hlies hne
        simp only [Lies, Stage.ticket] at hlies hne ⊢
        omega
      | reading t i =>
        rw [hstage] at hlies
        simp only [Lies] at hlies ⊢
        omega
  values := h.values
  once := h.once
  accounted t := by
    have haccounted := h.accounted t
    rw [show (r.take size owner).taken = r.taken + 1 from rfl,
      show (r.take size owner).returned = r.returned from rfl, Nat.lt_succ_iff_lt_or_eq, haccounted]
    by_cases hcell : t % size = r.taken % size
    · simp [TicketRing.take, hcell, hfull, eq_comm]
    · have hne : t ≠ r.taken := fun heq => hcell (by rw [heq])
      simp [TicketRing.take, Function.update_of_ne hcell, hne]
  apart t ht i := by
    by_cases hcell : t % size = r.taken % size
    · have hlt := (h.accounted t).mpr (.inl ht)
      simp only [TicketRing.take, hcell, Function.update_self, ne_eq, Stage.reading.injEq]
      omega
    · simp only [TicketRing.take, Function.update_of_ne hcell]
      exact h.apart t ht i

theorem Inv.release {ticket owner : Nat} {value : T}
    (hreading : r.stage (ticket % size) = .reading ticket owner)
    (hvalue : r.stored[ticket]? = some value) : Inv size (r.release size ticket value) where
  behind := h.behind
  room := h.room
  cell k hk := by
    by_cases hcell : k = ticket % size
    · subst hcell
      simp [TicketRing.release, Stage.ticket]
    · simp only [TicketRing.release, Function.update_of_ne hcell]
      exact h.cell k hk
  lies k hk := by
    by_cases hcell : k = ticket % size
    · subst hcell
      have hlies := h.lies _ hk
      rw [hreading] at hlies
      simp only [TicketRing.release, Function.update_self]
      exact ⟨hlies.2, Nat.add_lt_add_right hlies.1 size⟩
    · simp only [TicketRing.release, Function.update_of_ne hcell]
      exact h.lies k hk
  values p hp := by
    rcases List.mem_append.mp hp with hp | hp
    · exact h.values p hp
    · cases List.mem_singleton.mp hp
      exact hvalue
  once := by
    rw [show (r.release size ticket value).returned = r.returned ++ [(ticket, value)] from rfl,
      List.map_append, List.nodup_append]
    refine ⟨h.once, List.nodup_singleton _, fun t ht t' ht' heq => ?_⟩
    cases List.mem_singleton.mp ht'
    exact h.apart t ht owner (heq ▸ hreading)
  accounted t := by
    rw [show (r.release size ticket value).taken = r.taken from rfl,
      show (r.release size ticket value).returned = r.returned ++ [(ticket, value)] from rfl,
      h.accounted t]
    by_cases hcell : t % size = ticket % size
    · simp [TicketRing.release, hcell, hreading, eq_comm]
    · have hne : t ≠ ticket := fun heq => hcell (by rw [heq])
      simp [TicketRing.release, Function.update_of_ne hcell, hne]
  apart t ht i := by
    by_cases hcell : t % size = ticket % size
    · simp [TicketRing.release, hcell]
    · simp only [TicketRing.release, Function.update_of_ne hcell]
      refine h.apart t ?_ i
      rw [show (r.release size ticket value).returned = r.returned ++ [(ticket, value)] from rfl,
        List.map_append, List.mem_append] at ht
      refine ht.resolve_right fun ht => hcell ?_
      rw [List.mem_singleton.mp ht]

/-! ## Turns -/

/-- The turn of a cell is near the tickets to be claimed. -/
theorem Inv.turn_near {k : Nat} (hk : k < size) :
    r.stored.length ≤ (r.stage k).turn + size ∧ (r.stage k).turn < r.stored.length + size := by
  have hlies := h.lies k hk
  have hbehind := h.behind
  have hroom := h.room
  cases hstage : r.stage k <;> rw [hstage] at hlies <;> simp only [Lies, Stage.turn] at hlies ⊢ <;>
    omega

/-- The turn of a cell is near the tickets to be taken. -/
theorem Inv.turn_near_taken {k : Nat} (hk : k < size) :
    r.taken < (r.stage k).turn + size ∧ (r.stage k).turn ≤ r.taken + size := by
  have hlies := h.lies k hk
  have hbehind := h.behind
  have hroom := h.room
  cases hstage : r.stage k <;> rw [hstage] at hlies <;> simp only [Lies, Stage.turn] at hlies ⊢ <;>
    omega

theorem Inv.free_of_turn (hsize : 2 ≤ size)
    (hturn : (r.stage (r.stored.length % size)).turn = r.stored.length) :
    r.stage (r.stored.length % size) = .free r.stored.length := by
  have hk : r.stored.length % size < size := Nat.mod_lt _ (by omega)
  have hlies := h.lies _ hk
  have hticket := h.cell _ hk
  cases hstage : r.stage (r.stored.length % size) with
  | free t =>
    rw [hstage] at hturn
    rw [show t = r.stored.length from hturn]
  | writing t i =>
    rw [hstage] at hturn hlies
    simp only [Stage.turn, Lies] at hturn hlies
    omega
  | full t =>
    rw [hstage] at hturn hticket
    simp only [Stage.turn, Stage.ticket] at hturn hticket
    rw [← hturn] at hticket
    exact absurd hticket.symm (Ticket.succ_mod_ne hsize)
  | reading t i =>
    rw [hstage] at hturn hticket
    simp only [Stage.turn, Stage.ticket] at hturn hticket
    rw [← hturn] at hticket
    exact absurd hticket.symm (Ticket.succ_mod_ne hsize)

theorem Inv.full_of_turn (hsize : 2 ≤ size)
    (hturn : (r.stage (r.taken % size)).turn = r.taken + 1) :
    r.stage (r.taken % size) = .full r.taken := by
  have hk : r.taken % size < size := Nat.mod_lt _ (by omega)
  have hlies := h.lies _ hk
  have hticket := h.cell _ hk
  cases hstage : r.stage (r.taken % size) with
  | free t =>
    rw [hstage] at hturn hticket
    simp only [Stage.turn, Stage.ticket] at hturn hticket
    rw [hturn] at hticket
    exact absurd hticket (Ticket.succ_mod_ne hsize)
  | writing t i =>
    rw [hstage] at hturn hticket
    simp only [Stage.turn, Stage.ticket] at hturn hticket
    rw [hturn] at hticket
    exact absurd hticket (Ticket.succ_mod_ne hsize)
  | full t =>
    rw [hstage] at hturn
    rw [show t = r.taken from Nat.succ.inj hturn]
  | reading t i =>
    rw [hstage] at hturn hlies
    simp only [Stage.turn, Lies] at hturn hlies
    omega

/-- The cell of a producer whose turn is yet to come: the producer holds the next ticket, and the
cell is in use. -/
theorem Inv.not_free_of_turn_lt (hsize : 0 < size) {e : Nat} (he : e ≤ r.stored.length)
    (hlt : (r.stage (e % size)).turn < e) :
    e = r.stored.length ∧ ∀ t, r.stage (e % size) ≠ .free t := by
  have hk : e % size < size := Nat.mod_lt _ hsize
  have hlies := h.lies _ hk
  have hticket := h.cell _ hk
  have hroom := h.room
  have hlast : ∀ t, t % size = e % size → t < e → r.stored.length ≤ t + size →
      e = r.stored.length := fun t ht hte hle => by
    by_cases hnear : e < t + size
    · have := Ticket.eq_of_mod_eq ht (by omega) hnear
      omega
    · omega
  cases hstage : r.stage (e % size) with
  | free t =>
    rw [hstage] at hlt hlies
    simp only [Stage.turn, Lies] at hlt hlies
    omega
  | writing t i =>
    rw [hstage] at hlt hlies hticket
    simp only [Stage.turn, Stage.ticket, Lies] at hlt hlies hticket
    exact ⟨hlast t hticket hlt (by omega), nofun⟩
  | full t =>
    rw [hstage] at hlt hlies hticket
    simp only [Stage.turn, Stage.ticket, Lies] at hlt hlies hticket
    exact ⟨hlast t hticket (by omega) (by omega), nofun⟩
  | reading t i =>
    rw [hstage] at hlt hlies hticket
    simp only [Stage.turn, Stage.ticket, Lies] at hlt hlies hticket
    exact ⟨hlast t hticket (by omega) (by omega), nofun⟩

/-- The cell of a consumer whose turn is yet to come: the consumer holds the next ticket, and the
cell is not published for it. -/
theorem Inv.not_full_of_turn_lt (hsize : 0 < size) {d : Nat} (hd : d ≤ r.taken)
    (hlt : (r.stage (d % size)).turn ≤ d) :
    d = r.taken ∧ r.stage (d % size) ≠ .full d := by
  have hk : d % size < size := Nat.mod_lt _ hsize
  have hlies := h.lies _ hk
  have hticket := h.cell _ hk
  have hbehind := h.behind
  cases hstage : r.stage (d % size) with
  | free t =>
    rw [hstage] at hlt hlies
    simp only [Stage.turn, Lies] at hlt hlies
    exact ⟨by omega, nofun⟩
  | writing t i =>
    rw [hstage] at hlt hlies
    simp only [Stage.turn, Lies] at hlt hlies
    exact ⟨by omega, nofun⟩
  | full t =>
    rw [hstage] at hlt hlies
    simp only [Stage.turn, Lies] at hlt hlies
    omega
  | reading t i =>
    rw [hstage] at hlt hlies hticket
    simp only [Stage.turn, Stage.ticket, Lies] at hlt hlies hticket
    refine ⟨?_, nofun⟩
    by_cases hnear : d < t + size
    · have := Ticket.eq_of_mod_eq hticket (by omega) hnear
      omega
    · omega

/-! ## The tickets in use -/

/-- A claimed ticket that has not been taken is in its cell. -/
theorem Inv.waiting (hsize : 0 < size) {t : Nat} (htaken : r.taken ≤ t)
    (hstored : t < r.stored.length) :
    r.stage (t % size) = .full t ∨ ∃ i, r.stage (t % size) = .writing t i := by
  have hk : t % size < size := Nat.mod_lt _ hsize
  have hlies := h.lies _ hk
  have hticket := h.cell _ hk
  have hroom := h.room
  cases hstage : r.stage (t % size) with
  | free u =>
    rw [hstage] at hlies hticket
    simp only [Stage.ticket, Lies] at hlies hticket
    have := Ticket.eq_of_mod_eq hticket (by omega) (by omega)
    omega
  | writing u i =>
    rw [hstage] at hlies hticket
    simp only [Stage.ticket, Lies] at hlies hticket
    obtain rfl := Ticket.eq_of_mod_eq hticket (by omega) (by omega)
    exact .inr ⟨i, rfl⟩
  | full u =>
    rw [hstage] at hlies hticket
    simp only [Stage.ticket, Lies] at hlies hticket
    obtain rfl := Ticket.eq_of_mod_eq hticket (by omega) (by omega)
    exact .inl rfl
  | reading u i =>
    rw [hstage] at hlies hticket
    simp only [Stage.ticket, Lies] at hlies hticket
    have := Ticket.eq_of_mod_eq hticket (by omega) (by omega)
    omega

/-- When no consumer is reading, what has been returned is, in the order of the tickets, what the
tickets that have been taken stored. -/
theorem Inv.returned_perm (hread : ∀ t i, r.stage (t % size) ≠ .reading t i) :
    r.returned.Perm ((List.range r.taken).zip r.stored) := by
  have hnodup : ((List.range r.taken).zip r.stored).Nodup := by
    refine List.Nodup.of_map Prod.fst ?_
    rw [List.map_fst_zip (by rw [List.length_range]; exact h.behind)]
    exact List.nodup_range
  refine (List.perm_ext_iff_of_nodup (.of_map _ h.once) hnodup).mpr fun ⟨t, v⟩ => ?_
  have hzip : (t, v) ∈ (List.range r.taken).zip r.stored ↔
      t < r.taken ∧ r.stored[t]? = some v := by
    rw [List.mem_iff_getElem?]
    constructor
    · rintro ⟨k, hk⟩
      obtain ⟨hrange, hstored⟩ := List.getElem?_zip_eq_some.mp hk
      obtain ⟨hlt, hget⟩ := List.getElem?_eq_some_iff.mp hrange
      rw [List.getElem_range] at hget
      subst hget
      exact ⟨by rwa [List.length_range] at hlt, hstored⟩
    · rintro ⟨hlt, hstored⟩
      exact ⟨t, List.getElem?_zip_eq_some.mpr ⟨List.getElem?_range hlt, hstored⟩⟩
  rw [hzip]
  constructor
  · intro hmem
    exact ⟨(h.accounted t).mpr (.inl (List.mem_map_of_mem hmem)), h.values _ hmem⟩
  · rintro ⟨hlt, hstored⟩
    rcases (h.accounted t).mp hlt with hmem | ⟨i, hreading⟩
    · obtain ⟨⟨t', v'⟩, hreturned, rfl⟩ := List.mem_map.mp hmem
      rw [h.values _ hreturned] at hstored
      rw [← Option.some.inj hstored]
      exact hreturned
    · exact absurd hreading (hread t i)

/-- Of the values that have been stored, all but `size` have been returned. -/
theorem Inv.capacity (hsize : 0 < size) : r.stored.length ≤ r.returned.length + size := by
  have hsub : List.range (r.stored.length - size) ⊆ r.returned.map Prod.fst := fun t ht => by
    have hlt := List.mem_range.mp ht
    have hroom := h.room
    refine ((h.accounted t).mp (by omega)).resolve_right ?_
    rintro ⟨i, hreading⟩
    have hlies := h.lies _ (Nat.mod_lt t hsize)
    rw [hreading] at hlies
    have := hlies.2
    omega
  have hle := (List.subperm_of_subset List.nodup_range hsub).length_le
  rw [List.length_range, List.length_map] at hle
  omega

end

/-! ## The other owners -/

/-- What an operation of `owner` leaves as it was. -/
structure Others (size owner : Nat) (r r' : TicketRing T) : Prop where
  stored : r.stored <+: r'.stored
  taken : r.taken ≤ r'.taken
  owned : ∀ i ≠ owner, ∀ x : Stage, x.owner = some i → ∀ k, r'.stage k = x ↔ r.stage k = x
  free : r'.stored.length = r.stored.length →
    r.stage (r.stored.length % size) = .free r.stored.length →
    r'.stage (r.stored.length % size) = .free r.stored.length
  full : r'.taken = r.taken → r.stage (r.taken % size) = .full r.taken →
    r'.stage (r.taken % size) = .full r.taken

theorem Others.refl (size owner : Nat) (r : TicketRing T) : Others size owner r r where
  stored := List.prefix_refl _
  taken := Nat.le_refl _
  owned _ _ _ _ _ := Iff.rfl
  free _ h := h
  full _ h := h

theorem Others.update {owner k : Nat} {x : Stage} {stored : List T} {taken : Nat}
    {returned : List (Nat × T)} (hold : (r.stage k).owner = none ∨ (r.stage k).owner = some owner)
    (hnew : x.owner = none ∨ x.owner = some owner) (hstored : r.stored <+: stored)
    (htaken : r.taken ≤ taken)
    (hfree : stored.length = r.stored.length → ∀ t, r.stage k ≠ .free t)
    (hfull : taken = r.taken → ∀ t, r.stage k ≠ .full t) :
    Others size owner r ⟨stored, taken, Function.update r.stage k x, returned⟩ where
  stored := hstored
  taken := htaken
  owned i hi y hy k' := by
    dsimp only
    by_cases hk : k' = k
    · subst hk
      rw [Function.update_self]
      refine ⟨fun heq => ?_, fun heq => ?_⟩
      · subst heq
        rcases hnew with hnew | hnew
        · rw [hnew] at hy
          cases hy
        · exact absurd (Option.some.inj (hy.symm.trans hnew)) hi
      · rw [heq] at hold
        rcases hold with hold | hold
        · rw [hold] at hy
          cases hy
        · exact absurd (Option.some.inj (hy.symm.trans hold)) hi
    · rw [Function.update_of_ne hk]
  free hlen hstage := by
    dsimp only
    rw [Function.update_of_ne (fun heq => hfree hlen _ (heq ▸ hstage))]
    exact hstage
  full hlen hstage := by
    dsimp only
    rw [Function.update_of_ne (fun heq => hfull hlen _ (heq ▸ hstage))]
    exact hstage

theorem Others.claim (owner : Nat) (value : T)
    (hfree : r.stage (r.stored.length % size) = .free r.stored.length) :
    Others size owner r (r.claim size owner value) := by
  refine Others.update (.inl ?_) (.inr rfl) (List.prefix_append _ _) (Nat.le_refl _)
    (fun hlen => ?_) fun _ t => ?_
  · rw [hfree]
    rfl
  · rw [List.length_append, List.length_singleton] at hlen
    omega
  · rw [hfree]
    exact nofun

theorem Others.publish {ticket owner : Nat}
    (hwriting : r.stage (ticket % size) = .writing ticket owner) :
    Others size owner r (r.publish size ticket) := by
  refine Others.update (.inr ?_) (.inl rfl) (List.prefix_refl _) (Nat.le_refl _)
    (fun _ t => ?_) fun _ t => ?_
  · rw [hwriting]
    rfl
  · rw [hwriting]
    exact nofun
  · rw [hwriting]
    exact nofun

theorem Others.take (owner : Nat) (hfull : r.stage (r.taken % size) = .full r.taken) :
    Others size owner r (r.take size owner) := by
  refine Others.update (.inl ?_) (.inr rfl) (List.prefix_refl _) (Nat.le_succ _)
    (fun _ t => ?_) fun hlen => ?_
  · rw [hfull]
    rfl
  · rw [hfull]
    exact nofun
  · omega

theorem Others.release {ticket owner : Nat} (value : T)
    (hreading : r.stage (ticket % size) = .reading ticket owner) :
    Others size owner r (r.release size ticket value) := by
  refine Others.update (.inr ?_) (.inl rfl) (List.prefix_refl _) (Nat.le_refl _)
    (fun _ t => ?_) fun _ t => ?_
  · rw [hreading]
    rfl
  · rw [hreading]
    exact nofun
  · rw [hreading]
    exact nofun

end TicketRing
