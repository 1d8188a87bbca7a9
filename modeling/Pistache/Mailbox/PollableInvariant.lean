import Pistache.Lib.Follows
import Pistache.Mailbox.PollableQueue

/-!
# The entries of `PollableQueue`

What holds in every state: the entries from the tail on, with the links that producers still have
to write, the entries that producers and the consumer hold, and what a parked consumer can rely
on.

* `Inv.push`, `Inv.exchange`, `Inv.link`, `Inv.write` — the steps of a producer.
* `Inv.popEntry`, `Inv.take` — the steps of the consumer.
* `Accounts.run` — what has been exchanged has been popped, is held by the consumer, or waits.
-/

set_option autoImplicit false

namespace Pistache.Mailbox

namespace Pollable

/-- The addresses from the tail on. -/
def nodes {T : Type} (tail : Nat) (waiting : List (Nat × T)) : List Nat :=
  tail :: waiting.map Prod.fst

theorem nodes_concat {T : Type} (tail : Nat) (waiting : List (Nat × T)) (entry : Nat) (data : T) :
    nodes tail (waiting ++ [(entry, data)]) = nodes tail waiting ++ [entry] := by
  rw [nodes, nodes, List.map_append, List.cons_append]
  rfl

theorem mem_nodes {T : Type} (tail : Nat) {waiting : List (Nat × T)} {p : Nat × T}
    (hp : p ∈ waiting) : p.1 ∈ nodes tail waiting :=
  List.mem_cons_of_mem _ (List.mem_map_of_mem hp)

/-- `waiting` are the entries that are in the queue, with their values. -/
structure Inv {T : Type} (q : PollableQueue T) (waiting : List (Nat × T)) : Prop where
  nodup : (nodes q.tail waiting).Nodup
  live : ∀ a ∈ nodes q.tail waiting, q.live a
  links : ∀ a b, Follows (nodes q.tail waiting) a b →
    q.next a = some b ∨ q.next a = none ∧ ∃ i, q.producers i = .link a b
  last : (nodes q.tail waiting).getLast? = some q.head
  last_next : q.next q.head = none
  values : ∀ p ∈ waiting, q.storage p.1 = some p.2
  linking : ∀ i a b, q.producers i = .link a b →
    Follows (nodes q.tail waiting) a b ∧ q.next a = none
  linking_apart : ∀ i j a b c, q.producers i = .link a b → q.producers j = .link a c → i = j
  exchanging : ∀ i a v, q.producers i = .exchange a v →
    q.live a ∧ a ∉ nodes q.tail waiting ∧ q.next a = none ∧ q.storage a = some v ∧
      q.consumer.entry ≠ some a
  exchanging_apart : ∀ i j a v w, q.producers i = .exchange a v → q.producers j = .exchange a w →
    i = j
  holding : ∀ a, q.consumer.entry = some a →
    q.live a ∧ a ∉ nodes q.tail waiting ∧ (q.storage a).isSome
  /-- what keeps a wake-up from getting lost -/
  wake : q.consumer = .parked ∨ q.consumer = .read none → q.next q.tail ≠ none →
    0 < q.eventFd ∨ ∃ i, q.producers i = .write

/-- The value that the consumer holds. -/
def held {T : Type} (q : PollableQueue T) : List T :=
  (q.consumer.entry.bind q.storage).toList

section

variable {T : Type} {q : PollableQueue T} {waiting : List (Nat × T)}

/-- Where a producer is after a step of producer `i`. -/
theorem update_cases {producers : Nat → Producer T} {i j : Nat} {producer p : Producer T}
    (hj : Function.update producers i producer j = p) :
    (j = i ∧ producer = p) ∨ (j ≠ i ∧ producers j = p) := by
  by_cases hji : j = i
  · subst hji
    rw [Function.update_self] at hj
    exact .inl ⟨rfl, hj⟩
  · rw [Function.update_of_ne hji] at hj
    exact .inr ⟨hji, hj⟩

/-- The others stay where they are. -/
theorem update_other {producers : Nat → Producer T} {i j : Nat} {producer p : Producer T}
    (hj : producers j = p) (hi : producers i ≠ p) : Function.update producers i producer j = p := by
  have hji : j ≠ i := fun heq => hi (by rw [← heq, hj])
  rw [Function.update_of_ne hji, hj]

variable (h : Inv q waiting)
include h

theorem Inv.head_mem : q.head ∈ nodes q.tail waiting := List.mem_of_getLast? h.last

/-! ## The steps of producers -/

/-- A producer has an entry of its own. -/
theorem Inv.push {i : Nat} (data : T) {address : Nat} (hidle : q.producers i = .idle)
    (hlive : q.live address = false) : Inv (q.push i data address) waiting := by
  have hne : ∀ a, q.live a → a ≠ address := fun a ha heq => by
    rw [heq, hlive] at ha
    cases ha
  have hnode : ∀ a ∈ nodes q.tail waiting, a ≠ address := fun a ha => hne a (h.live a ha)
  have hpush : q.push i data address = { q with
      live := Function.update q.live address true
      next := Function.update q.next address none
      storage := Function.update q.storage address (some data)
      producers := Function.update q.producers i (.exchange address data) } := by
    simp only [PollableQueue.push, hidle, hlive, PollableQueue.setProducer]
  rw [hpush]
  exact {
    nodup := h.nodup
    live a ha := (Function.update_of_ne (hnode a ha) ..).trans (h.live a ha)
    links a b hab := by
      dsimp only
      rw [Function.update_of_ne (hnode a hab.left_mem)]
      refine (h.links a b hab).imp_right fun ⟨hnone, j, hj⟩ => ⟨hnone, j, ?_⟩
      exact update_other hj (by rw [hidle]; nofun)
    last := h.last
    last_next := (Function.update_of_ne (hnode _ h.head_mem) ..).trans h.last_next
    values p hp := (Function.update_of_ne (hnode _ (mem_nodes _ hp)) ..).trans (h.values p hp)
    linking j a b hj := by
      obtain ⟨-, ⟨⟩⟩ | ⟨-, hj⟩ := update_cases hj
      obtain ⟨hab, hnone⟩ := h.linking j a b hj
      exact ⟨hab, (Function.update_of_ne (hnode a hab.left_mem) ..).trans hnone⟩
    linking_apart j k a b c hj hk := by
      obtain ⟨-, ⟨⟩⟩ | ⟨-, hj⟩ := update_cases hj
      obtain ⟨-, ⟨⟩⟩ | ⟨-, hk⟩ := update_cases hk
      exact h.linking_apart j k a b c hj hk
    exchanging j a v hj := by
      dsimp only
      rcases update_cases hj with ⟨-, heq⟩ | ⟨-, hj⟩
      · cases heq
        rw [Function.update_self, Function.update_self, Function.update_self]
        exact ⟨rfl, fun hmem => hnode _ hmem rfl, rfl, rfl,
          fun hentry => hne _ (h.holding _ hentry).1 rfl⟩
      · obtain ⟨hal, hrest⟩ := h.exchanging j a v hj
        rw [Function.update_of_ne (hne a hal), Function.update_of_ne (hne a hal),
          Function.update_of_ne (hne a hal)]
        exact ⟨hal, hrest⟩
    exchanging_apart j k a v w hj hk := by
      rcases update_cases hj with ⟨hji, heq⟩ | ⟨-, hj'⟩
      · cases heq
        rcases update_cases hk with ⟨hki, -⟩ | ⟨-, hk'⟩
        · rw [hji, hki]
        · exact absurd rfl (hne _ (h.exchanging k _ w hk').1)
      · rcases update_cases hk with ⟨-, heq⟩ | ⟨-, hk'⟩
        · cases heq
          exact absurd rfl (hne _ (h.exchanging j _ v hj').1)
        · exact h.exchanging_apart j k a v w hj' hk'
    holding a ha := by
      obtain ⟨hal, hmem, hsome⟩ := h.holding a ha
      dsimp only
      rw [Function.update_of_ne (hne a hal), Function.update_of_ne (hne a hal)]
      exact ⟨hal, hmem, hsome⟩
    wake hc hn := by
      refine (h.wake hc ?_).imp_right fun ⟨j, hj⟩ => ⟨j, update_other hj (by rw [hidle]; nofun)⟩
      dsimp only at hn
      rwa [Function.update_of_ne (hnode _ (List.mem_cons_self ..))] at hn }

/-- A producer has exchanged the head: its entry is the last one, and not linked. -/
theorem Inv.exchange {i entry : Nat} {data : T} (hi : q.producers i = .exchange entry data) :
    Inv (q.produce i) (waiting ++ [(entry, data)]) := by
  obtain ⟨hlive, hmem, hnext, hvalue, hentry⟩ := h.exchanging i entry data hi
  have hproduce : q.produce i = { q with
      head := entry
      producers := Function.update q.producers i (.link q.head entry) } := by
    simp only [PollableQueue.produce, hi, PollableQueue.setProducer]
  have hne : ∀ a ∈ nodes q.tail waiting, a ≠ entry := fun a ha heq => hmem (heq ▸ ha)
  rw [hproduce]
  exact {
    nodup := by
      rw [nodes_concat]
      refine List.nodup_append.mpr ⟨h.nodup, List.nodup_singleton _, fun a ha b hb => ?_⟩
      rw [List.mem_singleton.mp hb]
      exact hne a ha
    live a ha := by
      rw [nodes_concat] at ha
      rcases List.mem_append.mp ha with ha | ha
      · exact h.live a ha
      · rw [List.mem_singleton.mp ha]
        exact hlive
    links a b hab := by
      rw [nodes_concat] at hab
      rcases hab.of_concat with ⟨hlast, rfl⟩ | hab
      · obtain rfl := Option.some.inj (h.last.symm.trans hlast)
        exact .inr ⟨h.last_next, i, Function.update_self ..⟩
      · refine (h.links a b hab).imp_right fun ⟨hnone, j, hj⟩ => ⟨hnone, j, ?_⟩
        exact update_other hj (by rw [hi]; nofun)
    last := by rw [nodes_concat, List.getLast?_concat]
    last_next := hnext
    values p hp := by
      rcases List.mem_append.mp hp with hp | hp
      · exact h.values p hp
      · rw [List.mem_singleton.mp hp]
        exact hvalue
    linking j a b hj := by
      rw [nodes_concat]
      rcases update_cases hj with ⟨-, heq⟩ | ⟨-, hj⟩
      · cases heq
        exact ⟨.last h.last, h.last_next⟩
      · exact ⟨(h.linking j a b hj).1.concat, (h.linking j a b hj).2⟩
    linking_apart j k a b c hj hk := by
      rcases update_cases hj with ⟨hji, heq⟩ | ⟨-, hj'⟩
      · cases heq
        rcases update_cases hk with ⟨hki, -⟩ | ⟨-, hk'⟩
        · rw [hji, hki]
        · exact absurd h.last ((h.linking k _ c hk').1.ne_last h.nodup)
      · rcases update_cases hk with ⟨-, heq⟩ | ⟨-, hk'⟩
        · cases heq
          exact absurd h.last ((h.linking j _ b hj').1.ne_last h.nodup)
        · exact h.linking_apart j k a b c hj' hk'
    exchanging j a v hj := by
      obtain ⟨-, ⟨⟩⟩ | ⟨hji, hj'⟩ := update_cases hj
      obtain ⟨hal, hmem', hrest⟩ := h.exchanging j a v hj'
      refine ⟨hal, fun hin => ?_, hrest⟩
      rw [nodes_concat] at hin
      rcases List.mem_append.mp hin with hin | hin
      · exact hmem' hin
      · obtain rfl := List.mem_singleton.mp hin
        exact hji (h.exchanging_apart j i _ v data hj' hi)
    exchanging_apart j k a v w hj hk := by
      obtain ⟨-, ⟨⟩⟩ | ⟨-, hj⟩ := update_cases hj
      obtain ⟨-, ⟨⟩⟩ | ⟨-, hk⟩ := update_cases hk
      exact h.exchanging_apart j k a v w hj hk
    holding a ha := by
      obtain ⟨hal, hmem', hsome⟩ := h.holding a ha
      refine ⟨hal, fun hin => ?_, hsome⟩
      rw [nodes_concat] at hin
      rcases List.mem_append.mp hin with hin | hin
      · exact hmem' hin
      · obtain rfl := List.mem_singleton.mp hin
        exact hentry ha
    wake hc hn := (h.wake hc hn).imp_right fun ⟨j, hj⟩ =>
      ⟨j, update_other hj (by rw [hi]; nofun)⟩ }

/-- A producer has linked its entry, and is still to write. -/
theorem Inv.link {i prev entry : Nat} (hi : q.producers i = .link prev entry) :
    Inv (q.produce i) waiting := by
  obtain ⟨hprev, hnone⟩ := h.linking i prev entry hi
  have hproduce : q.produce i = { q with
      next := Function.update q.next prev (some entry)
      producers := Function.update q.producers i .write } := by
    simp only [PollableQueue.produce, hi, PollableQueue.setProducer]
  have hhead : q.head ≠ prev := fun heq => hprev.ne_last h.nodup (heq ▸ h.last)
  rw [hproduce]
  exact {
    nodup := h.nodup
    live := h.live
    links a b hab := by
      by_cases ha : a = prev
      · subst ha
        refine .inl ((Function.update_self ..).trans ?_)
        rw [hprev.unique h.nodup hab]
      · dsimp only
        rw [Function.update_of_ne ha]
        refine (h.links a b hab).imp_right fun ⟨hnext, j, hj⟩ => ⟨hnext, j, update_other hj ?_⟩
        rw [hi]
        exact fun heq => ha (Producer.link.inj heq).1.symm
    last := h.last
    last_next := (Function.update_of_ne hhead ..).trans h.last_next
    values := h.values
    linking j a b hj := by
      obtain ⟨-, ⟨⟩⟩ | ⟨hji, hj'⟩ := update_cases hj
      obtain ⟨hab, hnext⟩ := h.linking j a b hj'
      have ha : a ≠ prev := fun heq => hji (h.linking_apart j i a b entry hj' (heq ▸ hi))
      exact ⟨hab, (Function.update_of_ne ha ..).trans hnext⟩
    linking_apart j k a b c hj hk := by
      obtain ⟨-, ⟨⟩⟩ | ⟨-, hj'⟩ := update_cases hj
      obtain ⟨-, ⟨⟩⟩ | ⟨-, hk'⟩ := update_cases hk
      exact h.linking_apart j k a b c hj' hk'
    exchanging j a v hj := by
      obtain ⟨-, ⟨⟩⟩ | ⟨-, hj'⟩ := update_cases hj
      obtain ⟨hal, hmem, hnext, hrest⟩ := h.exchanging j a v hj'
      have ha : a ≠ prev := fun heq => hmem (heq ▸ hprev.left_mem)
      exact ⟨hal, hmem, (Function.update_of_ne ha ..).trans hnext, hrest⟩
    exchanging_apart j k a v w hj hk := by
      obtain ⟨-, ⟨⟩⟩ | ⟨-, hj'⟩ := update_cases hj
      obtain ⟨-, ⟨⟩⟩ | ⟨-, hk'⟩ := update_cases hk
      exact h.exchanging_apart j k a v w hj' hk'
    holding := h.holding
    wake _ _ := .inr ⟨i, Function.update_self ..⟩ }

/-- A producer has written: the descriptor is readable. -/
theorem Inv.write {i : Nat} (hi : q.producers i = .write) : Inv (q.produce i) waiting := by
  have hproduce : q.produce i = { q with
      eventFd := if q.eventFd < maxCount then q.eventFd + 1 else q.eventFd
      producers := Function.update q.producers i .idle } := by
    simp only [PollableQueue.produce, hi, PollableQueue.setProducer]
  rw [hproduce]
  exact {
    nodup := h.nodup
    live := h.live
    links a b hab := (h.links a b hab).imp_right fun ⟨hnext, j, hj⟩ =>
      ⟨hnext, j, update_other hj (by rw [hi]; nofun)⟩
    last := h.last
    last_next := h.last_next
    values := h.values
    linking j a b hj := by
      obtain ⟨-, ⟨⟩⟩ | ⟨-, hj'⟩ := update_cases hj
      exact h.linking j a b hj'
    linking_apart j k a b c hj hk := by
      obtain ⟨-, ⟨⟩⟩ | ⟨-, hj'⟩ := update_cases hj
      obtain ⟨-, ⟨⟩⟩ | ⟨-, hk'⟩ := update_cases hk
      exact h.linking_apart j k a b c hj' hk'
    exchanging j a v hj := by
      obtain ⟨-, ⟨⟩⟩ | ⟨-, hj'⟩ := update_cases hj
      exact h.exchanging j a v hj'
    exchanging_apart j k a v w hj hk := by
      obtain ⟨-, ⟨⟩⟩ | ⟨-, hj'⟩ := update_cases hj
      obtain ⟨-, ⟨⟩⟩ | ⟨-, hk'⟩ := update_cases hk
      exact h.exchanging_apart j k a v w hj' hk'
    holding := h.holding
    wake _ _ := by
      refine .inl ?_
      dsimp only
      split
      · exact Nat.succ_pos _
      · have hmax : 0 < maxCount := by decide
        omega }

/-! ## The steps of the consumer -/

/-- The consumer goes on with what it holds. -/
theorem Inv.setConsumer {eventFd : Nat} {consumer : Consumer}
    (hentry : consumer.entry = q.consumer.entry)
    (hwake : consumer = .parked ∨ consumer = .read none → q.next q.tail ≠ none →
      0 < eventFd ∨ ∃ i, q.producers i = .write) :
    Inv { q with eventFd, consumer } waiting where
  nodup := h.nodup
  live := h.live
  links := h.links
  last := h.last
  last_next := h.last_next
  values := h.values
  linking := h.linking
  linking_apart := h.linking_apart
  exchanging j a v hj := by
    dsimp only
    rw [hentry]
    exact h.exchanging j a v hj
  exchanging_apart := h.exchanging_apart
  holding a ha := h.holding a (hentry ▸ ha)
  wake := hwake

/-- The consumer takes the entry that the tail links to. -/
theorem Inv.popEntry {next : Nat} {consumer : Consumer} (hnext : q.next q.tail = some next)
    (hconsumer : consumer.entry = some q.tail) :
    ∃ v rest, waiting = (next, v) :: rest ∧ q.popEntry.2.storage q.tail = some v ∧
      Inv { q.popEntry.2 with consumer } rest := by
  have hpop : q.popEntry.2 = { q with
      tail := next
      storage := Function.update (Function.update q.storage q.tail (q.storage next)) next none } := by
    simp only [PollableQueue.popEntry, hnext]
  cases waiting with
  | nil =>
    have hhead : q.tail = q.head := Option.some.inj h.last
    have hnone := h.last_next
    rw [← hhead, hnext] at hnone
    cases hnone
  | cons p rest =>
    have hfollows : Follows (nodes q.tail (p :: rest)) q.tail p.1 := .head
    obtain rfl : p.1 = next := by
      rcases h.links _ _ hfollows with hlink | ⟨hnone, -⟩
      · exact Option.some.inj (hlink.symm.trans hnext)
      · rw [hnext] at hnone
        cases hnone
    have hnodup := List.nodup_cons.mp h.nodup
    have hrest := List.nodup_cons.mp hnodup.2
    have htail : ∀ a ∈ nodes p.1 rest, a ≠ q.tail := fun a ha heq => hnodup.1 (heq ▸ ha)
    have hvalue : q.storage p.1 = some p.2 := h.values p (List.mem_cons_self ..)
    refine ⟨p.2, rest, rfl, ?_, ?_⟩
    · rw [hpop]
      dsimp only
      rw [Function.update_of_ne (htail _ (List.mem_cons_self ..)).symm, Function.update_self, hvalue]
    rw [hpop]
    exact {
      nodup := hnodup.2
      live a ha := h.live a (List.mem_cons_of_mem _ ha)
      links a b hab := h.links a b hab.cons
      last := by
        have hlast := h.last
        rwa [nodes, List.map_cons, List.getLast?_cons_cons] at hlast
      last_next := h.last_next
      values p' hp' := by
        have hmem : p'.1 ∈ nodes p.1 rest := mem_nodes _ hp'
        have hne : p'.1 ≠ p.1 := fun heq => hrest.1 (heq ▸ List.mem_map_of_mem hp')
        dsimp only
        rw [Function.update_of_ne hne, Function.update_of_ne (htail _ hmem)]
        exact h.values p' (List.mem_cons_of_mem _ hp')
      linking i a b hi := by
        obtain ⟨hab, hnone⟩ := h.linking i a b hi
        refine ⟨?_, hnone⟩
        rcases hab.of_cons with ⟨rfl, -⟩ | hab
        · rw [hnext] at hnone
          cases hnone
        · exact hab
      linking_apart := h.linking_apart
      exchanging i a v hi := by
        obtain ⟨hal, hmem, hnone, hstorage, -⟩ := h.exchanging i a v hi
        have hta : a ≠ q.tail := fun heq => hmem (heq ▸ List.mem_cons_self ..)
        have hpa : a ≠ p.1 := fun heq => hmem (heq ▸ hfollows.right_mem)
        refine ⟨hal, fun hin => hmem (List.mem_cons_of_mem _ hin), hnone, ?_, ?_⟩
        · dsimp only
          rw [Function.update_of_ne hpa, Function.update_of_ne hta]
          exact hstorage
        · dsimp only
          rw [hconsumer]
          exact fun heq => hta (Option.some.inj heq).symm
      exchanging_apart := h.exchanging_apart
      holding a ha := by
        obtain rfl := Option.some.inj (hconsumer.symm.trans ha)
        refine ⟨h.live _ (List.mem_cons_self ..), hnodup.1, ?_⟩
        dsimp only
        rw [Function.update_of_ne (htail _ (List.mem_cons_self ..)).symm, Function.update_self,
          hvalue]
        rfl
      wake hc := by
        dsimp only at hc
        rcases hc with rfl | rfl
        · cases hconsumer
        · cases hconsumer }

/-- The consumer empties and deletes the entry that it holds. -/
theorem Inv.take {entry : Nat} (hc : q.consumer = .take entry) : Inv q.consume waiting := by
  have hentry : q.consumer.entry = some entry := by rw [hc]; rfl
  obtain ⟨-, hmem, -⟩ := h.holding entry hentry
  have hne : ∀ a ∈ nodes q.tail waiting, a ≠ entry := fun a ha heq => hmem (heq ▸ ha)
  have hconsume : q.consume = { q with
      live := Function.update q.live entry false
      storage := Function.update q.storage entry none
      consumer := .pop } := by
    simp only [PollableQueue.consume, hc]
  rw [hconsume]
  exact {
    nodup := h.nodup
    live a ha := (Function.update_of_ne (hne a ha) ..).trans (h.live a ha)
    links := h.links
    last := h.last
    last_next := h.last_next
    values p hp := (Function.update_of_ne (hne _ (mem_nodes _ hp)) ..).trans (h.values p hp)
    linking := h.linking
    linking_apart := h.linking_apart
    exchanging i a v hi := by
      obtain ⟨hal, hmem', hnone, hstorage, hheld⟩ := h.exchanging i a v hi
      have ha : a ≠ entry := fun heq => hheld (heq ▸ hentry)
      exact ⟨(Function.update_of_ne ha ..).trans hal, hmem', hnone,
        (Function.update_of_ne ha ..).trans hstorage, nofun⟩
    exchanging_apart := h.exchanging_apart
    holding a ha := by cases ha
    wake hc' := by
      rcases hc' with hc' | hc'
      · cases hc'
      · cases hc' }

end

/-! ## Every step -/

/-- What has been exchanged is what has been popped, what the consumer holds and what waits. -/
def Accounts {T : Type} (s : System T) : Prop :=
  ∃ waiting, Inv s.queue waiting ∧
    s.exchanged = s.popped ++ held s.queue ++ waiting.map Prod.snd

section

variable {T : Type} {s : System T}

theorem Accounts.push (h : Accounts s) (i : Nat) (data : T) (address : Nat) :
    Accounts (s.step (.push i data address)) := by
  obtain ⟨waiting, hinv, hexchanged⟩ := h
  simp only [System.step, System.pushes, System.pops, PollableQueue.step, List.append_nil]
  by_cases hnew : s.queue.producers i = .idle ∧ s.queue.live address = false
  · refine ⟨waiting, hinv.push data hnew.1 hnew.2, ?_⟩
    have hheld : held (s.queue.push i data address) = held s.queue := by
      have hpush : (s.queue.push i data address).consumer = s.queue.consumer ∧
          (s.queue.push i data address).storage =
            Function.update s.queue.storage address (some data) := by
        simp only [PollableQueue.push, hnew.1, hnew.2, PollableQueue.setProducer, and_self]
      rw [held, held, hpush.1, hpush.2]
      cases hentry : s.queue.consumer.entry with
      | none => rfl
      | some a =>
        have hlive := (hinv.holding a hentry).1
        have hne : a ≠ address := fun heq => by
          rw [heq, hnew.2] at hlive
          cases hlive
        rw [Option.bind_some, Option.bind_some, Function.update_of_ne hne]
    rw [hheld]
    exact hexchanged
  · have hsame : s.queue.push i data address = s.queue := by
      unfold PollableQueue.push
      split
      · rename_i hidle hlive
        exact absurd ⟨hidle, hlive⟩ hnew
      · rfl
    rw [hsame]
    exact ⟨waiting, hinv, hexchanged⟩

theorem Accounts.produce (h : Accounts s) (i : Nat) : Accounts (s.step (.produce i)) := by
  obtain ⟨waiting, hinv, hexchanged⟩ := h
  simp only [System.step, System.pushes, System.pops, PollableQueue.step, List.append_nil]
  cases hi : s.queue.producers i with
  | idle =>
    have hsame : s.queue.produce i = s.queue := by simp only [PollableQueue.produce, hi]
    rw [hsame, List.append_nil]
    exact ⟨waiting, hinv, hexchanged⟩
  | exchange entry data =>
    refine ⟨waiting ++ [(entry, data)], hinv.exchange hi, ?_⟩
    have hheld : held (s.queue.produce i) = held s.queue := by
      simp only [PollableQueue.produce, hi]
      rfl
    rw [hheld, hexchanged, List.map_append, List.append_assoc, List.append_assoc, List.append_assoc]
    rfl
  | link prev entry =>
    refine ⟨waiting, hinv.link hi, ?_⟩
    have hheld : held (s.queue.produce i) = held s.queue := by
      simp only [PollableQueue.produce, hi]
      rfl
    rw [hheld, List.append_nil]
    exact hexchanged
  | write =>
    refine ⟨waiting, hinv.write hi, ?_⟩
    have hheld : held (s.queue.produce i) = held s.queue := by
      simp only [PollableQueue.produce, hi]
      rfl
    rw [hheld, List.append_nil]
    exact hexchanged

/-- A step of the consumer that neither takes an entry from the queue nor empties one. -/
theorem Accounts.same {waiting : List (Nat × T)} (hinv : Inv s.queue waiting)
    (hexchanged : s.exchanged = s.popped ++ held s.queue ++ waiting.map Prod.snd) {eventFd : Nat}
    {consumer : Consumer} (hentry : consumer.entry = s.queue.consumer.entry)
    (hwake : consumer = .parked ∨ consumer = .read none → s.queue.next s.queue.tail ≠ none →
      0 < eventFd ∨ ∃ i, s.queue.producers i = .write) :
    Accounts ⟨{ s.queue with eventFd, consumer }, s.exchanged, s.popped⟩ := by
  refine ⟨waiting, hinv.setConsumer hentry hwake, ?_⟩
  have hheld : held { s.queue with eventFd, consumer } = held s.queue := by
    rw [held, held, hentry]
  rw [hheld]
  exact hexchanged

/-- `Queue<T>::pop`. -/
theorem Accounts.pop {waiting : List (Nat × T)} (hinv : Inv s.queue waiting)
    (hexchanged : s.exchanged = s.popped ++ held s.queue ++ waiting.map Prod.snd)
    (hentry : s.queue.consumer.entry = none) {consumer : Option Nat → Consumer}
    (hconsumer : ∀ ret, (consumer ret).entry = ret) :
    Accounts ⟨{ s.queue.popEntry.2 with consumer := consumer s.queue.popEntry.1 },
      s.exchanged, s.popped⟩ := by
  have hheld : held s.queue = [] := by
    rw [held, hentry]
    rfl
  rw [hheld, List.append_nil] at hexchanged
  cases hnext : s.queue.next s.queue.tail with
  | none =>
    have hpop : s.queue.popEntry = (none, s.queue) := by simp only [PollableQueue.popEntry, hnext]
    rw [hpop]
    refine ⟨waiting, hinv.setConsumer ((hconsumer _).trans hentry.symm) fun _ hne => absurd hnext hne, ?_⟩
    rw [held]
    dsimp only
    rw [hconsumer, hexchanged]
    simp
  | some next =>
    have hfst : s.queue.popEntry.1 = some s.queue.tail := by
      simp only [PollableQueue.popEntry, hnext]
    rw [hfst]
    obtain ⟨v, rest, rfl, hstorage, hinv'⟩ := hinv.popEntry hnext (hconsumer (some s.queue.tail))
    refine ⟨rest, hinv', ?_⟩
    rw [held]
    dsimp only
    rw [hconsumer, Option.bind_some, hstorage, hexchanged]
    simp

theorem returned_entry (ret : Option Nat) : (Consumer.returned ret).entry = ret := by
  cases ret <;> rfl

theorem Accounts.consume (h : Accounts s) : Accounts (s.step .consume) := by
  obtain ⟨waiting, hinv, hexchanged⟩ := h
  simp only [System.step, System.pushes, System.pops, PollableQueue.step, PollableQueue.consume,
    List.append_nil]
  cases hc : s.queue.consumer with
  | parked =>
    dsimp only
    rw [List.append_nil]
    split
    · refine Accounts.same hinv hexchanged (by rw [hc]; rfl) ?_
      rintro (h | h) <;> cases h
    · exact ⟨waiting, hinv, hexchanged⟩
  | pop =>
    dsimp only
    rw [List.append_nil]
    exact Accounts.pop hinv hexchanged (by rw [hc]; rfl) fun _ => rfl
  | read ret =>
    dsimp only
    rw [List.append_nil]
    split
    · refine Accounts.same hinv hexchanged ?_ ?_
      · rw [hc]
        split
        · rename_i hnone
          exact hnone.symm
        · exact returned_entry ret
      · cases ret with
        | none => rintro (h | h) <;> cases h
        | some entry => rintro (h | h) <;> cases h
    · refine Accounts.same hinv hexchanged (by rw [hc]; exact returned_entry ret) ?_
      intro hparked hnext
      cases ret with
      | none => exact hinv.wake (.inr hc) hnext
      | some entry => rcases hparked with h | h <;> cases h
  | again =>
    dsimp only
    rw [List.append_nil]
    exact Accounts.pop hinv hexchanged (by rw [hc]; rfl) returned_entry
  | take entry =>
    have htake := hinv.take hc
    have hheld : held s.queue = (s.queue.storage entry).toList := by
      rw [held, hc]
      rfl
    simp only [PollableQueue.consume, hc] at htake
    refine ⟨waiting, htake, ?_⟩
    dsimp only
    rw [hexchanged, hheld]
    simp [held, Consumer.entry]

theorem Accounts.step (h : Accounts s) (event : Event T) : Accounts (s.step event) := by
  cases event with
  | push i data address => exact h.push i data address
  | produce i => exact h.produce i
  | flush =>
    obtain ⟨waiting, hinv, hexchanged⟩ := h
    simp only [System.step, System.pushes, System.pops, PollableQueue.step, List.append_nil]
    split
    · rename_i hc
      refine Accounts.same hinv hexchanged (by rw [hc]; rfl) ?_
      rintro (h | h) <;> cases h
    · exact ⟨waiting, hinv, hexchanged⟩
  | consume => exact h.consume

theorem Accounts.init : Accounts (System.init T) := by
  have hnone : ∀ a b, ¬ Follows [0] a b := fun a b hab => by
    rcases hab.of_cons with ⟨-, hb⟩ | hab
    · cases hb
    · cases hab.left_mem
  exact ⟨[], {
    nodup := List.nodup_singleton _
    live a ha := by
      rw [List.mem_singleton.mp ha]
      rfl
    links a b hab := absurd hab (hnone a b)
    last := rfl
    last_next := rfl
    values := nofun
    linking := nofun
    linking_apart := nofun
    exchanging := nofun
    exchanging_apart := nofun
    holding := nofun
    wake _ hne := absurd rfl hne }, rfl⟩

theorem Accounts.run (h : Accounts s) (events : List (Event T)) : Accounts (s.run events) := by
  have hstep : ∀ (s : System T) (event : Event T), Accounts s → Accounts (s.step event) :=
    fun _ event h => h.step event
  exact Machine.run_inv hstep events s h

end

end Pollable

end Pistache.Mailbox
