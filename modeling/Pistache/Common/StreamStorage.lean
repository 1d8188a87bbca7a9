import Mathlib.Logic.Function.Basic
import Pistache.Common.Ostream

/-!
# The storage of an output buffer

`DynamicStreamBuf` with its vector and the pointers of its put area.  A pointer is the block of
storage that it points into and the offset in it; every `resize` may move the vector to another
block, wherever the allocator puts it (`addr`).  Allocations succeed.  `sputc` and `xsputn` are
those of `std::basic_streambuf`.

`Pistache.DynamicStreamBuf` is what the buffer is for: a string that is appended to, of a bounded
size.

Principal results:

* `xsputn_refines`, `overflow_cases` — a write takes what still fits.
* `buffers_hold_strings` — any objects, after any writes, clears and moves, hold what such strings hold.
-/

set_option autoImplicit false

namespace Pistache.Storage

/-! ## Vectors and pointers -/

/-- The elements of a `std::vector<char>` and the block that they stand in. -/
structure Vec where
  block : Nat
  bytes : Bytes

/-- A pointer to an element, or to the end of a block. -/
structure Ptr where
  block : Nat
  off : Nat

namespace Vec

/-- A vector without storage, as a move leaves it. -/
def null : Vec := ⟨0, []⟩

/-- `size`. -/
def size (v : Vec) : Nat := v.bytes.length

/-- `data() + off`. -/
def ptr (v : Vec) (off : Nat) : Ptr := ⟨v.block, off⟩

/-- `resize`, into the block that the allocator gives. -/
def resize (v : Vec) (block : Nat) (n : Nat) : Vec :=
  ⟨block, v.bytes.take n ++ List.replicate (n - v.bytes.length) 0⟩

/-- A copy of characters to where a pointer points; it reaches the elements of this vector only
through its own block. -/
def store (v : Vec) (p : Ptr) (cs : Bytes) : Vec :=
  if p.block = v.block then
    { v with bytes := v.bytes.take p.off ++ cs ++ v.bytes.drop (p.off + cs.length) }
  else v

end Vec

/-! ## The buffer -/

/-- The fields of `DynamicStreamBuf` and of its base class. -/
structure DynamicStreamBuf where
  data_ : Vec
  maxSize_ : Nat
  pbase : Ptr
  pptr : Ptr
  epptr : Ptr

namespace DynamicStreamBuf

variable (addr : Nat → Nat)

/-- `setp`. -/
def setp (buf : DynamicStreamBuf) (begin_ end_ : Ptr) : DynamicStreamBuf :=
  { buf with pbase := begin_, pptr := begin_, epptr := end_ }

/-- `reserve`. -/
def reserve (buf : DynamicStreamBuf) (size : Nat) : DynamicStreamBuf :=
  let size := if size > buf.maxSize_ then buf.maxSize_ else size
  let oldSize := buf.data_.size
  let data_ := buf.data_.resize (addr size) size
  { buf with data_ }.setp (data_.ptr oldSize) (data_.ptr size)

/-- The members as the constructors initialise them. -/
def init (maxSize : Nat) : DynamicStreamBuf where
  data_ := Vec.null
  maxSize_ := maxSize
  pbase := Vec.null.ptr 0
  pptr := Vec.null.ptr 0
  epptr := Vec.null.ptr 0

/-- The constructor. -/
def new (size maxSize : Nat) : DynamicStreamBuf := (init maxSize).reserve addr size

/-- A copy of characters to the put pointer, and `pbump`. -/
def put (buf : DynamicStreamBuf) (cs : Bytes) : DynamicStreamBuf :=
  { buf with
    data_ := buf.data_.store buf.pptr cs
    pptr := ⟨buf.pptr.block, buf.pptr.off + cs.length⟩ }

/-- `overflow`; `none` is the end of file, as a character and as the result. -/
def overflow (buf : DynamicStreamBuf) (ch : Option UInt8) : Option DynamicStreamBuf :=
  match ch with
  | none => none
  | some ch =>
    let size := buf.data_.size
    if size < buf.maxSize_ then
      some ((buf.reserve addr ((if size ≠ 0 then size else 1) * 2)).put [ch])
    else none

/-- `sputc`. -/
def sputc (buf : DynamicStreamBuf) (c : UInt8) : Option DynamicStreamBuf :=
  if buf.pptr.off < buf.epptr.off then some (buf.put [c]) else buf.overflow addr (some c)

/-- `xsputn`: as much as there is room for, then one character through `overflow`, and again. -/
def xsputn (buf : DynamicStreamBuf) (s : Bytes) : Nat × DynamicStreamBuf :=
  let len := min (buf.epptr.off - buf.pptr.off) s.length
  let filled := buf.put (s.take len)
  match _h : s.drop len with
  | [] => (len, filled)
  | c :: rest =>
    match filled.overflow addr (some c) with
    | none => (len, filled)
    | some buf => let (n, buf) := buf.xsputn rest; (len + 1 + n, buf)
termination_by s.length
decreasing_by
  have hlen := congrArg List.length _h
  rw [List.length_drop, List.length_cons] at hlen
  omega

/-- `buffer`: the characters in front of the put pointer. -/
def buffer (buf : DynamicStreamBuf) : Bytes := buf.data_.bytes.take buf.pptr.off

/-- `clear`. -/
def clear (buf : DynamicStreamBuf) : DynamicStreamBuf :=
  buf.setp (buf.data_.ptr 0) (buf.data_.ptr buf.data_.size)

/-- What a move makes of its source: the vector with its block, and the rest of the put area. -/
def moveTo (other : DynamicStreamBuf) : DynamicStreamBuf :=
  { init other.maxSize_ with data_ := other.data_ }.setp other.pptr other.epptr

/-- What a move leaves of its source. -/
def moveFrom (other : DynamicStreamBuf) : DynamicStreamBuf :=
  { other with data_ := Vec.null }.setp (Vec.null.ptr 0) (Vec.null.ptr 0)

/-! ## The invariant -/

/-- **The put pointers lie in the storage**: they point into the block of the vector, in their
order, and the put area ends with the vector. -/
structure InStorage (buf : DynamicStreamBuf) : Prop where
  pbase_block : buf.pbase.block = buf.data_.block
  pptr_block : buf.pptr.block = buf.data_.block
  epptr_block : buf.epptr.block = buf.data_.block
  pbase_le : buf.pbase.off ≤ buf.pptr.off
  pptr_le : buf.pptr.off ≤ buf.epptr.off
  epptr_eq : buf.epptr.off = buf.data_.size
  size_le : buf.data_.size ≤ buf.maxSize_

variable {buf : DynamicStreamBuf} {cs : Bytes}

theorem InStorage.length (h : buf.InStorage) : buf.buffer.length = buf.pptr.off := by
  have hle := h.pptr_le
  have heq := h.epptr_eq
  unfold Vec.size at heq
  rw [buffer, List.length_take]
  omega

theorem InStorage.length_le (h : buf.InStorage) : buf.buffer.length ≤ buf.maxSize_ := by
  have hle := h.pptr_le
  have heq := h.epptr_eq
  have hmax := h.size_le
  rw [h.length]
  omega

/-! ## What the operations do -/

/-- Characters that fit between the put pointer and the end. -/
theorem put_spec (h : buf.InStorage) (hfits : cs.length ≤ buf.epptr.off - buf.pptr.off) :
    (buf.put cs).InStorage ∧ (buf.put cs).buffer = buf.buffer ++ cs := by
  have hle := h.pptr_le
  have heq := h.epptr_eq
  have hbytes : (buf.put cs).data_.bytes = buf.data_.bytes.take buf.pptr.off ++ cs ++
      buf.data_.bytes.drop (buf.pptr.off + cs.length) := by
    show (buf.data_.store buf.pptr cs).bytes = _
    rw [Vec.store, if_pos h.pptr_block]
  have hblock : (buf.put cs).data_.block = buf.data_.block := by
    show (buf.data_.store buf.pptr cs).block = _
    rw [Vec.store, if_pos h.pptr_block]
  unfold Vec.size at heq
  have hsize : (buf.put cs).data_.size = buf.data_.size := by
    unfold Vec.size
    rw [hbytes, List.length_append, List.length_append, List.length_take, List.length_drop]
    omega
  constructor
  · refine ⟨hblock ▸ h.pbase_block, hblock ▸ h.pptr_block, hblock ▸ h.epptr_block, ?_, ?_, ?_, ?_⟩
    · exact Nat.le_trans h.pbase_le (Nat.le_add_right _ _)
    · show buf.pptr.off + cs.length ≤ buf.epptr.off
      omega
    · rw [hsize]
      exact h.epptr_eq
    · rw [hsize]
      exact h.size_le
  · have hlen : buf.pptr.off + cs.length = (buf.data_.bytes.take buf.pptr.off ++ cs).length := by
      rw [List.length_append, List.length_take]
      omega
    show (buf.put cs).data_.bytes.take (buf.pptr.off + cs.length) = buf.buffer ++ cs
    rw [hbytes, hlen, List.take_left, buffer]

/-- More storage behind a put area that is full. -/
theorem reserve_spec (hblocks : buf.data_.size ≤ buf.maxSize_)
    (hfull : buf.buffer = buf.data_.bytes) {size : Nat} (hmore : buf.data_.size ≤ size) :
    (buf.reserve addr size).InStorage ∧ (buf.reserve addr size).buffer = buf.buffer ∧
      (buf.reserve addr size).epptr.off = min size buf.maxSize_ ∧
      (buf.reserve addr size).pptr.off = buf.data_.size := by
  have hmin : (if size > buf.maxSize_ then buf.maxSize_ else size) = min size buf.maxSize_ := by
    split <;> omega
  have hbytes : (buf.reserve addr size).data_.bytes =
      buf.data_.bytes ++ List.replicate (min size buf.maxSize_ - buf.data_.size) 0 := by
    show (buf.data_.bytes.take (if size > buf.maxSize_ then buf.maxSize_ else size) ++
      List.replicate ((if size > buf.maxSize_ then buf.maxSize_ else size) - _) 0 : Bytes) = _
    rw [hmin, List.take_of_length_le]
    · rfl
    · show buf.data_.size ≤ _
      omega
  have hsize : (buf.reserve addr size).data_.size = min size buf.maxSize_ := by
    unfold Vec.size
    rw [hbytes, List.length_append, List.length_replicate]
    show buf.data_.size + _ = _
    omega
  have hend : (buf.reserve addr size).epptr.off = min size buf.maxSize_ := hmin
  have hput : (buf.reserve addr size).pptr.off = buf.data_.size := rfl
  refine ⟨⟨rfl, rfl, rfl, Nat.le_refl _, ?_, ?_, ?_⟩, ?_, hend, hput⟩
  · rw [hput, hend]
    omega
  · rw [hend, hsize]
  · rw [hsize]
    exact Nat.min_le_right _ _
  · rw [buffer, hput, hbytes, hfull]
    exact List.take_left

/-- **What `overflow` does** when the put area is full. -/
theorem overflow_cases (h : buf.InStorage) (hfull : buf.pptr.off = buf.epptr.off) (c : UInt8) :
    (buf.buffer.length < buf.maxSize_ ∧ ∃ buf', buf.overflow addr (some c) = some buf' ∧
      buf'.InStorage ∧ buf'.buffer = buf.buffer ++ [c] ∧ buf'.maxSize_ = buf.maxSize_) ∨
    (buf.buffer.length = buf.maxSize_ ∧ buf.overflow addr (some c) = none) := by
  have hsize : buf.pptr.off = buf.data_.size := hfull.trans h.epptr_eq
  have hbytes : buf.buffer = buf.data_.bytes := by
    rw [buffer, hsize]
    exact List.take_length
  have hmax := h.size_le
  rw [h.length, hsize]
  unfold overflow
  dsimp only
  by_cases hroom : buf.data_.size < buf.maxSize_
  · rw [if_pos hroom]
    refine .inl ⟨hroom, _, rfl, ?_⟩
    have hmore : buf.data_.size < (if buf.data_.size ≠ 0 then buf.data_.size else 1) * 2 := by
      split <;> omega
    obtain ⟨hin, hbuffer, hend, hput⟩ :=
      reserve_spec addr hmax hbytes (Nat.le_of_lt hmore)
    have hfits : [c].length ≤ (buf.reserve addr ((if buf.data_.size ≠ 0 then buf.data_.size
        else 1) * 2)).epptr.off - (buf.reserve addr ((if buf.data_.size ≠ 0 then buf.data_.size
          else 1) * 2)).pptr.off := by
      rw [hend, hput, List.length_singleton]
      omega
    obtain ⟨hin', hbuffer'⟩ := put_spec hin hfits
    exact ⟨hin', by rw [hbuffer', hbuffer], rfl⟩
  · rw [if_neg hroom]
    exact .inr ⟨by omega, rfl⟩

/-! ## The string that the buffer stands for -/

/-- The buffer holds the string. -/
structure Refines (buf : DynamicStreamBuf) (spec : Pistache.DynamicStreamBuf) : Prop where
  buffer : buf.buffer = spec.data
  maxSize : buf.maxSize_ = spec.maxSize
  inStorage : buf.InStorage

variable {spec : Pistache.DynamicStreamBuf}

theorem Refines.free (h : Refines buf spec) : spec.free = buf.maxSize_ - buf.pptr.off := by
  rw [Pistache.DynamicStreamBuf.free, ← h.buffer, ← h.maxSize, h.inStorage.length]

theorem new_refines (size maxSize : Nat) :
    Refines (new addr size maxSize) ⟨[], maxSize, Nat.zero_le _⟩ := by
  have hnone : (init maxSize).data_.size ≤ size := Nat.zero_le _
  obtain ⟨hin, hbuffer, -, -⟩ := reserve_spec addr (Nat.zero_le _) rfl hnone
  exact ⟨hbuffer, rfl, hin⟩

/-- A part of a text that still fits. -/
theorem put_refines (h : Refines buf spec) (hfits : cs.length ≤ buf.epptr.off - buf.pptr.off) :
    Refines (buf.put cs) (spec.sputn cs) := by
  obtain ⟨hin, hbuffer⟩ := put_spec h.inStorage hfits
  have hfree : cs.length ≤ spec.free := by
    have heq := h.inStorage.epptr_eq
    have hmax := h.inStorage.size_le
    rw [h.free]
    omega
  exact ⟨by rw [hbuffer, h.buffer, Pistache.DynamicStreamBuf.sputn_data hfree], h.maxSize, hin⟩

/-- `overflow` of a full put area appends the character, and refuses it at the greatest size. -/
theorem overflow_refines (h : Refines buf spec) (hfull : buf.pptr.off = buf.epptr.off)
    (c : UInt8) :
    (0 < spec.free ∧ ∃ buf', buf.overflow addr (some c) = some buf' ∧
      Refines buf' (spec.sputn [c])) ∨
    (spec.free = 0 ∧ buf.overflow addr (some c) = none) := by
  have hlen := h.inStorage.length
  rcases overflow_cases addr h.inStorage hfull c with
    ⟨hroom, buf', hover, hin, hbuffer, hmax⟩ | ⟨hnone, hover⟩
  · have hfree : 0 < spec.free := by
      rw [h.free]
      omega
    have hone : [c].length ≤ spec.free := hfree
    refine .inl ⟨hfree, buf', hover, ?_, hmax.trans h.maxSize, hin⟩
    rw [hbuffer, h.buffer, Pistache.DynamicStreamBuf.sputn_data hone]
  · refine .inr ⟨?_, hover⟩
    rw [h.free]
    omega

/-- **`sputc`** takes the character if there is room for it. -/
theorem sputc_refines (h : Refines buf spec) (c : UInt8) :
    (0 < spec.free ∧ ∃ buf', buf.sputc addr c = some buf' ∧ Refines buf' (spec.sputn [c])) ∨
    (spec.free = 0 ∧ buf.sputc addr c = none) := by
  unfold sputc
  by_cases hroom : buf.pptr.off < buf.epptr.off
  · rw [if_pos hroom]
    have heq := h.inStorage.epptr_eq
    have hmax := h.inStorage.size_le
    have hfree : 0 < spec.free := by
      rw [h.free]
      omega
    refine .inl ⟨hfree, _, rfl, put_refines h ?_⟩
    rw [List.length_singleton]
    omega
  · rw [if_neg hroom]
    have hle := h.inStorage.pptr_le
    exact overflow_refines addr h (by omega) c

/-- **`xsputn`** takes what there is room for. -/
theorem xsputn_refines (h : Refines buf spec) (s : Bytes) :
    (buf.xsputn addr s).1 = min s.length spec.free ∧
      Refines (buf.xsputn addr s).2 (spec.sputn s) := by
  induction hn : s.length using Nat.strongRecOn generalizing s buf spec with
  | _ n ih =>
    subst hn
    obtain ⟨len, hlen⟩ : ∃ len, len = min (buf.epptr.off - buf.pptr.off) s.length := ⟨_, rfl⟩
    have heq := h.inStorage.epptr_eq
    have hmax := h.inStorage.size_le
    have hle := h.inStorage.pptr_le
    have hfree := h.free
    -- the part that the put area takes
    have htaken : (s.take len).length = len := by
      rw [List.length_take]
      omega
    have hput : Refines (buf.put (s.take len)) (spec.sputn (s.take len)) :=
      put_refines h (by omega)
    have hfits : (s.take len).length ≤ spec.free := by omega
    have hleft := Pistache.DynamicStreamBuf.free_sputn spec (s.take len)
    rw [xsputn]
    dsimp only
    rw [← hlen]
    split
    · rename_i hrest
      have hall : s.take len = s := by
        have happend := List.take_append_drop len s
        rw [hrest, List.append_nil] at happend
        exact happend
      rw [hall] at hput htaken ⊢
      exact ⟨by omega, hput⟩
    · rename_i c rest hrest
      have happend : s.take len ++ c :: rest = s := by
        rw [← hrest, List.take_append_drop]
      have hcount := congrArg List.length happend
      rw [List.length_append, List.length_cons] at hcount
      have hfull : (buf.put (s.take len)).pptr.off = (buf.put (s.take len)).epptr.off := by
        show buf.pptr.off + (s.take len).length = buf.epptr.off
        omega
      rcases overflow_refines addr hput hfull c with ⟨hroom, buf', hover, hone⟩ | ⟨hnone, hover⟩
      · rw [hover]
        dsimp only
        have hsingle : [c].length ≤ (spec.sputn (s.take len)).free := hroom
        have hleft' := Pistache.DynamicStreamBuf.free_sputn (spec.sputn (s.take len)) [c]
        rw [List.length_singleton] at hleft'
        obtain ⟨hcount', hmore⟩ := ih rest.length (by omega) hone rest rfl
        rw [Pistache.DynamicStreamBuf.sputn_sputn, Pistache.DynamicStreamBuf.sputn_sputn,
          List.singleton_append, happend] at hmore
        exact ⟨by omega, hmore⟩
      · rw [hover]
        dsimp only
        have hrefused : (spec.sputn (s.take len)).sputn (c :: rest) = spec.sputn (s.take len) :=
          Pistache.DynamicStreamBuf.sputn_refused hnone
        rw [← hrefused, Pistache.DynamicStreamBuf.sputn_sputn, happend] at hput
        exact ⟨by omega, hput⟩

theorem clear_refines (h : Refines buf spec) : Refines buf.clear spec.clear := by
  refine ⟨?_, h.maxSize, rfl, rfl, rfl, Nat.le_refl _, Nat.zero_le _, rfl, h.inStorage.size_le⟩
  exact List.take_zero

theorem moveTo_refines (h : Refines buf spec) : Refines buf.moveTo spec := by
  have hin := h.inStorage
  exact ⟨h.buffer, h.maxSize, hin.pptr_block, hin.pptr_block, hin.epptr_block, Nat.le_refl _,
    hin.pptr_le, hin.epptr_eq, hin.size_le⟩

theorem moveFrom_refines (h : Refines buf spec) : Refines buf.moveFrom spec.clear :=
  ⟨rfl, h.maxSize, rfl, rfl, rfl, Nat.le_refl _, Nat.le_refl _, rfl, Nat.zero_le _⟩

end DynamicStreamBuf

/-! ## Objects -/

open Storage.DynamicStreamBuf (Refines)

/-- What is done to the buffers of a program; a write comes with the blocks that the allocator
gives while it runs. -/
inductive Op where
  | construct (i : Nat) (addr : Nat → Nat) (size maxSize : Nat)
  | sputc (i : Nat) (addr : Nat → Nat) (c : UInt8)
  | sputn (i : Nat) (addr : Nat → Nat) (s : Bytes)
  | buffer (i : Nat)
  | clear (i : Nat)
  | moveConstruct (i other : Nat) (h : i ≠ other)
  | moveAssign (i other : Nat)

/-- What an operation returns. -/
inductive Result where
  | none
  | put (accepted : Bool)
  | count (n : Nat)
  | data (text : Bytes)
  deriving DecidableEq

/-- Objects under their numbers. -/
abbrev Objects (α : Type) := Nat → α

/-- One operation on the buffers. -/
def Op.run (op : Op) (objs : Objects DynamicStreamBuf) : Result × Objects DynamicStreamBuf :=
  match op with
  | .construct i addr size maxSize => (.none, Function.update objs i (.new addr size maxSize))
  | .sputc i addr c =>
    match (objs i).sputc addr c with
    | some buf => (.put true, Function.update objs i buf)
    | none => (.put false, objs)
  | .sputn i addr s =>
    (.count ((objs i).xsputn addr s).1, Function.update objs i ((objs i).xsputn addr s).2)
  | .buffer i => (.data (objs i).buffer, objs)
  | .clear i => (.none, Function.update objs i (objs i).clear)
  | .moveConstruct i other _ =>
    (.none, Function.update (Function.update objs i (objs other).moveTo) other (objs other).moveFrom)
  | .moveAssign i other =>
    if i = other then (.none, objs)
    else
      (.none,
        Function.update (Function.update objs i (objs other).moveTo) other (objs other).moveFrom)

/-- The same operation on strings of a bounded size: a write appends what still fits, and a move
hands the string over and leaves an empty one. -/
def Op.spec (op : Op) (strs : Objects Pistache.DynamicStreamBuf) :
    Result × Objects Pistache.DynamicStreamBuf :=
  match op with
  | .construct i _ _ maxSize => (.none, Function.update strs i ⟨[], maxSize, Nat.zero_le _⟩)
  | .sputc i _ c =>
    (.put ((strs i).data.length + 1 ≤ (strs i).maxSize), Function.update strs i ((strs i).sputn [c]))
  | .sputn i _ s =>
    (.count (min s.length (strs i).free), Function.update strs i ((strs i).sputn s))
  | .buffer i => (.data (strs i).data, strs)
  | .clear i => (.none, Function.update strs i (strs i).clear)
  | .moveConstruct i other _ =>
    (.none, Function.update (Function.update strs i (strs other)) other (strs other).clear)
  | .moveAssign i other =>
    if i = other then (.none, strs)
    else (.none, Function.update (Function.update strs i (strs other)) other (strs other).clear)

/-- A run: the results in their order, and the objects at its end. -/
def runOps {α : Type} (step : Op → Objects α → Result × Objects α) :
    List Op → Objects α → List Result × Objects α
  | [], objs => ([], objs)
  | op :: ops, objs =>
    ((step op objs).1 :: (runOps step ops (step op objs).2).1, (runOps step ops (step op objs).2).2)

/-- Every buffer holds its string. -/
def Held (objs : Objects DynamicStreamBuf) (strs : Objects Pistache.DynamicStreamBuf) : Prop :=
  ∀ i, Refines (objs i) (strs i)

variable {objs : Objects DynamicStreamBuf} {strs : Objects Pistache.DynamicStreamBuf}

theorem Held.update (h : Held objs strs) {i : Nat} {buf : DynamicStreamBuf}
    {spec : Pistache.DynamicStreamBuf} (hi : Refines buf spec) :
    Held (Function.update objs i buf) (Function.update strs i spec) := by
  intro j
  by_cases hj : j = i
  · subst hj
    rw [Function.update_self, Function.update_self]
    exact hi
  · rw [Function.update_of_ne hj, Function.update_of_ne hj]
    exact h j

theorem Held.move (h : Held objs strs) (i other : Nat) :
    Held (Function.update (Function.update objs i (objs other).moveTo) other (objs other).moveFrom)
      (Function.update (Function.update strs i (strs other)) other (strs other).clear) :=
  (h.update (DynamicStreamBuf.moveTo_refines (h other))).update
    (DynamicStreamBuf.moveFrom_refines (h other))

/-- **One operation** does the same to the buffers and to the strings. -/
theorem Op.run_refines (op : Op) (h : Held objs strs) :
    (op.run objs).1 = (op.spec strs).1 ∧ Held (op.run objs).2 (op.spec strs).2 := by
  cases op with
  | construct i addr size maxSize =>
    exact ⟨rfl, h.update (DynamicStreamBuf.new_refines addr size maxSize)⟩
  | sputc i addr c =>
    have hdata := (strs i).data_le
    rcases DynamicStreamBuf.sputc_refines addr (h i) c with ⟨hroom, buf', hput, href⟩ | ⟨hfull, hput⟩
    · have haccept : (strs i).data.length + 1 ≤ (strs i).maxSize := by
        unfold Pistache.DynamicStreamBuf.free at hroom
        omega
      simp only [Op.run, hput, Op.spec, haccept, decide_true, true_and]
      exact h.update href
    · have hrefuse : ¬(strs i).data.length + 1 ≤ (strs i).maxSize := by
        unfold Pistache.DynamicStreamBuf.free at hfull
        omega
      simp only [Op.run, hput, Op.spec, hrefuse, decide_false, Pistache.DynamicStreamBuf.sputn_refused hfull,
        Function.update_eq_self, true_and]
      exact h
  | sputn i addr s =>
    obtain ⟨hcount, href⟩ := DynamicStreamBuf.xsputn_refines addr (h i) s
    exact ⟨congrArg Result.count hcount, h.update href⟩
  | buffer i => exact ⟨congrArg Result.data (h i).buffer, h⟩
  | clear i => exact ⟨rfl, h.update (DynamicStreamBuf.clear_refines (h i))⟩
  | moveConstruct i other _ => exact ⟨rfl, h.move i other⟩
  | moveAssign i other =>
    by_cases heq : i = other
    · simp only [Op.run, Op.spec, if_pos heq, true_and]
      exact h
    · simp only [Op.run, Op.spec, if_neg heq, true_and]
      exact h.move i other

theorem runOps_refines (ops : List Op) (h : Held objs strs) :
    (runOps Op.run ops objs).1 = (runOps Op.spec ops strs).1 ∧
      Held (runOps Op.run ops objs).2 (runOps Op.spec ops strs).2 := by
  induction ops generalizing objs strs with
  | nil => exact ⟨rfl, h⟩
  | cons op ops ih =>
    obtain ⟨hresult, hheld⟩ := op.run_refines h
    obtain ⟨hresults, hend⟩ := ih hheld
    refine ⟨?_, hend⟩
    show (op.run objs).1 :: _ = (op.spec strs).1 :: _
    rw [hresult, hresults]

/-- Objects that have just been constructed, of any sizes. -/
def constructed (addr : Nat → Nat) (size maxSize : Nat → Nat) : Objects DynamicStreamBuf :=
  fun i => .new addr (size i) (maxSize i)

/-- The strings that they hold. -/
def emptyStrings (maxSize : Nat → Nat) : Objects Pistache.DynamicStreamBuf :=
  fun i => ⟨[], maxSize i, Nat.zero_le _⟩

/-- A buffer at any time: it holds no more than its size, a write fails only when it would exceed
it, and the put pointers lie in the storage. -/
structure Bounded (buf : DynamicStreamBuf) : Prop where
  length_le : buf.buffer.length ≤ buf.maxSize_
  sputc_fails : ∀ addr c, buf.sputc addr c = none ↔ buf.maxSize_ < buf.buffer.length + 1
  sputn_fails : ∀ addr s,
    (buf.xsputn addr s).1 < s.length ↔ buf.maxSize_ < buf.buffer.length + s.length
  inStorage : buf.InStorage

theorem bounded_of_refines {buf : DynamicStreamBuf} {spec : Pistache.DynamicStreamBuf}
    (h : Refines buf spec) : Bounded buf := by
  have hlength := h.inStorage.length
  have hle := h.inStorage.length_le
  have hfree := h.free
  refine ⟨hle, fun addr c => ?_, fun addr s => ?_, h.inStorage⟩
  · rcases DynamicStreamBuf.sputc_refines addr h c with ⟨hroom, buf', hput, -⟩ | ⟨hfull, hput⟩
    · rw [hput]
      exact iff_of_false (by simp) (by omega)
    · exact iff_of_true hput (by omega)
  · rw [(DynamicStreamBuf.xsputn_refines addr h s).1]
    omega

/-- **A buffer is a string of a bounded size that is appended to**: after any operations, on any
number of buffers, every result is that of the strings and every buffer holds its string. -/
theorem buffers_hold_strings (addr : Nat → Nat) (size maxSize : Nat → Nat) (ops : List Op) :
    (runOps Op.run ops (constructed addr size maxSize)).1 =
        (runOps Op.spec ops (emptyStrings maxSize)).1 ∧
      ∀ i, ((runOps Op.run ops (constructed addr size maxSize)).2 i).buffer =
          ((runOps Op.spec ops (emptyStrings maxSize)).2 i).data ∧
        Bounded ((runOps Op.run ops (constructed addr size maxSize)).2 i) := by
  have hstart : Held (constructed addr size maxSize) (emptyStrings maxSize) := fun i =>
    DynamicStreamBuf.new_refines addr (size i) (maxSize i)
  obtain ⟨hresults, hheld⟩ := runOps_refines ops hstart
  exact ⟨hresults, fun i => ⟨(hheld i).buffer, bounded_of_refines (hheld i)⟩⟩

end Pistache.Storage
