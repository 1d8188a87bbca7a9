import Pistache.Http.HeaderParsers
import Pistache.Http.MediaTokens

/-!
# Accept

The list of media ranges that `Accept::parseRaw` makes of a value.  The loop takes a `char` of
value 255 for the end of the input when it looks for a comma, and skips it as it would the comma:
the value falls into pieces at both.  What stands behind the last mark is not read if it is made
of two or more spaces.

Principal results:

* `Accept.run_reads`, `Accept.run_rejects` — what the loop makes of the pieces of a value.
* `Accept.texts_read_iff` — the lists of media range texts that are read text by text.
-/

set_option autoImplicit false

namespace Pistache.Http

namespace Accept

open Mime (MediaType)
open Mime.MediaType (fromRaw)

/-! ## Lists of texts -/

/-- A text with the spaces in front of it. -/
def spaced (r : Nat × Bytes) : Bytes := List.replicate r.1 SP ++ r.2

/-- The first text of a list, and the others with the spaces behind the comma in front of them. -/
def join (first : Bytes) (rest : List (Nat × Bytes)) : Bytes :=
  first ++ rest.flatMap fun r => comma :: spaced r

def texts (first : Bytes) (rest : List (Nat × Bytes)) : List Bytes := first :: rest.map Prod.snd

def Accepted (text : Bytes) : Prop := ∃ media, fromRaw text [] = .ok media

/-- The list of texts is read: media type by media type if all texts are accepted, and not at all
if one is rejected or if a comma ends the value. -/
structure ReadsTexts (first : Bytes) (rest : List (Nat × Bytes)) (behind : Bytes) : Prop where
  listed : ∀ ms,
    List.Forall₂ (fun text media => fromRaw text [] = .ok media) (texts first rest) ms →
    parseRaw (join first rest) behind = .ok ms
  rejected : (∃ text ∈ texts first rest, ¬ Accepted text) →
    ∃ e, parseRaw (join first rest) behind = .error e
  ended : (join first rest).getLast? = some comma →
    ∃ e, parseRaw (join first rest) behind = .error e

/-! ## Pieces -/

/-- Where the loop ends a media range. -/
def isMark (c : UInt8) : Bool := c = comma ∨ c = eofChar

/-- The first piece of a value and the other ones, and the media types that are read. -/
inductive Reads : Bytes → List Bytes → List MediaType → Prop where
  | last {t : Bytes} {m : MediaType} (accepted : fromRaw t [] = .ok m) : Reads t [] [m]
  | blanks {t : Bytes} {m : MediaType} {n : Nat} (accepted : fromRaw t [] = .ok m)
      (two : 2 ≤ n) : Reads t [List.replicate n SP] [m]
  | cons {t r : Bytes} {rs : List Bytes} {m : MediaType} {ms : List MediaType}
      (accepted : fromRaw t [] = .ok m) (h : Reads (r.dropWhile (· = SP)) rs ms) :
      Reads t (r :: rs) (m :: ms)

/-- The pieces of a value are accepted, but for spaces at the end. -/
def Passes (value : Bytes) : Prop :=
  ∃ t ts ms, value.splitOnP isMark = t :: ts ∧ Reads t ts ms

/-- The values that are read as they should be.  Where a text has a byte 255 in it, one of the texts
and one of the pieces of the value are rejected anyway; where no text has, but the last one is
empty behind two or more spaces, one of the others is rejected. -/
structure Sound (first : Bytes) (rest : List (Nat × Bytes)) : Prop where
  marks : eofChar ∈ join first rest →
    (∃ text ∈ texts first rest, ¬ Accepted text) ∧ ¬ Passes (join first rest)
  blanks : eofChar ∉ join first rest → ∀ init n, rest = init ++ [(n, [])] → 2 ≤ n →
    ∃ text ∈ texts first init, ¬ Accepted text

/-! ## Accepted texts -/

theorem isMark_plain {c : UInt8} (h : isMark c = false) : c ≠ comma ∧ c ≠ eofChar := by
  rw [isMark, decide_eq_false_iff_not, not_or] at h
  exact h

theorem isMark_cases {c : UInt8} (h : isMark c = true) : c = comma ∨ c = eofChar :=
  decide_eq_true_iff.mp h

theorem typeChar_plain {c : UInt8} (h : Mime.MediaType.isTypeChar c = true) :
    c ≠ comma ∧ c ≠ eofChar ∧ c ≠ 0 ∧ c ≠ SP := by
  refine ⟨?_, ?_, ?_, ?_⟩
  · rintro rfl
    exact absurd h (by decide)
  · rintro rfl
    exact absurd h (by decide)
  · rintro rfl
    exact absurd h (by decide)
  · rintro rfl
    exact absurd h (by decide)

/-- The first character of an accepted text is a letter or a star, and the second one is so too or
is a slash. -/
theorem Accepted.begins {t : Bytes} (h : Accepted t) :
    ∃ c d v, t = c :: d :: v ∧ Mime.MediaType.isTypeChar c = true ∧
      (Mime.MediaType.isTypeChar d = true ∨ d = Mime.MediaType.slash) := by
  obtain ⟨media, parsed⟩ := h
  obtain ⟨p, rest, rfl, letters, chars⟩ := Mime.MediaType.parseRaw_type parsed
  match p with
  | [] => exact absurd rfl letters
  | [c] => exact ⟨c, Mime.MediaType.slash, rest, rfl, chars c (by simp), .inr rfl⟩
  | c :: d :: p =>
    refine ⟨c, d, p ++ Mime.MediaType.slash :: rest, rfl, chars c (by simp), .inl ?_⟩
    exact chars d (by simp)

theorem not_accepted_nil : ¬ Accepted [] := by
  intro h
  obtain ⟨c, d, v, eq, -⟩ := h.begins
  cases eq

/-! ## The pieces of a value -/

/-- The first piece is what stands in front of the first mark. -/
theorem pieces_cases {value t : Bytes} {ts : List Bytes} (h : value.splitOnP isMark = t :: ts) :
    (∀ c ∈ t, isMark c = false) ∧ (value = t ∧ ts = [] ∨
      ∃ c u, isMark c = true ∧ value = t ++ c :: u ∧ u.splitOnP isMark = ts) := by
  induction value generalizing t with
  | nil =>
    rw [List.splitOnP_nil] at h
    cases h
    exact ⟨by simp, .inl ⟨rfl, rfl⟩⟩
  | cons x value ih =>
    rw [List.splitOnP_cons_eq_if_modifyHead] at h
    cases mark : isMark x with
    | true =>
      rw [if_pos mark] at h
      cases h
      exact ⟨by simp, .inr ⟨x, value, mark, rfl, rfl⟩⟩
    | false =>
      rw [mark, if_neg Bool.false_ne_true] at h
      obtain ⟨t', ts', split⟩ := List.exists_cons_of_ne_nil (List.splitOnP_ne_nil isMark value)
      rw [split, List.modifyHead_cons] at h
      cases h
      obtain ⟨plain, shape⟩ := ih split
      refine ⟨List.forall_mem_cons.mpr ⟨mark, plain⟩, ?_⟩
      rcases shape with ⟨rfl, rfl⟩ | ⟨c, u, hc, rfl, rest⟩
      · exact .inl ⟨rfl, rfl⟩
      · exact .inr ⟨c, u, hc, rfl, rest⟩

/-- Spaces at the beginning of a value are at the beginning of its first piece. -/
theorem pieces_dropWhile {value t : Bytes} {ts : List Bytes}
    (h : value.splitOnP isMark = t :: ts) :
    (value.dropWhile (· = SP)).splitOnP isMark = t.dropWhile (· = SP) :: ts := by
  obtain ⟨plain, shape⟩ := pieces_cases h
  have left : ∀ c ∈ t.dropWhile (· = SP), isMark c = false := fun c hc =>
    plain c ((List.dropWhile_suffix _).subset hc)
  rcases shape with ⟨rfl, rfl⟩ | ⟨c, u, hc, rfl, rest⟩
  · exact List.splitOnP_eq_singleton left
  · have stops : (c :: u).dropWhile (· = SP) = c :: u := by
      rw [List.dropWhile_cons, if_neg]
      rcases isMark_cases hc with rfl | rfl
      · decide
      · decide
    have cut : (t ++ c :: u).dropWhile (· = SP) = t.dropWhile (· = SP) ++ c :: u := by
      rw [List.dropWhile_append]
      split
      · next empty =>
        rw [List.isEmpty_iff.mp empty, stops]
        rfl
      · rfl
    rw [cut, List.splitOnP_append_cons_of_forall_mem left c hc, rest]

/-! ## The loop -/

/-- The loop from a state on. -/
def loop (behind : Bytes) (acc : List MediaType) (cursor : Bytes) : Except Exn (List MediaType) :=
  Loop.run (body behind) (fun mediaRange_ _ => .ok mediaRange_) acc cursor

/-- A media range ends in front of the next mark. -/
theorem mimeToken_piece {t rest : Bytes} (hne : t ≠ []) (plain : ∀ c ∈ t, isMark c = false)
    (hrest : rest = [] ∨ ∃ c u, isMark c = true ∧ rest = c :: u) :
    mimeToken (t ++ rest) = (t, rest) := by
  induction t with
  | nil => exact absurd rfl hne
  | cons c t ih =>
    cases t with
    | nil =>
      have stop : next ([c] ++ rest) = none ∨ next ([c] ++ rest) = some comma := by
        rcases hrest with rfl | ⟨d, u, hd, rfl⟩
        · exact .inl rfl
        · rcases isMark_cases hd with rfl | rfl
          · exact .inr rfl
          · exact .inl rfl
      show mimeToken (c :: rest) = _
      rw [mimeToken]
      exact if_pos stop
    | cons d t =>
      obtain ⟨hcomma, heof⟩ := isMark_plain (plain d (by simp))
      have go : ¬ (next (c :: d :: (t ++ rest)) = none ∨
          next (c :: d :: (t ++ rest)) = some comma) := by
        simp [next, hcomma, heof]
      have later := ih (List.cons_ne_nil d t) (fun e he => plain e (List.mem_cons_of_mem c he))
      show mimeToken (c :: d :: (t ++ rest)) = _
      rw [mimeToken, if_neg go]
      show (c :: (mimeToken (d :: t ++ rest)).1, (mimeToken (d :: t ++ rest)).2) = _
      rw [later]

/-- A media range that begins at the end or at a mark is rejected. -/
theorem mimeToken_mark {s : Bytes} (behind : Bytes)
    (h : s = [] ∨ ∃ c u, isMark c = true ∧ s = c :: u) :
    ∃ e, fromRaw (mimeToken s).1 behind = .error e := by
  cases parsed : fromRaw (mimeToken s).1 behind with
  | error e => exact ⟨e, rfl⟩
  | ok m =>
    obtain ⟨p, rest, begins, letters, chars⟩ := Mime.MediaType.parseRaw_type parsed
    exfalso
    rcases h with rfl | ⟨c, u, hc, rfl⟩
    · cases p with
      | nil => exact letters rfl
      | cons d p => cases begins
    · have first : (mimeToken (c :: u)).1.head? = some c := by
        unfold mimeToken
        split
        · rfl
        · rfl
      cases p with
      | nil => exact letters rfl
      | cons d p =>
        rw [begins] at first
        cases first
        obtain ⟨hcomma, heof, -⟩ := typeChar_plain (chars c (by simp))
        rcases isMark_cases hc with rfl | rfl
        · exact hcomma rfl
        · exact heof rfl

/-- One pass of the loop, over the piece `t`. -/
theorem run_piece {behind t rest : Bytes} (hb : Header.Stops behind) (hne : t ≠ [])
    (plain : ∀ c ∈ t, isMark c = false)
    (hrest : rest = [] ∨ ∃ c u, isMark c = true ∧ rest = c :: u) (acc : List MediaType) :
    loop behind acc (t ++ rest) =
      match fromRaw t [] with
      | .error e => .error e
      | .ok media =>
        if rest = [] then .ok (acc ++ [media])
        else
          match separator rest with
          | .error e => .error e
          | .ok cursor =>
            if cursor = [] then .ok (acc ++ [media]) else loop behind (acc ++ [media]) cursor := by
  have stops : Header.Stops (rest ++ behind) := by
    rcases hrest with rfl | ⟨c, u, hc, rfl⟩
    · exact hb
    · rcases isMark_cases hc with rfl | rfl
      · exact .of_head rfl (.inr (.inr (.inl rfl)))
      · exact .of_head rfl (.inr (.inr (.inr rfl)))
  have parsed : Mime.MediaType.parseRaw t (rest ++ behind) = fromRaw t [] :=
    Mime.MediaType.parseRaw_behind stops t
  unfold loop
  rw [Loop.run_eq (body_shrinks behind)]
  simp only [body, mimeToken_piece hne plain hrest, parsed]
  cases fromRaw t [] with
  | error e => rfl
  | ok media =>
    dsimp only
    rcases Decidable.em (rest = []) with ends | more
    · rw [if_pos ends, if_pos ends]
    · rw [if_neg more, if_neg more]
      cases separator rest with
      | error e => rfl
      | ok cursor =>
        dsimp only
        rcases Decidable.em (cursor = []) with ends | more
        · rw [if_pos ends, if_pos ends]
        · rw [if_neg more, if_neg more]

/-- A pass that begins at the end or at a mark throws. -/
theorem run_mark {behind s : Bytes} (h : s = [] ∨ ∃ c u, isMark c = true ∧ s = c :: u)
    (acc : List MediaType) : ∃ e, loop behind acc s = .error e := by
  obtain ⟨e, rejected⟩ := mimeToken_mark ((mimeToken s).2 ++ behind) h
  have parsed : Mime.MediaType.parseRaw (mimeToken s).1 ((mimeToken s).2 ++ behind) = .error e :=
    rejected
  refine ⟨e, ?_⟩
  unfold loop
  rw [Loop.run_eq (body_shrinks behind)]
  simp only [body]
  rw [parsed]

/-- Spaces and an accepted text behind a mark are read. -/
theorem separator_reads {r : Bytes} (c : UInt8) (tail : Bytes)
    (h : Accepted (r.dropWhile (· = SP))) :
    separator (c :: (r ++ tail)) = .ok ((r ++ tail).dropWhile (· = SP)) := by
  have second : ∃ x d v, r = x :: d :: v ∧ d ≠ eofChar ∧ d ≠ comma ∧ d ≠ 0 := by
    obtain ⟨a, b, w, begins, ha, hb⟩ := h.begins
    have hb' : b ≠ comma ∧ b ≠ eofChar ∧ b ≠ 0 := by
      rcases hb with hb | rfl
      · have := typeChar_plain hb
        exact ⟨this.1, this.2.1, this.2.2.1⟩
      · decide
    have ha' := typeChar_plain ha
    match r with
    | [] => cases begins
    | x :: r =>
      rw [List.dropWhile_cons] at begins
      split at begins
      · match r with
        | [] => cases begins
        | y :: r =>
          rw [List.dropWhile_cons] at begins
          split at begins
          · next blank =>
            obtain rfl : y = SP := by simpa using blank
            exact ⟨x, SP, r, rfl, by decide, by decide, by decide⟩
          · cases begins
            exact ⟨x, a, _, rfl, ha'.2.1, ha'.1, ha'.2.2.1⟩
      · cases begins
        exact ⟨a, b, w, rfl, hb'.2.1, hb'.1, hb'.2.2⟩
  obtain ⟨x, d, v, rfl, heof, hcomma, hzero⟩ := second
  have follows : next (x :: d :: v ++ tail) = some d := by
    simp [next, heof]
  have moved : advance 1 (c :: (x :: d :: v ++ tail)) = some (x :: d :: v ++ tail) := by
    simp [advance]
  unfold separator
  rw [moved]
  dsimp only
  rw [follows, if_neg]
  simp [hcomma, hzero]

/-- What the separator leaves. -/
theorem separator_ok {c : UInt8} {u cursor : Bytes} (h : separator (c :: u) = .ok cursor) :
    cursor = u.dropWhile (· = SP) ∧ 2 ≤ u.length := by
  have moved : advance 1 (c :: u) = some u := by
    simp [advance]
  unfold separator at h
  rw [moved] at h
  dsimp only at h
  split at h
  · cases h
  · next go =>
    cases h
    refine ⟨rfl, ?_⟩
    match u with
    | [] => exact absurd (.inl rfl) go
    | [d] => exact absurd (.inl rfl) go
    | d :: e :: u => simp

theorem Reads.accepted {t : Bytes} {ts : List Bytes} {ms : List MediaType} (h : Reads t ts ms) :
    Accepted t := by
  cases h with
  | last accepted => exact ⟨_, accepted⟩
  | blanks accepted two => exact ⟨_, accepted⟩
  | cons accepted h => exact ⟨_, accepted⟩

/-- **The pieces that are accepted are read.** -/
theorem run_reads {behind : Bytes} (hb : Header.Stops behind) {t : Bytes} {ts : List Bytes}
    {ms : List MediaType} (h : Reads t ts ms) {s : Bytes} (hs : s.splitOnP isMark = t :: ts)
    (acc : List MediaType) : loop behind acc s = .ok (acc ++ ms) := by
  have hne : t ≠ [] := by
    rintro rfl
    exact not_accepted_nil h.accepted
  obtain ⟨plain, shape⟩ := pieces_cases hs
  induction h generalizing s acc with
  | @last t m accepted =>
    rcases shape with ⟨rfl, -⟩ | ⟨c, u, -, -, none⟩
    · have pass := run_piece hb hne plain (.inl rfl) acc
      rw [List.append_nil] at pass
      rw [pass, accepted]
      rfl
    · exact absurd none (List.splitOnP_ne_nil isMark u)
  | @blanks t m n accepted two =>
    rcases shape with ⟨-, none⟩ | ⟨c, u, hc, rfl, rest⟩
    · cases none
    · obtain ⟨-, ⟨rfl, -⟩ | ⟨d, v, -, -, none⟩⟩ := pieces_cases rest
      · have left : (List.replicate n SP).dropWhile (· = SP) = [] := by
          simp
        have separated : separator (c :: List.replicate n SP) = .ok [] := by
          obtain ⟨k, rfl⟩ := Nat.exists_eq_add_of_le' two
          unfold separator
          rw [← left]
          rfl
        rw [run_piece hb hne plain (.inr ⟨c, _, hc, rfl⟩), accepted, separated]
        rfl
      · exact absurd none (List.splitOnP_ne_nil isMark v)
  | @cons t r rs m ms accepted h ih =>
    rcases shape with ⟨-, none⟩ | ⟨c, u, hc, rfl, rest⟩
    · cases none
    · have next := pieces_dropWhile rest
      have later : r.dropWhile (· = SP) ≠ [] := by
        intro empty
        rw [empty] at h
        exact not_accepted_nil h.accepted
      obtain ⟨nextPlain, nextShape⟩ := pieces_cases next
      have more : u.dropWhile (· = SP) ≠ [] := by
        intro empty
        rw [empty, List.splitOnP_nil] at next
        exact later (List.cons.inj next).1.symm
      have separated : separator (c :: u) = .ok (u.dropWhile (· = SP)) := by
        obtain ⟨-, ⟨rfl, -⟩ | ⟨d, v, -, rfl, -⟩⟩ := pieces_cases rest
        · have alone := separator_reads c [] h.accepted
          rwa [List.append_nil] at alone
        · exact separator_reads c (d :: v) h.accepted
      rw [run_piece hb hne plain (.inr ⟨c, u, hc, rfl⟩), accepted, separated]
      dsimp only
      rw [if_neg (List.cons_ne_nil c u), if_neg more,
        ih next (acc ++ [m]) later nextPlain nextShape, List.append_assoc]
      rfl

/-- **Pieces that are not accepted are not read.** -/
theorem run_rejects {behind : Bytes} (hb : Header.Stops behind) {s t : Bytes} {ts : List Bytes}
    (hs : s.splitOnP isMark = t :: ts) (h : ∀ ms, ¬ Reads t ts ms) (acc : List MediaType) :
    ∃ e, loop behind acc s = .error e := by
  induction hn : s.length using Nat.strong_induction_on generalizing s t ts acc with
  | _ n ih =>
    obtain ⟨plain, shape⟩ := pieces_cases hs
    have ends : ∃ rest, s = t ++ rest ∧ (rest = [] ∨ ∃ c u, isMark c = true ∧ rest = c :: u) := by
      rcases shape with ⟨rfl, -⟩ | ⟨c, u, hc, rfl, -⟩
      · exact ⟨[], by simp, .inl rfl⟩
      · exact ⟨c :: u, rfl, .inr ⟨c, u, hc, rfl⟩⟩
    by_cases hne : t = []
    · subst hne
      obtain ⟨rest, rfl, hrest⟩ := ends
      exact run_mark hrest acc
    cases parsed : fromRaw t [] with
    | error e =>
      obtain ⟨rest, rfl, hrest⟩ := ends
      exact ⟨e, by rw [run_piece hb hne plain hrest, parsed]⟩
    | ok m =>
      rcases shape with ⟨rfl, rfl⟩ | ⟨c, u, hc, rfl, rest⟩
      · exact absurd (.last parsed) (h [m])
      rw [run_piece hb hne plain (.inr ⟨c, u, hc, rfl⟩), parsed]
      dsimp only
      rw [if_neg (List.cons_ne_nil c u)]
      cases separated : separator (c :: u) with
      | error e => exact ⟨e, rfl⟩
      | ok cursor =>
        obtain ⟨rfl, two⟩ := separator_ok separated
        dsimp only
        by_cases blank : u.dropWhile (· = SP) = []
        · -- only spaces are left: the value would have been read
          have all : ∀ d ∈ u, d = SP := by simpa [List.dropWhile_eq_nil_iff] using blank
          have spaces : u = List.replicate u.length SP := List.eq_replicate_of_mem all
          have single : u.splitOnP isMark = [u] :=
            List.splitOnP_eq_singleton fun d hd => by
              rw [all d hd]
              decide
          rw [← rest, single, spaces] at h
          exact absurd (.blanks parsed two) (h [m])
        · rw [if_neg blank]
          obtain ⟨r, rs, pieces⟩ := List.exists_cons_of_ne_nil (List.splitOnP_ne_nil isMark u)
          rw [← rest, pieces] at h
          refine ih _ ?_ (pieces_dropWhile pieces) (fun ms reads => h _ (.cons parsed reads))
            (acc ++ [m]) rfl
          have := (List.dropWhile_suffix (l := u) (· = SP)).length_le
          rw [← hn, List.length_append, List.length_cons]
          omega

/-! ## Lists of texts and their pieces -/

theorem join_cons (first : Bytes) (r : Nat × Bytes) (rest : List (Nat × Bytes)) :
    join first (r :: rest) = first ++ comma :: join (spaced r) rest := by
  simp [join]

/-- A byte 255 of the value is in one of the texts. -/
theorem mem_join {first : Bytes} {rest : List (Nat × Bytes)} (h : eofChar ∈ join first rest) :
    ∃ text ∈ texts first rest, eofChar ∈ text := by
  rcases List.mem_append.mp h with head | tail
  · exact ⟨first, List.mem_cons_self, head⟩
  · obtain ⟨r, hr, inside⟩ := List.mem_flatMap.mp tail
    rcases List.mem_cons.mp inside with same | inside
    · cases same
    · rcases List.mem_append.mp inside with blank | inside
      · cases (List.mem_replicate.mp blank).2
      · exact ⟨r.2, List.mem_cons_of_mem _ (List.mem_map_of_mem hr), inside⟩

/-- Without a byte 255 the pieces of a value are its texts, with the spaces in front of them. -/
theorem pieces_join {first : Bytes} {rest : List (Nat × Bytes)}
    (commas : ∀ text ∈ texts first rest, comma ∉ text) (plain : eofChar ∉ join first rest) :
    (join first rest).splitOnP isMark =
      first :: rest.map spaced := by
  induction rest generalizing first with
  | nil =>
    rw [join, List.flatMap_nil, List.append_nil] at plain ⊢
    refine List.splitOnP_eq_singleton fun c hc => ?_
    rw [isMark, decide_eq_false_iff_not]
    rintro (rfl | rfl)
    · exact commas first List.mem_cons_self hc
    · exact plain hc
  | cons r rest ih =>
    rw [join_cons] at plain ⊢
    have head : ∀ c ∈ first, isMark c = false := by
      intro c hc
      rw [isMark, decide_eq_false_iff_not]
      rintro (rfl | rfl)
      · exact commas first List.mem_cons_self hc
      · exact plain (List.mem_append_left _ hc)
    have later : ∀ text ∈ texts (spaced r) rest, comma ∉ text := by
      intro text htext hin
      rcases List.mem_cons.mp htext with rfl | htext
      · rcases List.mem_append.mp hin with blank | hin
        · cases (List.mem_replicate.mp blank).2
        · exact commas r.2 (by simp [texts]) hin
      · exact commas text (List.mem_cons_of_mem _ (List.mem_cons_of_mem _ htext)) hin
    rw [List.splitOnP_append_cons_of_forall_mem head comma (by decide),
      ih later fun h => plain (List.mem_append_right _ (List.mem_cons_of_mem _ h))]
    rfl

theorem dropWhile_spaced {r : Nat × Bytes} (h : r.2.head? ≠ some SP) :
    (spaced r).dropWhile (· = SP) = r.2 := by
  obtain ⟨n, text⟩ := r
  have blanks : ∀ c ∈ List.replicate n SP, decide (c = SP) = true := by
    intro c hc
    rw [(List.mem_replicate.mp hc).2]
    rfl
  rw [spaced, List.dropWhile_append_of_pos blanks]
  cases text with
  | nil => rfl
  | cons c text =>
    rw [List.dropWhile_cons, if_neg]
    intro blank
    exact h (congrArg some (of_decide_eq_true blank))

/-- Texts that are accepted are read. -/
theorem reads_texts {first : Bytes} {rest : List (Nat × Bytes)} {ms : List MediaType}
    (heads : ∀ text ∈ texts first rest, text.head? ≠ some SP)
    (h : List.Forall₂ (fun text media => fromRaw text [] = .ok media) (texts first rest) ms) :
    Reads first (rest.map spaced) ms := by
  induction rest generalizing first ms with
  | nil =>
    cases h with
    | cons accepted none =>
      cases none
      exact .last accepted
  | cons r rest ih =>
    cases h with
    | cons accepted others =>
      refine .cons accepted ?_
      rw [dropWhile_spaced (heads r.2 (by simp [texts]))]
      exact ih (fun text htext => heads text (List.mem_cons_of_mem _ htext)) others

/-- With spaces behind the last comma they are read too. -/
theorem reads_blanks {first : Bytes} {init : List (Nat × Bytes)} {n : Nat} (two : 2 ≤ n)
    (heads : ∀ text ∈ texts first init, text.head? ≠ some SP)
    (accepted : ∀ text ∈ texts first init, Accepted text) :
    ∃ ms, Reads first ((init ++ [(n, [])]).map spaced) ms := by
  induction init generalizing first with
  | nil =>
    obtain ⟨m, hm⟩ := accepted first List.mem_cons_self
    refine ⟨[m], ?_⟩
    show Reads first [List.replicate n SP ++ []] [m]
    rw [List.append_nil]
    exact .blanks hm two
  | cons r init ih =>
    obtain ⟨m, hm⟩ := accepted first List.mem_cons_self
    obtain ⟨ms, reads⟩ := ih (fun text htext => heads text (List.mem_cons_of_mem _ htext))
      fun text htext => accepted text (List.mem_cons_of_mem _ htext)
    refine ⟨m :: ms, .cons hm ?_⟩
    rw [dropWhile_spaced (heads r.2 (by simp [texts]))]
    exact reads

/-- What is read are accepted texts, or such texts in front of spaces. -/
theorem accepted_of_reads {first : Bytes} {rest : List (Nat × Bytes)} {ms : List MediaType}
    (heads : ∀ text ∈ texts first rest, text.head? ≠ some SP)
    (h : Reads first (rest.map spaced) ms) :
    (∀ text ∈ texts first rest, Accepted text) ∨
      ∃ init n, rest = init ++ [(n, [])] ∧ 2 ≤ n ∧ ∀ text ∈ texts first init, Accepted text := by
  induction rest generalizing first ms with
  | nil =>
    refine .inl fun text htext => ?_
    rw [List.mem_singleton.mp htext]
    exact h.accepted
  | cons r rest ih =>
    have head := heads r.2 (by simp [texts])
    generalize pieces : (r :: rest).map spaced = l at h
    cases h with
    | last _ => cases pieces
    | @blanks _ m n accepted two =>
      obtain ⟨blank, none⟩ := List.cons.inj pieces
      obtain rfl := List.map_eq_nil_iff.mp none
      have empty : r.2 = [] := by
        have := dropWhile_spaced head
        rw [blank] at this
        rw [← this]
        simp
      have count : r.1 = n := by
        have := congrArg List.length blank
        simpa [spaced, empty] using this
      refine .inr ⟨[], n, ?_, two, ?_⟩
      · rw [← count, ← empty]
        rfl
      · intro text htext
        rw [List.mem_singleton.mp htext]
        exact ⟨m, accepted⟩
    | @cons _ _ _ m _ accepted h =>
      obtain ⟨rfl, rfl⟩ := List.cons.inj pieces
      rw [dropWhile_spaced head] at h
      rcases ih (fun text htext => heads text (List.mem_cons_of_mem _ htext)) h with
        all | ⟨init, n, rfl, two, all⟩
      · exact .inl (List.forall_mem_cons.mpr ⟨⟨m, accepted⟩, all⟩)
      · exact .inr ⟨r :: init, n, rfl, two, List.forall_mem_cons.mpr ⟨⟨m, accepted⟩, all⟩⟩

/-- No byte 255 is in a text that has been read. -/
theorem reads_plain {t : Bytes} {ts : List Bytes} {ms : List MediaType} (h : Reads t ts ms)
    (plain : ∀ r ∈ t :: ts, eofChar ∉ r) : ∀ m ∈ ms, eofChar ∉ m.raw_ := by
  induction h with
  | last accepted =>
    intro m hm
    rw [List.mem_singleton.mp hm, Mime.MediaType.parseRaw_raw accepted]
    exact plain _ List.mem_cons_self
  | blanks accepted two =>
    intro m hm
    rw [List.mem_singleton.mp hm, Mime.MediaType.parseRaw_raw accepted]
    exact plain _ List.mem_cons_self
  | @cons t r rs m ms accepted h ih =>
    obtain ⟨head, next, later⟩ : eofChar ∉ t ∧ eofChar ∉ r ∧ ∀ x ∈ rs, eofChar ∉ x := by
      simpa using plain
    refine List.forall_mem_cons.mpr ⟨?_, ih (List.forall_mem_cons.mpr ⟨?_, later⟩)⟩
    · rw [Mime.MediaType.parseRaw_raw accepted]
      exact head
    · exact fun hin => next ((List.dropWhile_suffix _).subset hin)

theorem pieces_plain {value : Bytes} : ∀ r ∈ value.splitOnP isMark, eofChar ∉ r := by
  induction value with
  | nil => simp [List.splitOnP_nil]
  | cons x value ih =>
    rw [List.splitOnP_cons_eq_if_modifyHead]
    split
    · exact List.forall_mem_cons.mpr ⟨by simp, ih⟩
    · next plain =>
      obtain ⟨t, ts, split⟩ := List.exists_cons_of_ne_nil (List.splitOnP_ne_nil isMark value)
      rw [split] at ih ⊢
      obtain ⟨head, later⟩ := List.forall_mem_cons.mp ih
      refine List.forall_mem_cons.mpr ⟨?_, later⟩
      intro hin
      rcases List.mem_cons.mp hin with rfl | hin
      · exact plain (by decide)
      · exact head hin

/-- A list of texts does not end with a comma if none of them is empty. -/
theorem join_ends {first : Bytes} {rest : List (Nat × Bytes)}
    (commas : ∀ text ∈ texts first rest, comma ∉ text ∧ text ≠ []) :
    (join first rest).getLast? ≠ some comma := by
  induction rest generalizing first with
  | nil =>
    intro last
    rw [join, List.flatMap_nil, List.append_nil] at last
    exact (commas first List.mem_cons_self).1 (List.mem_of_getLast? last)
  | cons r rest ih =>
    obtain ⟨noComma, some⟩ := commas r.2 (by simp [texts])
    have spacedTexts : ∀ text ∈ texts (spaced r) rest, comma ∉ text ∧ text ≠ [] := by
      intro text htext
      rcases List.mem_cons.mp htext with rfl | htext
      · refine ⟨fun hin => ?_, List.append_ne_nil_of_right_ne_nil _ some⟩
        rcases List.mem_append.mp hin with blank | hin
        · cases (List.mem_replicate.mp blank).2
        · exact noComma hin
      · exact commas text (List.mem_cons_of_mem _ (List.mem_cons_of_mem _ htext))
    have more : join (spaced r) rest ≠ [] :=
      List.append_ne_nil_of_left_ne_nil (spacedTexts _ List.mem_cons_self).2 _
    have last : (join first (r :: rest)).getLast? = (join (spaced r) rest).getLast? := by
      rw [join_cons, List.getLast?_append]
      obtain ⟨d, v, eq⟩ := List.exists_cons_of_ne_nil more
      rw [eq, List.getLast?_cons_cons, List.getLast?_eq_some_getLast (List.cons_ne_nil d v)]
      rfl
    rw [last]
    exact ih spacedTexts

/-- The media types of accepted texts. -/
theorem accepted_iff {l : List Bytes} : (∀ text ∈ l, Accepted text) ↔
    ∃ ms, List.Forall₂ (fun text media => fromRaw text [] = .ok media) l ms := by
  constructor
  · intro h
    induction l with
    | nil => exact ⟨[], .nil⟩
    | cons text l ih =>
      obtain ⟨m, hm⟩ := h text List.mem_cons_self
      obtain ⟨ms, hms⟩ := ih fun t ht => h t (List.mem_cons_of_mem _ ht)
      exact ⟨m :: ms, .cons hm hms⟩
  · rintro ⟨ms, h⟩
    induction h with
    | nil => simp
    | cons accepted _ ih => exact List.forall_mem_cons.mpr ⟨⟨_, accepted⟩, ih⟩

theorem medias_raw {l : List Bytes} {ms : List MediaType}
    (h : List.Forall₂ (fun text media => fromRaw text [] = .ok media) l ms) :
    ms.map (·.raw_) = l := by
  induction h with
  | nil => rfl
  | cons accepted _ ih => rw [List.map_cons, ih, Mime.MediaType.parseRaw_raw accepted]

/-- A value is read if its pieces pass, and throws if they do not. -/
theorem parseRaw_pieces (behind value : Bytes) :
    (∃ t ts ms, value.splitOnP isMark = t :: ts ∧ Reads t ts ms ∧
      parseRaw value (0 :: behind) = .ok ms) ∨
    ¬ Passes value ∧ ∃ e, parseRaw value (0 :: behind) = .error e := by
  have stops : Header.Stops (0 :: behind) := .of_head rfl (.inl rfl)
  obtain ⟨t, ts, pieces⟩ := List.exists_cons_of_ne_nil (List.splitOnP_ne_nil isMark value)
  by_cases reads : ∃ ms, Reads t ts ms
  · obtain ⟨ms, reads⟩ := reads
    exact .inl ⟨t, ts, ms, pieces, reads, run_reads stops reads pieces []⟩
  · refine .inr ⟨?_, run_rejects stops pieces (fun ms h => reads ⟨ms, h⟩) []⟩
    rintro ⟨t', ts', ms, pieces', h⟩
    obtain ⟨rfl, rfl⟩ := List.cons.inj (pieces.symm.trans pieces')
    exact reads ⟨ms, h⟩

/-- **When the texts of a list are read**: for any list of texts without a comma that do not begin
with a space. -/
theorem texts_read_iff {first behind : Bytes} {rest : List (Nat × Bytes)}
    (htexts : ∀ text ∈ texts first rest, comma ∉ text ∧ text.head? ≠ some SP) :
    ReadsTexts first rest (0 :: behind) ↔ Sound first rest := by
  have stops : Header.Stops (0 :: behind) := .of_head rfl (.inl rfl)
  have heads : ∀ text ∈ texts first rest, text.head? ≠ some SP := fun text h => (htexts text h).2
  have pieces (plain : eofChar ∉ join first rest) :=
    pieces_join (fun text h => (htexts text h).1) plain
  have decided := parseRaw_pieces behind (join first rest)
  constructor
  · intro reads
    have all_or : (∀ text ∈ texts first rest, Accepted text) ∨
        ∃ text ∈ texts first rest, ¬ Accepted text := by
      by_cases all : ∀ text ∈ texts first rest, Accepted text
      · exact .inl all
      · rw [not_forall] at all
        obtain ⟨text, bad⟩ := all
        obtain ⟨htext, rejected⟩ := Classical.not_imp.mp bad
        exact .inr ⟨text, htext, rejected⟩
    refine ⟨?_, ?_⟩
    · intro mark
      rcases all_or with all | rejected
      · -- the media types keep their texts, one of which has a byte 255 in it
        obtain ⟨ms, listed⟩ := accepted_iff.mp all
        have ok := reads.listed ms listed
        rcases decided with ⟨t, ts, ms', split, read, ok'⟩ | ⟨-, e, error⟩
        · obtain rfl := Except.ok.inj (ok.symm.trans ok')
          obtain ⟨text, htext, hmark⟩ := mem_join mark
          rw [← medias_raw listed] at htext
          obtain ⟨m, hm, rfl⟩ := List.mem_map.mp htext
          exact absurd hmark (reads_plain read (split ▸ pieces_plain) m hm)
        · rw [ok] at error
          cases error
      · refine ⟨rejected, ?_⟩
        rintro ⟨t, ts, ms, split, read⟩
        obtain ⟨e, error⟩ := reads.rejected rejected
        have ok : parseRaw (join first rest) (0 :: behind) = .ok ms := run_reads stops read split []
        rw [ok] at error
        cases error
    · intro plain init n last two
      by_contra none
      have all : ∀ text ∈ texts first init, Accepted text := by
        intro text htext
        by_contra rejected
        exact none ⟨text, htext, rejected⟩
      subst last
      obtain ⟨ms, read⟩ := reads_blanks two
        (fun text htext => heads text (by
          simp only [texts, List.map_append, List.mem_cons, List.mem_append] at htext ⊢
          exact htext.imp_right .inl)) all
      obtain ⟨e, error⟩ := reads.rejected ⟨[], by simp [texts], not_accepted_nil⟩
      have ok : parseRaw (join first (init ++ [(n, [])])) (0 :: behind) = .ok ms :=
        run_reads stops read (pieces plain) []
      rw [ok] at error
      cases error
  · intro sound
    have throws : (∃ text ∈ texts first rest, ¬ Accepted text) →
        ∃ e, parseRaw (join first rest) (0 :: behind) = .error e := by
      rintro ⟨text, htext, rejected⟩
      rcases decided with ⟨t, ts, ms, split, read, -⟩ | ⟨-, error⟩
      · by_cases mark : eofChar ∈ join first rest
        · exact absurd ⟨t, ts, ms, split, read⟩ (sound.marks mark).2
        · rw [pieces mark] at split
          obtain ⟨rfl, rfl⟩ := List.cons.inj split
          rcases accepted_of_reads heads read with all | ⟨init, n, last, two, all⟩
          · exact absurd (all text htext) rejected
          · obtain ⟨other, hother, bad⟩ := sound.blanks mark init n last two
            exact absurd (all other hother) bad
      · exact error
    refine ⟨?_, throws, ?_⟩
    · intro ms listed
      have plain : eofChar ∉ join first rest := by
        intro mark
        obtain ⟨text, htext, rejected⟩ := (sound.marks mark).1
        exact rejected (accepted_iff.mpr ⟨ms, listed⟩ text htext)
      exact run_reads stops (reads_texts heads listed) (pieces plain) []
    · intro last
      refine throws ?_
      by_contra none
      refine join_ends ?_ last
      intro text htext
      refine ⟨(htexts text htext).1, ?_⟩
      rintro rfl
      exact none ⟨[], htext, not_accepted_nil⟩

/-- Two media ranges, the second one with a parameter. -/
theorem reads_level :
    ReadsTexts (lit "text/*") [(1, lit "text/html;level=1")] [0] ↔
      Sound (lit "text/*") [(1, lit "text/html;level=1")] :=
  texts_read_iff (by decide)

/-- A comma and two spaces at the end are passed over. -/
theorem blank_end_reads : ¬ ReadsTexts (lit "text/html") [(2, [])] [0] := by
  intro reads
  obtain ⟨e, error⟩ := reads.rejected ⟨[], by simp [texts], not_accepted_nil⟩
  have ok : (parseRaw (join (lit "text/html") [(2, [])]) [0]).isOk = true := by decide
  rw [error] at ok
  cases ok

end Accept

end Pistache.Http
