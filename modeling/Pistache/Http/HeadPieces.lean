import Pistache.Http.Framing

/-!
# Request heads in pieces

`feed` and `parse` called for one piece of a request head after the other.

* `RequestParser.feedParse_pieces` — the pieces behind what a parser has received already.
* `RequestParser.head_in_pieces` — every call before the last asks for more, and the last one
  leaves the parser as one call with the whole head does.
-/

set_option autoImplicit false

namespace Pistache.Http.RequestParser

open Resumable

variable {H : Type}

/-- `feed` and `parse` with each of the pieces; `none` when the buffer refuses one of them. -/
def feedParse (registry : Registry H) :
    ParserBase H RequestLine → List Bytes → Option (List State × ParserBase H RequestLine)
  | p, [] => some ([], p)
  | p, piece :: pieces =>
    match p.feed piece with
    | none => none
    | some p =>
      let (result, p) := parse registry p
      (feedParse registry p pieces).map fun (results, p) => (result :: results, p)

/-- A request line, header lines and a blank line that the first two steps of a new parser
read to their end. -/
def AcceptsHead (registry : Registry H) (head : Bytes) : Prop :=
  (parseHead registry RequestLineStep.apply (0, Request.new) head).result = .Next ∧
    (parseHead registry RequestLineStep.apply (0, Request.new) head).rest = []

/-- The parser that has received `bytes` and made of them what a new parser makes of them at
once. -/
def received (registry : Registry H) (maxDataSize : Nat) (bytes : Bytes) :
    ParserBase H RequestLine where
  toWork := (parseNew registry bytes).state.2
  currentStep := (parseNew registry bytes).state.1
  buffer := (⟨[], bytes, maxDataSize⟩ : ArrayStreamBuf).advanceTo (parseNew registry bytes).rest

variable {registry : Registry H} {p : ParserBase H RequestLine} {t head : Bytes}

/-- One more piece. -/
theorem feedParse_cons (h : Mid registry p t) {x : Bytes}
    (hfit : (t ++ x).length ≤ p.buffer.maxSize) (xs : List Bytes) :
    feedParse registry p (x :: xs) =
      (feedParse registry (received registry p.buffer.maxSize (t ++ x)) xs).map fun (results, q) =>
        ((parseNew registry (t ++ x)).result :: results, q) := by
  have hlen : t.length + x.length ≤ p.buffer.maxSize := by
    rwa [← List.length_append]
  obtain ⟨p', hfeed, hparse, hbytes, hmax, hrest⟩ := h.feed_parse hlen
  rw [feedParse, hfeed]
  simp only [hparse, ArrayStreamBuf.advanceTo_eq p'.buffer hrest, hbytes, hmax]
  rfl

/-- **The pieces behind what has been received.** -/
theorem feedParse_pieces (haccepts : AcceptsHead registry head) :
    ∀ (pieces : List Bytes) (p : ParserBase H RequestLine) (t : Bytes), Mid registry p t →
      pieces ≠ [] → (∀ x ∈ pieces, x ≠ []) → t ++ pieces.flatten = head →
      head.length ≤ p.buffer.maxSize →
      feedParse registry p pieces =
        some (List.replicate (pieces.length - 1) .Again ++ [(parseNew registry head).result],
          received registry p.buffer.maxSize head)
  | [], _, _, _, hpos, _, _, _ => absurd rfl hpos
  | [x], p, t, h, _, _, hhead, hfit => by
    simp only [List.flatten_cons, List.flatten_nil, List.append_nil] at hhead
    subst hhead
    rw [feedParse_cons h hfit]
    rfl
  | x :: y :: ys, p, t, h, _, hne, hhead, hfit => by
    have hpre : t ++ x <+: head := ⟨(y :: ys).flatten, by
      rw [List.append_assoc]; exact hhead⟩
    have hproper : t ++ x ≠ head := by
      intro e
      rw [← e, List.flatten_cons, ← List.append_assoc] at hhead
      have hnil : (y :: ys).flatten = [] := List.append_right_eq_self.mp hhead
      rw [List.flatten_cons, List.append_eq_nil_iff] at hnil
      exact hne y (by simp) hnil.1
    obtain ⟨hagain, hcut⟩ := parseNew_part (p := (parseHead registry RequestLineStep.apply
      (0, Request.new) head).state) (Out.ext haccepts.1 rfl haccepts.2) hpre hproper
    have hfit' : (t ++ x).length ≤ p.buffer.maxSize := hpre.length_le.trans hfit
    have hbytes : (⟨p.toWork, ⟨[], t ++ x, p.buffer.maxSize⟩, 0⟩ :
        ParserBase H RequestLine).buffer.bytes = t ++ x := rfl
    have hmid : Mid registry (received registry p.buffer.maxSize (t ++ x)) (t ++ x) :=
      Mid.waits hbytes
        (Work.forward registry RequestLineStep.forward _ _) hagain hcut
    have ih := feedParse_pieces haccepts (y :: ys) _ (t ++ x) hmid (by simp)
      (fun z hz => hne z (List.mem_cons_of_mem x hz))
      (by rw [List.append_assoc]; exact hhead) hfit
    rw [feedParse_cons h hfit', ih, hagain]
    rfl

/-- **A head in pieces.**  Every call before the last one returns `Again`, and the last one
returns what a single call with the whole head does and leaves the parser, its message and its
cursor as that call does. -/
theorem head_in_pieces (registry : Registry H) (maxDataSize : Nat) (pieces : List Bytes)
    (hne : ∀ piece ∈ pieces, piece ≠ []) (haccepts : AcceptsHead registry pieces.flatten)
    {result : State} {whole : ParserBase H RequestLine}
    (hwhole : feedParse registry (new maxDataSize) [pieces.flatten] = some ([result], whole)) :
    feedParse registry (new maxDataSize) pieces =
      some (List.replicate (pieces.length - 1) .Again ++ [result], whole) := by
  have hfit : pieces.flatten.length ≤ maxDataSize := by
    by_contra hlong
    have hrefused : (new maxDataSize : ParserBase H RequestLine).feed pieces.flatten = none := by
      rw [ParserBase.feed, ArrayStreamBuf.feed, if_pos]
      · rfl
      · simpa [new, ArrayStreamBuf.new, ArrayStreamBuf.bytes] using hlong
    rw [feedParse, hrefused] at hwhole
    cases hwhole
  have hpos : pieces ≠ [] := by
    rintro rfl
    cases haccepts.1
  have hone := feedParse_cons (Mid.new registry maxDataSize) (x := pieces.flatten) hfit []
  have hall := feedParse_pieces haccepts pieces (new maxDataSize) [] (Mid.new registry maxDataSize)
    hpos hne rfl hfit
  rw [hwhole] at hone
  obtain ⟨rfl, rfl⟩ := by simpa [feedParse] using hone
  exact hall

/-- Cut in the query, between the CR and the LF of the request line, and in front of the blank
line. -/
def postPieces : List Bytes :=
  [lit "POST /a?x", lit "=1 HTTP/1.1\r", lit "\nCookie: c=d\r\nContent-Length: 5\r\n", lit "\r\n"]

theorem head_in_pieces_post : ∃ p : ParserBase Unit RequestLine,
    feedParse Registry.basic (new 4096) postPieces =
      some ([.Again, .Again, .Again, .Again], p) ∧
      p.message.own = ⟨.Post, lit "/a", [(lit "x", lit "1")]⟩ ∧ p.buffer.unread = [] :=
  ⟨_, head_in_pieces Registry.basic 4096 postPieces (by decide) ⟨rfl, rfl⟩ rfl, rfl, rfl⟩

end Pistache.Http.RequestParser
