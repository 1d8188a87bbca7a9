import Pistache.Http.HeaderClasses
import Pistache.Http.BodyStep

/-!
# The names of the codings

`encodingFromString` compares with each name of a coding as many characters as it has been
given.  A first part of a name is taken for the name, and so is a name with a NUL behind it;
what `TransferEncoding` makes of its value decides how `BodyStep` reads the body.

Principal results:

* `Header.encodingFromString_cases` — which texts are taken for a coding.
* `Header.wholeName_iff` — the texts of which only whole names are taken.
-/

set_option autoImplicit false

namespace Pistache.Http.Header

variable {H : Type}

/-! ## What is compared -/

/-- Two texts are equal but for the case of their letters. -/
def EqualNoCase (text name : Bytes) : Prop := text.map tolower = name.map tolower

instance (text name : Bytes) : Decidable (EqualNoCase text name) :=
  inferInstanceAs (Decidable (_ = _))

/-- The comparison of `encodingFromString` holds for a name that the text is not: the text ends
inside the name, or the name ends at a NUL of the text. -/
def NearMiss (text name : Bytes) : Prop :=
  (text ≠ [] ∧ text.map tolower <+: name ∧ text.map tolower ≠ name) ∨
    name ++ [0] <+: text.map tolower

instance (text name : Bytes) : Decidable (NearMiss text name) :=
  inferInstanceAs (Decidable (_ ∨ _))

theorem NearMiss.ne {text name : Bytes} (h : NearMiss text name) : text.map tolower ≠ name := by
  rcases h with ⟨-, -, hne⟩ | hpre
  · exact hne
  · intro he
    have hlen : (name ++ [0]).length ≤ (text.map tolower).length := hpre.length_le
    rw [he, List.length_append, List.length_singleton] at hlen
    omega

/-- The names are written in lower case, none is empty or a first part of another, and there is
no NUL in them. -/
theorem encodingString_plain (e : Encoding) :
    (encodingString e).map tolower = encodingString e ∧ encodingString e ≠ [] ∧
      (0 : UInt8) ∉ encodingString e := by
  cases e <;> decide

theorem encodingString_begins {e d : Encoding} (h : encodingString e <+: encodingString d) :
    e = d := by
  revert h
  cases e <;> cases d <;> decide

/-- The table holds the names of the codings, each before its coding. -/
theorem mem_encodingNames {p : Bytes × Encoding} :
    p ∈ encodingNames ↔ p.2 ≠ .Unknown ∧ p.1 = encodingString p.2 := by
  constructor
  · have hall : ∀ q ∈ encodingNames, q.2 ≠ .Unknown ∧ q.1 = encodingString q.2 := by
      decide
    exact hall p
  · obtain ⟨name, e⟩ := p
    rintro ⟨hne, hname⟩
    change name = encodingString e at hname
    subst hname
    cases e <;> first | exact absurd rfl hne | decide

theorem strncasecmpEq_iff {text : Bytes} (hne : text ≠ []) (e : Encoding) :
    strncasecmpEq text (encodingString e) = true ↔
      EqualNoCase text (encodingString e) ∨ NearMiss text (encodingString e) := by
  obtain ⟨hlower, -, hnul⟩ := encodingString_plain e
  rw [strncasecmpEq, EqualNoCase, hlower, strncmpEq_iff hnul]
  constructor
  · rintro (hpre | hpre)
    · by_cases he : text.map tolower = encodingString e
      · exact .inl he
      · exact .inr (.inl ⟨hne, hpre, he⟩)
    · exact .inr (.inr hpre)
  · rintro (he | ⟨-, hpre, -⟩ | hpre)
    · exact .inl (he ▸ List.prefix_rfl)
    · exact .inl hpre
    · exact .inr hpre

/-! ## Which texts are taken -/

/-- **What `encodingFromString` makes of a text**: a coding whose name the text is or nearly is,
and `Unknown` only when there is none. -/
theorem encodingFromString_cases {text : Bytes} (hne : text ≠ []) :
    (encodingFromString text ≠ .Unknown ∧
      (EqualNoCase text (encodingString (encodingFromString text)) ∨
        NearMiss text (encodingString (encodingFromString text)))) ∨
    (encodingFromString text = .Unknown ∧ ∀ e : Encoding, e ≠ .Unknown →
      ¬EqualNoCase text (encodingString e) ∧ ¬NearMiss text (encodingString e)) := by
  rw [encodingFromString, if_neg hne]
  cases hfind : encodingNames.find? fun e => strncasecmpEq text e.1 with
  | some p =>
    obtain ⟨hp, hname⟩ := mem_encodingNames.mp (List.mem_of_find?_eq_some hfind)
    have hcmp := List.find?_some hfind
    rw [hname] at hcmp
    exact .inl ⟨hp, (strncasecmpEq_iff hne p.2).mp hcmp⟩
  | none =>
    refine .inr ⟨rfl, fun e he => ?_⟩
    have hcmp := List.find?_eq_none.mp hfind (encodingString e, e) (mem_encodingNames.mpr ⟨he, rfl⟩)
    rw [strncasecmpEq_iff hne] at hcmp
    exact not_or.mp hcmp

/-- The text is no near miss of a name. -/
def Exact (text : Bytes) : Prop :=
  ∀ e : Encoding, e ≠ .Unknown → ¬NearMiss text (encodingString e)

/-- A text that is nearly one name is not another. -/
theorem NearMiss.not_equal {text : Bytes} {e d : Encoding}
    (h : NearMiss text (encodingString e)) : ¬EqualNoCase text (encodingString d) := by
  intro heq
  rw [EqualNoCase, (encodingString_plain d).1] at heq
  have hne := h.ne
  rw [heq] at hne
  rcases h with ⟨-, hpre, -⟩ | hpre
  · rw [heq] at hpre
    exact hne (congrArg encodingString (encodingString_begins hpre))
  · rw [heq] at hpre
    have hsub : (0 : UInt8) ∈ encodingString d := hpre.subset (by simp)
    exact (encodingString_plain d).2.2 hsub

theorem EqualNoCase.unique {text : Bytes} {e d : Encoding}
    (he : EqualNoCase text (encodingString e)) (hd : EqualNoCase text (encodingString d)) :
    e = d := by
  rw [EqualNoCase, (encodingString_plain _).1] at he hd
  exact encodingString_begins (he ▸ hd ▸ List.prefix_rfl)

/-- `encodingFromString` gives a coding for the whole name of this coding only. -/
def NamesOnly (text : Bytes) : Prop :=
  ∀ e : Encoding, e ≠ .Unknown →
    (encodingFromString text = e ↔ EqualNoCase text (encodingString e))

theorem namesOnly_of_exact {text : Bytes} (h : Exact text) : NamesOnly text := by
  intro e he
  by_cases hne : text = []
  · subst hne
    have hempty : ¬EqualNoCase [] (encodingString e) := by
      cases e <;> decide
    exact iff_of_false (fun h => he h.symm) hempty
  · rcases encodingFromString_cases hne with ⟨hknown, heq | hmiss⟩ | ⟨hunknown, hnone⟩
    · constructor
      · intro h
        exact h ▸ heq
      · intro h
        exact heq.unique h
    · exact absurd hmiss (h _ hknown)
    · exact iff_of_false (fun h => he (h.symm.trans hunknown)) (hnone e he).1

theorem exact_of_namesOnly {text : Bytes} (h : NamesOnly text) : Exact text := by
  intro e he hmiss
  have hne : text ≠ [] := by
    rintro rfl
    rcases hmiss with ⟨hne, -, -⟩ | hpre
    · exact hne rfl
    · simp at hpre
  rcases encodingFromString_cases hne with ⟨hknown, -⟩ | ⟨-, hnone⟩
  · exact hmiss.not_equal ((h _ hknown).mp rfl)
  · exact (hnone e he).2 hmiss

/-! ## The body -/

/-- The body step behind a head whose only framing header is a `Transfer-Encoding` with this
value: it reads chunks when the value is the word `chunked`, and it throws an `HttpError` and
reads nothing when it is not. -/
structure Framed (value : Bytes) (s : BodyStep × Message H) (cursor : Bytes) : Prop where
  chunked : EqualNoCase value (lit "chunked") →
    BodyStep.apply s cursor =
      Resumable.lift BodyStep.chunkOf BodyStep.setChunk BodyStep.parseChunks s cursor
  refused : ¬EqualNoCase value (lit "chunked") →
    ∃ code reason, BodyStep.apply s cursor = ⟨.thrown (.http code reason), s, cursor⟩

theorem framed_of_namesOnly {value : Bytes} (h : NamesOnly value) {s : BodyStep × Message H}
    (hlen : s.2.headers_.contentLength = none)
    (hte : s.2.headers_.transferEncoding = some (encodingFromString value)) (cursor : Bytes) :
    Framed value s cursor := by
  have hiff : encodingFromString value = .Chunked ↔ EqualNoCase value (lit "chunked") :=
    h .Chunked (by decide)
  constructor
  · intro heq
    simp only [BodyStep.apply, hlen, hte, BodyStep.parseTransferEncoding, if_pos (hiff.mpr heq)]
  · intro hne
    have hother : encodingFromString value ≠ .Chunked := fun h => hne (hiff.mp h)
    refine ⟨.Not_Implemented, "Unsupported Transfer-Encoding", ?_⟩
    simp only [BodyStep.apply, hlen, hte, BodyStep.parseTransferEncoding, if_neg hother]
    rfl

variable (H) in
/-- **Only whole names are taken**: for a coding only its name, and for the framing of a body
only the word `chunked`. -/
structure WholeName (text : Bytes) : Prop where
  names : NamesOnly text
  body : ∀ (s : BodyStep × Message H) (cursor : Bytes), s.2.headers_.contentLength = none →
    s.2.headers_.transferEncoding = some (encodingFromString text) → Framed text s cursor

/-- **Which texts are taken by their whole name only**: those that are no first part of a name
and no name with a NUL behind it. -/
theorem wholeName_iff (text : Bytes) :
    WholeName H text ↔ ∀ e : Encoding, e ≠ .Unknown → ¬NearMiss text (encodingString e) := by
  constructor
  · intro h
    exact exact_of_namesOnly h.names
  · intro h
    have hnames : NamesOnly text := namesOnly_of_exact h
    exact ⟨hnames, fun _ cursor hlen hte => framed_of_namesOnly hnames hlen hte cursor⟩

/-- The text `chun` is read as the name of the coding `chunked`. -/
theorem chun_chunked :
    encodingFromString (lit "chun") = .Chunked ∧ ¬WholeName Unit (lit "chun") := by
  have hchun : encodingFromString (lit "chun") = .Chunked := by decide
  refine ⟨hchun, fun h => ?_⟩
  have heq := (h.names .Chunked (by decide)).mp hchun
  exact absurd heq (by decide)

end Pistache.Http.Header
