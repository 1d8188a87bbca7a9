import Pistache.Common.Ostream
import Pistache.Http.HeaderParsers

/-!
# Cache-Control, written and read

`CacheControl::write`, the constructor of `CacheDirective`, and what `parseRaw` makes of the text.
A delta of zero seconds is not written, while the parser asks for one behind every timed
directive.

Principal results:

* `CacheControl.directive_written`, `CacheControl.directive_bare` — one directive at the cursor.
* `CacheControl.trip_iff` — the lists of directives that come back.
-/

set_option autoImplicit false

namespace Pistache.Http

/-! ## The directives -/

/-- `CacheDirective(directive, delta)`; the constructor without a delta gives zero seconds.  Only
a timed directive keeps the number. -/
def CacheDirective.init (directive : Directive) (delta : Int) : CacheDirective :=
  match directive with
  | .MaxAge | .SMaxAge | .MaxStale | .MinFresh => ⟨directive, UInt64.ofNat delta.toNat⟩
  | _ => ⟨directive, 0⟩

/-- `delta().count()`: a number of 64 bits, with a sign. -/
def CacheDirective.count (d : CacheDirective) : Int :=
  if d.data.toNat < 2 ^ 63 then d.data.toNat else d.data.toNat - 2 ^ 64

namespace CacheControl

/-- `directiveString`. -/
def directiveString : Directive → Bytes
  | .NoCache => lit "no-cache"
  | .NoStore => lit "no-store"
  | .NoTransform => lit "no-transform"
  | .OnlyIfCached => lit "only-if-cached"
  | .Public => lit "public"
  | .Private => lit "private"
  | .MustRevalidate => lit "must-revalidate"
  | .ProxyRevalidate => lit "proxy-revalidate"
  | .MaxAge => lit "max-age"
  | .MaxStale => lit "max-stale"
  | .MinFresh => lit "min-fresh"
  | .SMaxAge => lit "s-maxage"
  | .Ext => []

def hasDelta : Directive → Bool
  | .MaxAge | .MaxStale | .MinFresh | .SMaxAge => true
  | _ => false

/-- One pass of the loop of `write`, without the separator. -/
def writeDirective (d : CacheDirective) : Bytes :=
  directiveString d.directive_ ++
    if hasDelta d.directive_ ∧ 0 < d.count then lit "=" ++ numeral 10 d.count.toNat else []

/-- `CacheControl::write`: a separator behind each directive but the last. -/
def write : List CacheDirective → Bytes
  | [] => []
  | [d] => writeDirective d
  | d :: ds => writeDirective d ++ lit ", " ++ write ds

/-! ## The tables -/

theorem directiveString_trivial {d : Directive} (hext : d ≠ .Ext) (h : hasDelta d = false) :
    (directiveString d, d) ∈ TrivialDirectives := by
  cases d with
  | Ext => exact absurd rfl hext
  | MaxAge | MaxStale | MinFresh | SMaxAge => cases h
  | _ => decide

theorem directiveString_timed {d : Directive} (h : hasDelta d = true) :
    (directiveString d, d) ∈ TimedDirectives := by
  cases d with
  | MaxAge | MaxStale | MinFresh | SMaxAge => decide
  | _ => cases h

/-- No name of the tables begins another one. -/
theorem tables_apart : ∀ a ∈ TrivialDirectives ++ TimedDirectives,
    ∀ b ∈ TrivialDirectives ++ TimedDirectives, a.1 <+: b.1 → a = b := by
  decide

/-- A name of the tables is the only one that is found. -/
theorem match_raw_name {a b : Bytes × Directive} (ha : a ∈ TrivialDirectives ++ TimedDirectives)
    (hb : b ∈ TrivialDirectives ++ TimedDirectives) (hne : a ≠ b) (tail : Bytes) :
    match_raw a.1 (b.1 ++ tail) = none := by
  cases h : match_raw a.1 (b.1 ++ tail) with
  | none => rfl
  | some rest =>
    have hname : a.1 <+: b.1 ++ tail := ⟨rest, (match_raw_iff.mp h).symm⟩
    rcases List.prefix_or_prefix_of_prefix hname (List.prefix_append b.1 tail) with hpre | hpre
    · exact absurd (tables_apart a ha b hb hpre) hne
    · exact absurd (tables_apart b hb a ha hpre).symm hne

theorem firstMatch_name {table : List (Bytes × Directive)}
    (htable : ∀ a ∈ table, a ∈ TrivialDirectives ++ TimedDirectives) {b : Bytes × Directive}
    (hb : b ∈ table) (tail : Bytes) : firstMatch match_raw table (b.1 ++ tail) = some (b.2, tail) := by
  induction table with
  | nil => cases hb
  | cons a table ih =>
    have hall := htable b hb
    by_cases heq : a = b
    · subst heq
      simp [firstMatch, match_raw_append]
    · have hnone := match_raw_name (htable a List.mem_cons_self) hall heq tail
      have hrest := ih (fun x hx => htable x (List.mem_cons_of_mem a hx))
        ((List.mem_cons.mp hb).resolve_left (Ne.symm heq))
      unfold firstMatch at hrest ⊢
      rw [List.findSome?_cons, hnone]
      exact hrest

theorem firstMatch_other {table : List (Bytes × Directive)}
    (htable : ∀ a ∈ table, a ∈ TrivialDirectives ++ TimedDirectives) {b : Bytes × Directive}
    (hb : b ∈ TrivialDirectives ++ TimedDirectives) (hnot : b ∉ table) (tail : Bytes) :
    firstMatch match_raw table (b.1 ++ tail) = none := by
  unfold firstMatch
  rw [List.findSome?_eq_none_iff]
  intro a ha
  rw [match_raw_name (htable a ha) hb (fun heq => hnot (heq ▸ ha)) tail]
  rfl

/-! ## One directive -/

/-- What stands behind a directive. -/
def Separated (tail : Bytes) : Prop := tail = [] ∨ ∃ text, tail = lit ", " ++ text

theorem separated_digit {tail : Bytes} (h : Separated tail) :
    tail.takeWhile (isDigitOf 10) = [] ∧ tail.dropWhile (isDigitOf 10) = tail := by
  rcases h with rfl | ⟨text, rfl⟩
  · exact ⟨rfl, rfl⟩
  · have hcomma : isDigitOf 10 comma = false := by decide
    have htext : lit ", " ++ text = comma :: SP :: text := rfl
    rw [htext, List.takeWhile_cons, List.dropWhile_cons, hcomma]
    exact ⟨rfl, rfl⟩

/-- A trivial directive. -/
theorem directive_trivial (ds : List CacheDirective) {d : Directive} (hext : d ≠ .Ext)
    (h : hasDelta d = false) (tail : Bytes) :
    directive ds (directiveString d ++ tail) = .ok (ds ++ [⟨d, 0⟩], tail) := by
  rw [directive, firstMatch_name (fun a ha => List.mem_append_left _ ha)
    (directiveString_trivial hext h)]

/-- A timed directive is looked for behind the trivial ones. -/
theorem directive_timed (ds : List CacheDirective) {d : Directive} (h : hasDelta d = true)
    (tail : Bytes) : directive ds (directiveString d ++ tail) =
      (deltaSeconds tail).map fun secs => (ds ++ [⟨d, secs.1⟩], secs.2) := by
  have hin := directiveString_timed h
  have hnot : (directiveString d, d) ∉ TrivialDirectives := by
    cases d with
    | MaxAge | MaxStale | MinFresh | SMaxAge => decide
    | _ => cases h
  rw [directive, firstMatch_other (fun a ha => List.mem_append_left _ ha)
    (List.mem_append_right _ hin) hnot, firstMatch_name (fun a ha => List.mem_append_right _ ha) hin]
  simp only [bind, Except.bind, pure, Except.pure]
  cases deltaSeconds tail with
  | error e => rfl
  | ok secs => rfl

theorem deltaSeconds_numeral {n : Nat} (hn : n < 2 ^ 64) {tail : Bytes} (h : Separated tail) :
    deltaSeconds (lit "=" ++ numeral 10 n ++ tail) = .ok (UInt64.ofNat n, tail) := by
  have hdigits := Cookie.numeral_digits n
  obtain ⟨htake, hdrop⟩ := separated_digit h
  have hvalue := digitsValue_numeral (show 1 < 10 by decide) (by decide) n
  have hadvance : advance 1 (lit "=" ++ numeral 10 n ++ tail) = some (numeral 10 n ++ tail) := rfl
  have hnumber : from_chars 10 (numeral 10 n ++ tail) = .ok (n, tail) := by
    unfold from_chars
    rw [List.takeWhile_append_of_pos hdigits, htake, List.append_nil,
      List.dropWhile_append_of_pos hdigits, hdrop]
    simp only [numeral_ne_nil, if_false, hvalue, if_pos hn]
  have hend : ¬(tail ≠ [] ∧ current tail ≠ comma) := by
    rintro ⟨hne, hcur⟩
    rcases h with rfl | ⟨text, rfl⟩
    · exact hne rfl
    · exact hcur rfl
  rw [deltaSeconds, hadvance]
  dsimp only
  rw [hnumber]
  dsimp only
  rw [if_neg hend]

/-- Without a number behind it a timed directive is invalid. -/
theorem deltaSeconds_none {tail : Bytes} (h : Separated tail) : ∃ e, deltaSeconds tail = .error e := by
  rcases h with rfl | ⟨text, rfl⟩
  · exact ⟨_, rfl⟩
  · have hadvance : advance 1 (lit ", " ++ text) = some (SP :: text) := rfl
    have hspace : isDigitOf 10 SP = false := by decide
    refine ⟨.std "Invalid caching directive, malformated delta-seconds", ?_⟩
    simp [deltaSeconds, hadvance, from_chars, hspace]

/-! ## Lists of directives -/

/-- What a directive of a list is made of: no extension, and seconds that are not negative. -/
structure Given where
  directive : Directive
  delta : Int
  known : directive ≠ .Ext
  nonneg : 0 ≤ delta
  fits : delta < 2 ^ 63

/-- The directive that is made. -/
def Given.made (g : Given) : CacheDirective := CacheDirective.init g.directive g.delta

/-- The directive is written with the number that the parser asks for. -/
def Given.Numbered (g : Given) : Prop := hasDelta g.directive = true → g.delta ≠ 0

instance (g : Given) : Decidable g.Numbered := by unfold Given.Numbered; infer_instance

theorem init_timed {d : Directive} (h : hasDelta d = true) (delta : Int) :
    CacheDirective.init d delta = ⟨d, UInt64.ofNat delta.toNat⟩ := by
  cases d with
  | MaxAge | MaxStale | MinFresh | SMaxAge => rfl
  | _ => cases h

theorem init_trivial {d : Directive} (h : hasDelta d = false) (delta : Int) :
    CacheDirective.init d delta = ⟨d, 0⟩ := by
  cases d with
  | MaxAge | MaxStale | MinFresh | SMaxAge => cases h
  | _ => rfl

theorem init_count {g : Given} (h : hasDelta g.directive = true) : g.made.count = g.delta := by
  have hnonneg := g.nonneg
  have hfits := g.fits
  have hdata : g.made.data.toNat = g.delta.toNat := by
    rw [Given.made, init_timed h, UInt64.toNat_ofNat']
    omega
  unfold CacheDirective.count
  rw [hdata]
  split
  · omega
  · omega

/-- **One directive that is written with its number is read.** -/
theorem directive_written (ds : List CacheDirective) {g : Given} (h : g.Numbered) {tail : Bytes}
    (ht : Separated tail) : directive ds (writeDirective g.made ++ tail) = .ok (ds ++ [g.made], tail) := by
  cases hdelta : hasDelta g.directive with
  | false =>
    have hmade : g.made = ⟨g.directive, 0⟩ := init_trivial hdelta g.delta
    have htext : writeDirective g.made = directiveString g.directive := by
      simp [writeDirective, hmade, hdelta]
    rw [htext, directive_trivial ds g.known hdelta, hmade]
  | true =>
    have hmade : g.made = ⟨g.directive, UInt64.ofNat g.delta.toNat⟩ := init_timed hdelta g.delta
    have hcount := init_count hdelta
    have hpos : 0 < g.delta := by
      have hne := h hdelta
      have hnonneg := g.nonneg
      omega
    have htext : writeDirective g.made ++ tail =
        directiveString g.directive ++ (lit "=" ++ numeral 10 g.delta.toNat ++ tail) := by
      have hdirective : g.made.directive_ = g.directive := by rw [hmade]
      rw [writeDirective, hdirective, hcount, if_pos ⟨hdelta, hpos⟩, List.append_assoc]
    have hfits : g.delta.toNat < 2 ^ 64 := by
      have hlt := g.fits
      omega
    rw [htext, directive_timed ds hdelta, deltaSeconds_numeral hfits ht, hmade]
    rfl

/-- **A timed directive of zero seconds is refused.** -/
theorem directive_bare (ds : List CacheDirective) {g : Given} (h : ¬g.Numbered) {tail : Bytes}
    (ht : Separated tail) : ∃ e, directive ds (writeDirective g.made ++ tail) = .error e := by
  unfold Given.Numbered at h
  rw [Classical.not_imp, not_not] at h
  obtain ⟨hdelta, hzero⟩ := h
  have hmade : g.made.directive_ = g.directive := by rw [Given.made, init_timed hdelta]
  have htext : writeDirective g.made = directiveString g.directive := by
    rw [writeDirective, hmade, init_count hdelta, hzero]
    simp
  obtain ⟨e, he⟩ := deltaSeconds_none ht
  refine ⟨e, ?_⟩
  rw [htext, directive_timed ds hdelta, he]
  rfl

theorem writeDirective_head (d : CacheDirective) (h : d.directive_ ≠ .Ext) (tail : Bytes) :
    (writeDirective d ++ tail).dropWhile (fun c => c = comma ∨ c = SP) = writeDirective d ++ tail ∧
      writeDirective d ++ tail ≠ [] := by
  have hname : ∃ c text, directiveString d.directive_ = c :: text ∧ c ≠ comma ∧ c ≠ SP := by
    cases hd : d.directive_ with
    | Ext => exact absurd hd h
    | _ => exact ⟨_, _, rfl, by decide, by decide⟩
  obtain ⟨c, text, hc, hcomma, hspace⟩ := hname
  rw [writeDirective, hc]
  refine ⟨?_, by simp⟩
  rw [List.cons_append, List.cons_append, List.dropWhile_cons, if_neg (by simp [hcomma, hspace])]

/-- **The loop of the parser over what has been written.** -/
theorem run_write : ∀ (gs : List Given) (ds : List CacheDirective), gs ≠ [] →
    ((∀ g ∈ gs, g.Numbered) → Loop.run body (fun ds _ => .ok ds) ds (write (gs.map Given.made)) =
        .ok (ds ++ gs.map Given.made)) ∧
      (¬(∀ g ∈ gs, g.Numbered) →
        ∃ e, Loop.run body (fun ds _ => .ok ds) ds (write (gs.map Given.made)) = .error e)
  | [], _, hne => absurd rfl hne
  | [g], ds, _ => by
    have htext : write ([g].map Given.made) = writeDirective g.made ++ [] :=
      (List.append_nil _).symm
    rw [htext, Loop.run_eq body_shrinks, body]
    refine ⟨fun h => ?_, fun h => ?_⟩
    · rw [directive_written ds (h g List.mem_cons_self) (.inl rfl)]
      rfl
    · obtain ⟨e, he⟩ := directive_bare ds (g := g) (by simpa using h) (.inl rfl)
      refine ⟨e, ?_⟩
      rw [he]
  | g :: g' :: gs, ds, _ => by
    obtain ⟨hok, herror⟩ := run_write (g' :: gs) (ds ++ [g.made]) (by simp)
    have htail : Separated (lit ", " ++ write ((g' :: gs).map Given.made)) := .inr ⟨_, rfl⟩
    have htext : write ((g :: g' :: gs).map Given.made) =
        writeDirective g.made ++ (lit ", " ++ write ((g' :: gs).map Given.made)) := by
      rw [← List.append_assoc]
      rfl
    have hhead : ∃ tail, write ((g' :: gs).map Given.made) = writeDirective g'.made ++ tail := by
      cases gs with
      | nil => exact ⟨[], (List.append_nil _).symm⟩
      | cons g'' gs => exact ⟨lit ", " ++ write ((g'' :: gs).map Given.made), by
          rw [← List.append_assoc]; rfl⟩
    have hknown : g'.made.directive_ ≠ .Ext := by
      cases hdelta : hasDelta g'.directive with
      | false => rw [Given.made, init_trivial hdelta]; exact g'.known
      | true => rw [Given.made, init_timed hdelta]; exact g'.known
    -- behind a directive that is read the loop goes on with the next one
    have hnext : g.Numbered → Loop.run body (fun ds _ => .ok ds) ds (write ((g :: g' :: gs).map Given.made)) =
        Loop.run body (fun ds _ => .ok ds) (ds ++ [g.made]) (write ((g' :: gs).map Given.made)) := by
      intro hg
      obtain ⟨tail, hwrite⟩ := hhead
      obtain ⟨hdrop, hne⟩ := writeDirective_head g'.made hknown tail
      rw [← hwrite] at hdrop hne
      have hskip : (lit ", " ++ write ((g' :: gs).map Given.made)).dropWhile (fun c => c = comma ∨ c = SP) =
          write ((g' :: gs).map Given.made) := by
        show (comma :: SP :: write ((g' :: gs).map Given.made)).dropWhile _ = _
        rw [List.dropWhile_cons, if_pos (by simp), List.dropWhile_cons, if_pos (by simp), hdrop]
      have hcomma : ¬current (lit ", " ++ write ((g' :: gs).map Given.made)) ≠ comma := not_not.mpr rfl
      rw [htext, Loop.run_eq body_shrinks, body, directive_written ds hg htail]
      dsimp only
      rw [if_neg (by simp [lit]), if_neg hcomma, hskip, if_neg hne]
    constructor
    · intro h
      rw [hnext (h g List.mem_cons_self), hok fun x hx => h x (List.mem_cons_of_mem g hx)]
      simp
    · intro h
      by_cases hg : g.Numbered
      · rw [hnext hg]
        exact herror fun hall => h (List.forall_mem_cons.mpr ⟨hg, hall⟩)
      · obtain ⟨e, he⟩ := directive_bare ds hg htail
        refine ⟨e, ?_⟩
        rw [htext, Loop.run_eq body_shrinks, body, he]

/-- **The directives come back** if and only if none of the timed ones has zero seconds. -/
theorem trip_iff (gs : List Given) :
    parseRaw (write (gs.map Given.made)) = .ok (gs.map Given.made) ↔ ∀ g ∈ gs, g.Numbered := by
  cases gs with
  | nil => exact iff_of_true rfl (by simp)
  | cons g gs =>
    obtain ⟨hok, herror⟩ := run_write (g :: gs) [] (by simp)
    constructor
    · intro h
      by_contra hsome
      obtain ⟨e, he⟩ := herror hsome
      rw [parseRaw, he] at h
      cases h
    · intro h
      rw [parseRaw, hok h]
      rfl

/-- `max-age=0` is written as `max-age`, which the parser refuses. -/
theorem write_zero :
    write [CacheDirective.init .MaxAge 0] = lit "max-age" ∧
      parseRaw (lit "max-age") =
        .error (.std "Invalid caching directive, missing delta-seconds") ∧
      ¬∀ gs : List Given, parseRaw (write (gs.map Given.made)) = .ok (gs.map Given.made) := by
  have hwrite : write [CacheDirective.init .MaxAge 0] = lit "max-age" := by decide
  have hread : parseRaw (lit "max-age") =
      .error (.std "Invalid caching directive, missing delta-seconds") := by decide
  refine ⟨hwrite, hread, fun h => ?_⟩
  have hzero := h [⟨.MaxAge, 0, by decide, by decide, by decide⟩]
  exact absurd hzero (by decide)

end CacheControl

end Pistache.Http
