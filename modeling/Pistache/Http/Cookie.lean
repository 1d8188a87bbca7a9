import Pistache.Common.Stream
import Pistache.Http.Defs
import Pistache.Lib.Loop
import Pistache.Lib.Replay

/-!
# Cookies

`Cookie::fromRaw` and `CookieJar`.  The jar of the source maps a name to the cookies of that
name by their value; here it is one table with the pair of both as its key.  The text of an
`Expires` attribute is read by a parameter (the date library is not part of the repository).

* `CookieJar.addFromRaw_eq` — reading a `Cookie` header adds cookies that do not depend on the
  jar.
-/

set_option autoImplicit false

namespace Pistache.Http

open Replay

/-- `FullDate`: a point of the system clock. -/
structure FullDate where
  date : Int
  deriving DecidableEq, Repr

structure Cookie where
  name : Bytes
  value : Bytes
  path : Option Bytes
  domain : Option Bytes
  expires : Option FullDate
  maxAge : Option Int32
  secure : Bool
  httpOnly : Bool
  ext : List (Bytes × Bytes)
  deriving DecidableEq

def Cookie.new (name value : Bytes) : Cookie :=
  { name, value, path := none, domain := none, expires := none, maxAge := none, secure := false,
    httpOnly := false, ext := [] }

namespace Cookie

def semicolon : UInt8 := 59
def equals : UInt8 := 61

/-- A token up to a semicolon or the end (`match_until(';', cursor)`, its result ignored). -/
def tokenToSemicolon (cursor : Bytes) : Bytes × Bytes :=
  (match_until [semicolon] cursor).getD (cursor, [])

/-- `matchValue`. -/
def matchValue (cursor : Bytes) : Except Exn (Bytes × Bytes) :=
  if current cursor ≠ eofChar ∧ current cursor ≠ equals then .error (.std "Invalid cookie")
  else if cursor = [] then .error (.std "Invalid cookie, early eof")
  else .ok (tokenToSemicolon (cursor.drop 1))

/-- `strntol` of the `int` attributes; the sum wraps around. -/
def strntol (text : Bytes) : Except Exn Int32 :=
  text.foldlM (fun ret c =>
    if isdigit c then .ok (ret * 10 + (c.toNat - 48 : Nat).toInt32)
    else .error (.std "Invalid conversion")) 0

/-- The attributes of a cookie, in the order in which they are tried. -/
inductive Attribute where
  | path | domain | secure | httpOnly | maxAge | expires
  deriving DecidableEq

def attributes : List (Bytes × Attribute) :=
  [(lit "Path", .path), (lit "Domain", .domain), (lit "Secure", .secure),
    (lit "HttpOnly", .httpOnly), (lit "Max-Age", .maxAge), (lit "Expires", .expires)]

/-- `AttributeMatcher<T>::match`. -/
def matchAttributeValue (fullDate : Bytes → Except Exn FullDate) (cookie : Cookie)
    (cursor : Bytes) : Attribute → Except Exn (Cookie × Bytes)
  | .path => do
    let (token, cursor) ← matchValue cursor
    return ({ cookie with path := some token }, cursor)
  | .domain => do
    let (token, cursor) ← matchValue cursor
    return ({ cookie with domain := some token }, cursor)
  | .secure => return ({ cookie with secure := true }, cursor)
  | .httpOnly => return ({ cookie with httpOnly := true }, cursor)
  | .maxAge => do
    let (token, cursor) ← matchValue cursor
    return ({ cookie with maxAge := some (← strntol token) }, cursor)
  | .expires => do
    let (token, cursor) ← matchValue cursor
    return ({ cookie with expires := some (← fullDate token) }, cursor)

/-- One pass of the loop of `fromRaw`: a known attribute (`match_attribute`), or an entry of
`ext`. -/
def readAttribute (fullDate : Bytes → Except Exn FullDate) (cookie : Cookie) (cursor : Bytes) :
    Except Exn (Cookie × Bytes) :=
  match attributes.findSome? fun a => (match_string a.1 cursor).map fun rest => (a.2, rest) with
  | some (attr, cursor) => do
    let (cookie, cursor) ← matchAttributeValue fullDate cookie cursor attr
    return (cookie, cursor.drop 1)
  | none =>
    match match_until [equals] cursor with
    | none => return ({ cookie with ext := insertNew cursor [] cookie.ext }, [])
    | some (name, cursor) => do
      let (value, cursor) ← matchValue cursor
      return ({ cookie with ext := insertNew name value cookie.ext }, cursor)

/-- `do { ... } while (!cursor.eof())`. -/
def fromRawBody (fullDate : Bytes → Except Exn FullDate) :
    Loop.Body Cookie UInt8 (Except Exn Cookie) := fun cookie cursor =>
  match readAttribute fullDate cookie (skip_whitespaces cursor) with
  | .error e => .inl (.error e)
  | .ok (cookie, cursor) => if cursor = [] then .inl (.ok cookie) else .inr (cookie, cursor)

/-- `Cookie::fromRaw`. -/
def fromRaw (fullDate : Bytes → Except Exn FullDate) (str : Bytes) : Except Exn Cookie :=
  match match_until [equals] str with
  | none => .error (.std "Invalid cookie, missing value")
  | some (name, cursor) =>
    let (value, cursor) := tokenToSemicolon (cursor.drop 1)
    let cookie := Cookie.new name value
    if cursor = [] then .ok cookie
    else Loop.run (fromRawBody fullDate) (fun cookie _ => .ok cookie) cookie (cursor.drop 1)

/-! ### The loop ends -/

theorem tokenToSemicolon_length (cursor : Bytes) :
    (tokenToSemicolon cursor).2.length ≤ cursor.length := by
  unfold tokenToSemicolon
  cases h : match_until [semicolon] cursor with
  | none => simp
  | some p =>
    obtain ⟨hxs, -⟩ := match_until_some h
    simp [hxs]

theorem matchValue_length {cursor rest token : Bytes} (h : matchValue cursor = .ok (token, rest)) :
    rest.length < cursor.length := by
  unfold matchValue at h
  split at h
  · cases h
  · split at h
    · cases h
    · rename_i hne
      have hlen := tokenToSemicolon_length (cursor.drop 1)
      simp only [Except.ok.injEq] at h
      rw [h, List.length_drop] at hlen
      have := List.length_pos_iff.mpr hne
      simp only at hlen
      omega

theorem matchAttributeValue_length {fullDate : Bytes → Except Exn FullDate}
    {cookie cookie' : Cookie} {cursor rest : Bytes} {attr : Attribute}
    (h : matchAttributeValue fullDate cookie cursor attr = .ok (cookie', rest)) :
    rest.length ≤ cursor.length := by
  cases attr <;> simp only [matchAttributeValue, bind, Except.bind, pure, Except.pure] at h
  all_goals
    repeat' split at h
  all_goals
    try cases h
  all_goals
    first
    | exact Nat.le_refl _
    | exact Nat.le_of_lt (matchValue_length (by assumption))

/-- A known attribute takes its name from the text. -/
theorem find_attribute_rest {cursor rest : Bytes} {attr : Attribute}
    (h : (attributes.findSome? fun a => (match_string a.1 cursor).map fun rest => (a.2, rest)) =
      some (attr, rest)) : rest <:+ cursor ∧ rest.length < cursor.length := by
  obtain ⟨⟨str, a⟩, hmem, hstr⟩ := List.exists_of_findSome?_eq_some h
  have hpos : 0 < str.length := by
    have : ∀ x ∈ attributes, 0 < x.1.length := by decide
    exact this _ hmem
  obtain ⟨rest', hr, he⟩ := Option.map_eq_some_iff.mp hstr
  obtain ⟨-, rfl⟩ := Prod.mk.inj he
  have hlen : rest'.length + str.length = cursor.length := match_string_length hr
  exact ⟨match_string_suffix hr, by omega⟩

theorem readAttribute_length {fullDate : Bytes → Except Exn FullDate} {cookie cookie' : Cookie}
    {cursor rest : Bytes} (h : readAttribute fullDate cookie cursor = .ok (cookie', rest)) :
    rest = [] ∨ rest.length < cursor.length := by
  unfold readAttribute at h
  split at h
  · rename_i attr c hm
    have hlen := (find_attribute_rest hm).2
    simp only [bind, Except.bind, pure, Except.pure] at h
    split at h
    · cases h
    · rename_i v hv
      simp only [Except.ok.injEq, Prod.mk.injEq] at h
      have := matchAttributeValue_length hv
      rw [← h.2, List.length_drop]
      omega
  · split at h
    · simp only [pure, Except.pure, Except.ok.injEq, Prod.mk.injEq] at h
      exact .inl h.2.symm
    · rename_i name c hm
      obtain ⟨hxs, -⟩ := match_until_some hm
      simp only [bind, Except.bind, pure, Except.pure] at h
      split at h
      · cases h
      · rename_i v hv
        simp only [Except.ok.injEq, Prod.mk.injEq] at h
        have := matchValue_length hv
        rw [← h.2, hxs, List.length_append]
        omega

theorem fromRawBody_shrinks (fullDate : Bytes → Except Exn FullDate) :
    Loop.Shrinks (fromRawBody fullDate) := by
  intro cookie xs cookie' xs' h
  unfold fromRawBody at h
  split at h
  · cases h
  · rename_i c rest ha
    split at h
    · cases h
    · rename_i hne
      simp only [Sum.inr.injEq, Prod.mk.injEq] at h
      obtain ⟨-, rfl⟩ := h
      have hlen : (skip_whitespaces xs).length ≤ xs.length :=
        (List.dropWhile_suffix _).length_le
      rcases readAttribute_length ha with h | h
      · exact absurd h hne
      · omega

end Cookie

/-! ## The jar -/

abbrev CookieJar := List ((Bytes × Bytes) × Cookie)

namespace CookieJar

def add (jar : CookieJar) (cookie : Cookie) : CookieJar :=
  insertNew (cookie.name, cookie.value) cookie jar

def removeAllCookies (_ : CookieJar) : CookieJar := []

/-- A new jar. -/
theorem nodup_nil : (([] : CookieJar).map Prod.fst).Nodup := List.nodup_nil

/-- `CookieJar::addFromRaw`; the cookies in front of an invalid one are added. -/
def addFromRawBody : Loop.Body CookieJar UInt8 (CookieJar × Option Exn) := fun jar cursor =>
  if cursor = [] then .inl (jar, none)
  else
    match match_until [Cookie.equals] cursor with
    | none => .inl (jar, some (.std "Invalid cookie, missing value"))
    | some (name, cursor) =>
      let (value, cursor) := Cookie.tokenToSemicolon (cursor.drop 1)
      .inr (jar.add (Cookie.new name value), skip_whitespaces (cursor.drop 1))

def addFromRaw (jar : CookieJar) (str : Bytes) : CookieJar × Option Exn :=
  Loop.run addFromRawBody (fun jar _ => (jar, none)) jar str

theorem addFromRawBody_shrinks : Loop.Shrinks addFromRawBody := by
  intro jar xs jar' xs' h
  unfold addFromRawBody at h
  split at h
  · cases h
  · split at h
    · cases h
    · rename_i name c hm
      obtain ⟨hxs, c₀, c', hc, -⟩ := match_until_some hm
      simp only [Sum.inr.injEq, Prod.mk.injEq] at h
      obtain ⟨-, rfl⟩ := h
      have h₁ : (skip_whitespaces ((Cookie.tokenToSemicolon (c.drop 1)).2.drop 1)).length ≤
          ((Cookie.tokenToSemicolon (c.drop 1)).2.drop 1).length :=
        (List.dropWhile_suffix _).length_le
      have h₂ := Cookie.tokenToSemicolon_length (c.drop 1)
      rw [List.length_drop] at h₁ h₂
      rw [hxs, List.length_append]
      rw [hc] at h₂ ⊢
      simp only [List.length_cons, hc] at h₁ h₂ ⊢
      omega

/-- **Reading a `Cookie` header** adds the same cookies, and fails in the same way, whatever
the jar holds. -/
theorem addFromRaw_eq (str : Bytes) : ∃ (cookies : List Cookie) (err : Option Exn), ∀ jar,
    addFromRaw jar str = (applyAll (fun c j => CookieJar.add j c) cookies jar, err) := by
  suffices h : ∀ n, ∀ str : Bytes, str.length < n → ∃ (cookies : List Cookie) (err : Option Exn),
      ∀ jar, addFromRaw jar str = (applyAll (fun c j => CookieJar.add j c) cookies jar, err) from
    h _ str (Nat.lt_succ_self _)
  intro n
  induction n with
  | zero => intro str h; omega
  | succ n ih =>
    intro str hn
    by_cases hnil : str = []
    · refine ⟨[], none, fun jar => ?_⟩
      rw [addFromRaw, Loop.run_eq addFromRawBody_shrinks]
      simp [addFromRawBody, hnil]
    · cases hm : match_until [Cookie.equals] str with
      | none =>
        refine ⟨[], some (.std "Invalid cookie, missing value"), fun jar => ?_⟩
        rw [addFromRaw, Loop.run_eq addFromRawBody_shrinks]
        simp [addFromRawBody, hnil, hm]
      | some p =>
        obtain ⟨name, c⟩ := p
        have hstep : ∀ jar, addFromRawBody jar str =
            .inr (jar.add (Cookie.new name (Cookie.tokenToSemicolon (c.drop 1)).1),
              skip_whitespaces ((Cookie.tokenToSemicolon (c.drop 1)).2.drop 1)) := fun jar => by
          simp [addFromRawBody, hnil, hm]
        have hlt := addFromRawBody_shrinks _ _ _ _ (hstep [])
        obtain ⟨cookies, err, hc⟩ :=
          ih (skip_whitespaces ((Cookie.tokenToSemicolon (c.drop 1)).2.drop 1)) (by omega)
        refine ⟨Cookie.new name (Cookie.tokenToSemicolon (c.drop 1)).1 :: cookies, err,
          fun jar => ?_⟩
        rw [addFromRaw, Loop.run_eq addFromRawBody_shrinks, hstep jar]
        exact hc _

theorem add_absorbing : Absorbing (fun c (j : CookieJar) => j.add c)
    (fun c j => (j.lookup (c.name, c.value)).isSome) :=
  insertNew_absorbing.comap fun c : Cookie => ((c.name, c.value), c)

end CookieJar

end Pistache.Http
