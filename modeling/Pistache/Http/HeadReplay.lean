import Mathlib.Tactic.Choose
import Pistache.Http.Steps

/-!
# The head steps over split input

A head step that has to wait goes back to where it began but keeps what it has set in the
message, and sets it again when it is called with more input.  Setting it again changes
nothing: the assignments of `RequestLineStep` overwrite or keep the first value of a query
parameter, and the headers that `HeadersStep` takes into the message keep the first header of
a name; a `Cookie` header first removes all cookies.

* `RequestLineStep.settles`, `RequestLineStep.resumes` and the same for `HeadersStep`.
-/

set_option autoImplicit false

namespace Pistache.Http

open Replay Resumable

variable {H : Type}

/-! ## The request line -/

namespace RequestLineStep

def Update.method? : Update → Option Method
  | .method m => some m
  | _ => none

def Update.resource? : Update → Option Bytes
  | .resource text => some text
  | _ => none

def Update.query? : Update → Option (Bytes × Bytes)
  | .query name value => some (name, value)
  | _ => none

def Update.version? : Update → Option Version
  | .version v => some v
  | _ => none

theorem Update.replays : Replays (Update.apply (H := H)) := by
  have hquery : Replays fun (i : Update) (q : Query) =>
      i.query?.elim q fun e => insertNew e.1 e.2 q :=
    (insertNew_absorbing.optional Update.query?).replays
  have hall := ((replays_overwrite Update.method?).prod
    ((replays_overwrite Update.resource?).prod (hquery.prod (replays_overwrite Update.version?)))).map
    (fun r : Request H => (r.own.method_, r.own.resource_, r.own.query_, r.version_))
    (fun s r => { r with version_ := s.2.2.2, own := ⟨s.1, s.2.1, s.2.2.1⟩ })
    (fun _ _ => rfl) (fun _ _ _ => rfl) (fun _ => rfl)
  have heq : (Update.apply (H := H)) = fun i r =>
      { r with
        version_ := i.version?.getD r.version_
        own :=
          { method_ := i.method?.getD r.own.method_
            resource_ := i.resource?.getD r.own.resource_
            query_ := i.query?.elim r.own.query_ fun e => insertNew e.1 e.2 r.own.query_ } } := by
    funext i r
    cases i <;> rfl
  rw [heq]
  exact hall

theorem method_emitting : Emitting State.Again Update.apply (method (H := H)) := by
  refine Emitting.of_waits fun xs => ?_
  cases h : match_until [SP] xs with
  | none => exact .inr ⟨xs, fun r => by simp [method, h]⟩
  | some p =>
    obtain ⟨tok, rest⟩ := p
    obtain ⟨-, c, rest', rfl, hc⟩ := match_until_some h
    obtain rfl : c = SP := by simpa using hc
    have hz := match_until_append h
    refine .inl ?_
    cases hm : httpMethods.lookup tok with
    | none =>
      exact ⟨[], .thrown (raise "Unknown HTTP request method" .Bad_Request), SP :: rest', by simp,
        fun r z => by simp [method, hz z, hm]⟩
    | some it =>
      exact ⟨[.method it], .Next, rest', by simp,
        fun r z => by simp [method, hz z, hm]⟩

theorem resource_emitting : Emitting State.Again Update.apply (resource (H := H)) := by
  refine Emitting.of_waits fun xs => ?_
  cases h : match_until [questionMark, SP] xs with
  | none => exact .inr ⟨xs, fun r => by simp [resource, h]⟩
  | some p =>
    obtain ⟨tok, rest⟩ := p
    have hz := match_until_append h
    obtain ⟨-, c, rest', rfl, -⟩ := match_until_some h
    refine .inl ?_
    by_cases hc : c = questionMark
    · exact ⟨[.resource tok], .Next, rest', by simp, fun r z => by simp [resource, hz z, hc]⟩
    · exact ⟨[.resource tok], .Next, c :: rest', by simp, fun r z => by simp [resource, hz z, hc]⟩

theorem queryBody_shrinks : Loop.Shrinks (queryBody (H := H)) := by
  intro r xs r' xs' h
  unfold queryBody at h
  split at h
  · cases h
  · rename_i hsp
    split at h
    · cases h
    · rename_i key c hm
      obtain ⟨hxs, k, c', rfl, -⟩ := match_until_some hm
      have hlen : xs.length = key.length + (c'.length + 1) := by simp [hxs]
      split at h
      · rename_i hk
        simp only [Sum.inr.injEq, Prod.mk.injEq] at h
        obtain ⟨-, rfl⟩ := h
        cases key with
        | nil => rw [hxs] at hsp; exact absurd hk hsp
        | cons x key => simp only [List.length_cons] at hlen ⊢; omega
      · split at h
        · simp only [Sum.inr.injEq, Prod.mk.injEq] at h
          obtain ⟨-, rfl⟩ := h
          simp only [List.drop_succ_cons, List.drop_zero] at hlen ⊢
          omega
        · split at h
          · cases h
          · rename_i value d hv
            obtain ⟨hd, -⟩ := match_until_some hv
            have hlen' : c'.length = value.length + d.length := by
              simpa using congrArg List.length hd
            split at h
            · simp only [Sum.inr.injEq, Prod.mk.injEq] at h
              obtain ⟨-, rfl⟩ := h
              rw [List.length_drop]
              omega
            · simp only [Sum.inr.injEq, Prod.mk.injEq] at h
              obtain ⟨-, rfl⟩ := h
              omega

theorem queryBody_emitting : EmittingBody State.Again Update.apply (queryBody (H := H)) := by
  intro xs
  by_cases hnil : xs = []
  · subst hnil
    exact .inr (.inr ⟨[], fun r => by simp [queryBody, eofChar, SP, match_until, Scan.scan]⟩)
  have hcur := current_append hnil
  by_cases hsp : current xs = SP
  · exact .inr (.inl ⟨[], .Next, xs, by simp, fun r z => by simp [queryBody, hcur, hsp]⟩)
  cases hm : match_until [Cookie.equals, SP, ampersand] xs with
  | none => exact .inr (.inr ⟨xs, fun r => by simp [queryBody, hsp, hm]⟩)
  | some p =>
    obtain ⟨key, rest⟩ := p
    have hz := match_until_append hm
    obtain ⟨-, k, c, rfl, -⟩ := match_until_some hm
    by_cases hk : k = SP
    · exact .inl ⟨.query key [], k :: c, fun r z => by
        simp [queryBody, hcur, hsp, hz z, hk]⟩
    by_cases hk' : k = ampersand
    · exact .inl ⟨.query key [], c, fun r z => by
        simp [queryBody, hcur, hsp, hz z, hk', show ampersand ≠ SP by decide]⟩
    cases hv : match_until [SP, ampersand] c with
    | none => exact .inr (.inr ⟨k :: c, fun r => by simp [queryBody, hsp, hm, hk, hk', hv]⟩)
    | some q =>
      obtain ⟨value, rest⟩ := q
      have hvz := match_until_append hv
      obtain ⟨-, d, e, rfl, -⟩ := match_until_some hv
      by_cases hd : d = ampersand
      · exact .inl ⟨.query key value, e, fun r z => by
          simp [queryBody, hcur, hsp, hz z, hk, hk', hvz z, hd]⟩
      · exact .inl ⟨.query key value, d :: e, fun r z => by
          simp [queryBody, hcur, hsp, hz z, hk, hk', hvz z, hd]⟩

theorem query_emitting : Emitting State.Again Update.apply (query (H := H)) :=
  EmittingBody.run queryBody_shrinks queryBody_emitting

theorem version_emitting : Emitting State.Again Update.apply (version (H := H)) := by
  refine Emitting.of_waits fun xs => ?_
  cases xs with
  | nil => exact .inr ⟨[], fun r => rfl⟩
  | cons x xs =>
    cases h : untilEol xs with
    | none => exact .inr ⟨x :: xs, fun r => by simp [version, h]⟩
    | some p =>
      obtain ⟨tok, rest⟩ := p
      have hz := untilEol_append h
      obtain ⟨-, rest', rfl⟩ := untilEol_some h
      refine .inl ?_
      by_cases h₀ : strncmpEq tok (lit "HTTP/1.0") = true
      · exact ⟨[.version .Http10], .Next, rest', by simp,
          fun r z => by simp [version, hz z, h₀]⟩
      by_cases h₁ : strncmpEq tok (lit "HTTP/1.1") = true
      · exact ⟨[.version .Http11], .Next, rest', by simp,
          fun r z => by simp [version, hz z, h₀, h₁]⟩
      · exact ⟨[], .thrown (raise "Encountered invalid HTTP version" .Bad_Request),
          CR :: LF :: rest', by simp, fun r z => by simp [version, hz z, h₀, h₁]⟩

theorem parts_emitting : Emitting State.Again Update.apply
    (Resumable.andThen State.Next (Resumable.andThen State.Next
      (Resumable.andThen State.Next (method (H := H)) resource) query) version) :=
  ((method_emitting.andThen (by simp) resource_emitting).andThen (by simp) query_emitting).andThen
    (by simp) version_emitting

theorem method_forward : Forward (method (H := H)) := by
  intro r xs
  unfold method
  cases h : match_until [SP] xs with
  | none => exact List.suffix_refl _
  | some p =>
    have hs := match_until_suffix h
    dsimp only
    repeat' split
    all_goals first | exact hs | exact drop_suffix_of hs 1

theorem resource_forward : Forward (resource (H := H)) := by
  intro r xs
  unfold resource
  cases h : match_until [questionMark, SP] xs with
  | none => exact List.suffix_refl _
  | some p =>
    have hs := match_until_suffix h
    dsimp only
    split
    · exact drop_suffix_of hs 1
    · exact hs

theorem queryBody_suffix {r r' : Request H} {xs xs' : Bytes}
    (h : queryBody r xs = .inr (r', xs')) : xs' <:+ xs := by
  unfold queryBody at h
  split at h
  · cases h
  · cases hm : match_until [Cookie.equals, SP, ampersand] xs with
    | none => simp [hm] at h
    | some p =>
      have hs := match_until_suffix hm
      simp only [hm] at h
      split at h
      · cases h; exact hs
      · split at h
        · cases h; exact drop_suffix_of hs 1
        · cases hv : match_until [SP, ampersand] (p.2.drop 1) with
          | none => simp only [hv] at h; cases h
          | some q =>
            have hq := (match_until_suffix hv).trans (drop_suffix_of hs 1)
            simp only [hv] at h
            split at h
            · cases h; exact drop_suffix_of hq 1
            · cases h; exact hq

theorem queryBody_exit {r : Request H} {xs : Bytes} {o : Out State (Request H) UInt8}
    (h : queryBody r xs = .inl o) : o.rest <:+ xs := by
  unfold queryBody at h
  split at h
  · cases h; exact List.suffix_refl _
  · cases hm : match_until [Cookie.equals, SP, ampersand] xs with
    | none => simp only [hm] at h; cases h; exact List.suffix_refl _
    | some p =>
      have hs := match_until_suffix hm
      simp only [hm] at h
      repeat' split at h
      all_goals first | cases h; exact hs | cases h

theorem query_forward : Forward (query (H := H)) :=
  run_forward queryBody_shrinks (fun _ _ _ => queryBody_exit) (fun _ _ _ _ => queryBody_suffix)

theorem version_forward : Forward (version (H := H)) := by
  intro r xs
  unfold version
  cases h : untilEol (xs.drop 1) with
  | none => exact List.suffix_refl _
  | some p =>
    have hs := (untilEol_suffix h).trans (List.drop_suffix 1 xs)
    dsimp only
    repeat' split
    all_goals first | exact drop_suffix_of hs 2 | exact hs

theorem forward : Forward (apply (H := H)) :=
  revert_forward _ (andThen_forward _ (andThen_forward _
    (andThen_forward _ method_forward resource_forward) query_forward) version_forward)

theorem settles : Settles State.Again (fun _ => True) (apply (H := H)) := parts_emitting.settles

/-- **A request line in pieces.** -/
theorem resumes : Resumes State.Again (fun _ => True) (apply (H := H)) :=
  parts_emitting.resumes Update.replays (by simp)

end RequestLineStep

/-! ## The headers -/

namespace HeadersStep

variable (registry : Registry H)

/-- What a header adds to the cookies does not depend on them. -/
theorem cookies_eq (name value : Bytes) : ∃ (cs : List Cookie) (err : Option Exn), ∀ jar,
    cookies registry name value jar =
      (applyAll (fun c j => CookieJar.add j c) cs
        (if LowercaseEqualStatic name (lit "cookie") then [] else jar), err) := by
  by_cases hc : LowercaseEqualStatic name (lit "cookie") = true
  · obtain ⟨cs, err, h⟩ := CookieJar.addFromRaw_eq value
    exact ⟨cs, err, fun jar => by simp [cookies, hc, h, CookieJar.removeAllCookies]⟩
  by_cases hs : LowercaseEqualStatic name (lit "set-cookie") = true
  · cases hr : Cookie.fromRaw registry.fullDate value with
    | ok cookie => exact ⟨[cookie], none, fun jar => by simp [cookies, hc, hs, hr]⟩
    | error e => exact ⟨[], some e, fun jar => by simp [cookies, hc, hs, hr]⟩
  · exact ⟨[], none, fun jar => by simp [cookies, hc, hs]⟩

/-- The strongly typed header that a header line adds, under its key. -/
def typedEntry (line : Bytes × Bytes) : Option (Bytes × TypedHeader H) :=
  if (cookies registry line.1 line.2 []).2 = none then
    match typed registry line.1 line.2 with
    | some (.ok header) => some (line.1.map tolower, header)
    | _ => none
  else none

/-- The exception of a header line. -/
def thrown (line : Bytes × Bytes) : Option Exn :=
  match (cookies registry line.1 line.2 []).2 with
  | some e => some e
  | none =>
    match typed registry line.1 line.2 with
    | some (.error e) => some e
    | _ => none

def rawEntry (line : Bytes × Bytes) : Option (Bytes × Raw) :=
  if thrown registry line = none then some (line.1.map tolower, ⟨line.1, line.2⟩) else none

/-- The update of the message that a header line makes. -/
def update (line : Bytes × Bytes) (message : Message H) : Message H :=
  { message with
    cookies_ := (cookies registry line.1 line.2 message.cookies_).1
    headers_ :=
      { headers := (typedEntry registry line).elim message.headers_.headers fun e =>
          insertNew e.1 e.2 message.headers_.headers
        rawHeaders := (rawEntry registry line).elim message.headers_.rawHeaders fun e =>
          insertNew e.1 e.2 message.headers_.rawHeaders } }

theorem cookies_thrown (name value : Bytes) (jar : CookieJar) :
    (cookies registry name value jar).2 = (cookies registry name value []).2 := by
  obtain ⟨cs, err, h⟩ := cookies_eq registry name value
  rw [h, h]

theorem addHeader_eq (name value : Bytes) (message : Message H) :
    addHeader registry name value message =
      (update registry (name, value) message, thrown registry (name, value)) := by
  have hjar := cookies_thrown registry name value message.cookies_
  unfold addHeader
  cases hc : cookies registry name value message.cookies_ with
  | mk jar err =>
    rw [hc] at hjar
    cases err with
    | some e => simp [update, typedEntry, rawEntry, thrown, ← hjar, hc]
    | none =>
      cases ht : typed registry name value with
      | none =>
        simp [update, typedEntry, rawEntry, thrown, ← hjar, hc, headers, ht,
          Header.Collection.addRaw]
      | some r =>
        cases r with
        | error e => simp [update, typedEntry, rawEntry, thrown, ← hjar, hc, headers, ht]
        | ok header =>
          simp [update, typedEntry, rawEntry, thrown, ← hjar, hc, headers, ht,
            Header.Collection.addRaw, Header.Collection.add]

theorem update_replays : Replays (update registry) := by
  choose cs err hcs using cookies_eq registry
  have hjar : Replays fun (line : Bytes × Bytes) (jar : CookieJar) =>
      (cookies registry line.1 line.2 jar).1 := by
    have h := replays_clearing
      (CookieJar.add_absorbing.lists.comap fun line : Bytes × Bytes => cs line.1 line.2)
      (fun line => LowercaseEqualStatic line.1 (lit "cookie")) []
    have heq : (fun (line : Bytes × Bytes) (jar : CookieJar) =>
        (cookies registry line.1 line.2 jar).1) = clearing
          (fun line => LowercaseEqualStatic line.1 (lit "cookie")) []
          (fun line : Bytes × Bytes =>
            applyAll (fun c (j : CookieJar) => j.add c) (cs line.1 line.2)) := by
      funext line jar
      rw [hcs]
      rfl
    rw [heq]
    exact h
  exact (hjar.prod ((insertNew_absorbing.optional (typedEntry registry)).replays.prod
    (insertNew_absorbing.optional (rawEntry registry)).replays)).map
    (fun m : Message H => (m.cookies_, m.headers_.headers, m.headers_.rawHeaders))
    (fun s m => { m with cookies_ := s.1, headers_ := ⟨s.2.1, s.2.2⟩ })
    (fun _ _ => rfl) (fun _ _ _ => rfl) (fun _ => rfl)

variable {L : Type}

theorem derived_replays : Replays fun (line : Bytes × Bytes) (m : Derived H L) =>
    { m with toMessage := update registry line m.toMessage } :=
  (update_replays registry).map (fun m : Derived H L => m.toMessage)
    (fun s m => { m with toMessage := s }) (fun _ _ => rfl) (fun _ _ _ => rfl) (fun _ => rfl)

theorem header_append {xs name value rest : Bytes} (h : header xs = some (name, value, rest))
    (z : Bytes) : header (xs ++ z) = some (name, value, rest ++ z) := by
  unfold header at h
  split at h
  · cases h
  · rename_i n c hm
    split at h
    · cases h
    · rename_i v d hv
      simp only [Option.some.injEq, Prod.mk.injEq] at h
      obtain ⟨rfl, rfl, rfl⟩ := h
      obtain ⟨-, k, c', rfl, -⟩ := match_until_some hm
      obtain ⟨hdrop, d', rfl⟩ := untilEol_some hv
      have hne : (c'.dropWhile (· = SP)) ≠ [] := by
        intro e
        rw [List.drop_succ_cons, List.drop_zero, e] at hdrop
        simp at hdrop
      have hdw : (c' ++ z).dropWhile (· = SP) = c'.dropWhile (· = SP) ++ z := by
        rw [List.dropWhile_append, if_neg]
        simpa using hne
      unfold header
      rw [match_until_append hm z]
      simp only [List.cons_append, List.drop_succ_cons, List.drop_zero] at hv ⊢
      rw [hdw, untilEol_append hv z]
      rfl

/-- The rest behind a header. -/
theorem header_some {xs name value rest : Bytes} (h : header xs = some (name, value, rest)) :
    ∃ spaces, xs = name ++ colon :: (spaces ++ value ++ CR :: LF :: rest) := by
  unfold header at h
  split at h
  · cases h
  · rename_i n c hm
    split at h
    · cases h
    · rename_i v d hv
      simp only [Option.some.injEq, Prod.mk.injEq] at h
      obtain ⟨rfl, rfl, rfl⟩ := h
      obtain ⟨hxs, k, c', rfl, hk⟩ := match_until_some hm
      obtain rfl : k = colon := by simpa using hk
      obtain ⟨hdrop, d', rfl⟩ := untilEol_some hv
      simp only [List.drop_succ_cons, List.drop_zero] at hdrop
      refine ⟨c'.takeWhile (· = SP), ?_⟩
      rw [hxs]
      congr 2
      simp only [List.drop_succ_cons, List.drop_zero]
      rw [List.append_assoc, ← hdrop, List.takeWhile_append_dropWhile]

theorem body_shrinks : Loop.Shrinks (body registry (L := L)) := by
  intro m xs m' xs' h
  unfold body at h
  split at h
  · cases h
  · split at h
    · cases h
    · rename_i name value rest hh
      split at h
      · simp only [Sum.inr.injEq, Prod.mk.injEq] at h
        obtain ⟨-, rfl⟩ := h
        obtain ⟨spaces, hxs⟩ := header_some hh
        have := congrArg List.length hxs
        simp only [List.length_append, List.length_cons] at this
        omega
      · cases h

theorem header_suffix {xs name value rest : Bytes} (h : header xs = some (name, value, rest)) :
    rest <:+ xs := by
  obtain ⟨spaces, hxs⟩ := header_some h
  exact ⟨name ++ colon :: (spaces ++ value ++ [CR, LF]), by rw [hxs]; simp⟩

theorem forward : Forward (apply registry (L := L)) := by
  refine revert_forward _ (run_forward (body_shrinks registry) ?_ ?_)
  · intro m xs o h
    unfold body at h
    split at h
    · cases h; exact List.drop_suffix _ _
    · repeat' split at h
      all_goals first | cases h; exact List.suffix_refl _ | cases h
  · intro m xs m' xs' h
    unfold body at h
    split at h
    · cases h
    · split at h
      · cases h
      · rename_i hh
        split at h
        · cases h; exact header_suffix hh
        · cases h

theorem body_emitting : EmittingBody State.Again
    (fun line (m : Derived H L) => { m with toMessage := update registry line m.toMessage })
    (body registry (L := L)) := by
  intro xs
  by_cases heol : eol xs = true
  · obtain ⟨rest, rfl⟩ := eol_iff.mp heol
    exact .inr (.inl ⟨[], .Next, rest, by simp,
      fun m z => by simp [body]⟩)
  cases hh : header xs with
  | none => exact .inr (.inr ⟨xs, fun m => by simp [body, heol, hh]⟩)
  | some p =>
    obtain ⟨name, value, rest⟩ := p
    have hz := header_append hh
    have heolz : ∀ z, eol (xs ++ z) = false := by
      intro z
      obtain ⟨spaces, hxs⟩ := header_some hh
      match xs, heol, hxs with
      | x :: y :: xs, heol, _ => simpa [eol] using heol
      | [x], _, hxs => simp at hxs; have := congrArg List.length hxs; simp at this; omega
      | [], _, hxs => simp at hxs
    cases ht : thrown registry (name, value) with
    | none =>
      exact .inl ⟨(name, value), rest, fun m z => by
        simp [body, heolz z, hz z, addHeader_eq, ht]⟩
    | some e =>
      exact .inr (.inl ⟨[(name, value)], .thrown e, xs, by simp, fun m z => by
        simp [body, heolz z, hz z, addHeader_eq, ht]⟩)

theorem run_emitting : Emitting State.Again
    (fun line (m : Derived H L) => { m with toMessage := update registry line m.toMessage })
    (Loop.run (body registry (L := L)) fun message cursor => ⟨.Again, message, cursor⟩) :=
  EmittingBody.run (body_shrinks registry) (body_emitting registry)

theorem settles : Settles State.Again (fun _ => True) (apply registry (L := L)) :=
  (run_emitting registry).settles

/-- A header block that has not been read to its end can be read again. -/
theorem retries {m : Derived H L} {xs : Bytes} (h : (apply registry m xs).result ≠ .Next)
    (z : Bytes) :
    apply registry (apply registry m xs).state (xs ++ z) = apply registry m (xs ++ z) :=
  (run_emitting registry).retries (derived_replays registry) h z

/-- **Headers in pieces.** -/
theorem resumes : Resumes State.Again (fun _ => True) (apply registry (L := L)) :=
  (run_emitting registry).resumes (derived_replays registry) (by simp)

end HeadersStep

end Pistache.Http
