import Pistache.Http.Host

/-!
# Hosts, written and read again

`AddressParser` looks for the first `[`, the first `]` and the first colon wherever they are, and
counts the characters between the brackets from the start of the text.  It leaves the port to
`Port` and to the resolver: any text behind the colon is one, if it does not begin with a negative
number.  `Host::write` leaves the port 0 out.

Principal results:

* `AddressParser.parse_iff` — what is accepted of texts without stray brackets.
* `Host.parse_write` — what is written for a host is read as the same.
* `Host.addresses` — both, for every text.
-/

set_option autoImplicit false

namespace Pistache

open Http (Exn)

/-- What is known of the texts of IPv6 addresses: they do not begin with a bracket, and there is
none in what is written for one. -/
structure Inet6.Documented (inet6 : Inet6) : Prop where
  read : ∀ data addr, inet6.normalize data = some addr → data.head? ≠ some 91
  written : ∀ data addr, inet6.normalize data = some addr → 93 ∉ addr

/-! ## The first of its kind -/

theorem idxOf?_split {a : UInt8} {xs : Bytes} {i : Nat} :
    xs.idxOf? a = some i ↔
      ∃ front behind, xs = front ++ a :: behind ∧ i = front.length ∧ a ∉ front := by
  rw [List.idxOf?_eq_some_iff]
  constructor
  · rintro ⟨hi, hget, hfirst⟩
    refine ⟨xs.take i, xs.drop (i + 1), ?_, ?_, ?_⟩
    · rw [← hget, List.getElem_cons_drop, List.take_append_drop]
    · rw [List.length_take]
      omega
    · intro hin
      obtain ⟨j, hj, heq⟩ := List.getElem_of_mem hin
      rw [List.length_take] at hj
      rw [List.getElem_take] at heq
      exact hfirst j (by omega) heq
  · rintro ⟨front, behind, rfl, rfl, hnot⟩
    refine ⟨by simp, by simp, fun j hj heq => hnot ?_⟩
    rw [List.getElem_append_left hj] at heq
    exact heq ▸ List.getElem_mem hj

namespace AddressParser

variable {data front mid behind : Bytes} {start_pos end_pos : Nat}

theorem brackets_append (hopen : 91 ∉ front) (hfront : 93 ∉ front) (hmid : 93 ∉ mid) :
    brackets (front ++ 91 :: (mid ++ 93 :: behind)) =
      some (front.length, front.length + 1 + mid.length) := by
  have hstart : (front ++ 91 :: (mid ++ 93 :: behind)).idxOf? 91 = some front.length :=
    idxOf?_split.mpr ⟨front, _, rfl, rfl, hopen⟩
  have hend : (front ++ 91 :: (mid ++ 93 :: behind)).idxOf? 93 =
      some (front.length + 1 + mid.length) := by
    refine idxOf?_split.mpr ⟨front ++ 91 :: mid, behind, by simp, by simp; omega, ?_⟩
    simp only [List.mem_append, List.mem_cons, not_or]
    exact ⟨hfront, by decide, hmid⟩
  unfold brackets
  rw [hstart, hend]
  dsimp only
  rw [if_pos (by omega)]

theorem brackets_front (hmid : 93 ∉ mid) :
    brackets (91 :: (mid ++ 93 :: behind)) = some (0, 0 + 1 + mid.length) := by
  have hnil : (91 : UInt8) ∉ ([] : Bytes) ∧ (93 : UInt8) ∉ ([] : Bytes) := by simp
  exact brackets_append hnil.1 hnil.2 hmid

/-- Where the brackets stand. -/
theorem brackets_split (h : brackets data = some (start_pos, end_pos)) :
    ∃ front mid behind, data = front ++ 91 :: (mid ++ 93 :: behind) ∧ start_pos = front.length ∧
      end_pos = front.length + 1 + mid.length ∧ 91 ∉ front ∧ 93 ∉ front ∧ 93 ∉ mid := by
  unfold brackets at h
  cases hstart : data.idxOf? 91 with
  | none =>
    rw [hstart] at h
    cases h
  | some i =>
    cases hend : data.idxOf? 93 with
    | none =>
      rw [hstart, hend] at h
      cases h
    | some j =>
      rw [hstart, hend] at h
      dsimp only at h
      split at h
      · rename_i hlt
        simp only [Option.some.injEq, Prod.mk.injEq] at h
        obtain ⟨rfl, rfl⟩ := h
        obtain ⟨front, rest, hdata, rfl, hopen⟩ := idxOf?_split.mp hstart
        obtain ⟨upto, behind, hdata', rfl, hclose⟩ := idxOf?_split.mp hend
        -- the closing bracket stands behind the opening one
        have hpre : front ++ [91] <+: upto := by
          have hfront : front ++ [91] <+: data := ⟨rest, by rw [hdata]; simp⟩
          have hupto : upto <+: data := ⟨93 :: behind, hdata'.symm⟩
          refine List.prefix_of_prefix_length_le hfront hupto ?_
          simp only [List.length_append, List.length_cons, List.length_nil]
          omega
        obtain ⟨mid, rfl⟩ := hpre
        simp only [List.mem_append, List.mem_cons, List.not_mem_nil, or_false, not_or] at hclose
        refine ⟨front, mid, behind, by rw [hdata']; simp, rfl, ?_, hopen, hclose.1.1, hclose.2⟩
        simp only [List.length_append, List.length_cons, List.length_nil]
      · cases h

/-- A first part of a text without brackets has none, with a tail that holds neither. -/
theorem brackets_of_prefix {name tail : Bytes} (hnone : brackets data = none) (hname : name <+: data)
    (htail : 91 ∉ tail ∧ 93 ∉ tail) : brackets (name ++ tail) = none := by
  rw [Option.eq_none_iff_forall_ne_some]
  rintro ⟨s, e⟩ h
  obtain ⟨front, mid, behind, heq, -, -, hopen, hfront, hmid⟩ := brackets_split h
  have hinside : (front ++ 91 :: mid) ++ [93] <+: name := by
    have hwhole : (front ++ 91 :: mid) ++ [93] <+: name ++ tail := ⟨behind, by rw [heq]; simp⟩
    by_cases hle : ((front ++ 91 :: mid) ++ [93]).length ≤ name.length
    · exact List.prefix_of_prefix_length_le hwhole (List.prefix_append name tail) hle
    · have hlen : name.length ≤ (front ++ 91 :: mid).length := by
        rw [List.length_append, List.length_singleton] at hle
        omega
      have hshort : name <+: front ++ 91 :: mid :=
        List.prefix_of_prefix_length_le (List.prefix_append name tail)
          ((List.prefix_append _ [93]).trans hwhole) hlen
      obtain ⟨more, hmore⟩ := hshort
      have hall : name ++ tail = name ++ (more ++ 93 :: behind) := by
        rw [heq, ← List.append_assoc, hmore]
        simp
      rw [List.append_cancel_left hall] at htail
      exact absurd (by simp) htail.2
  obtain ⟨more, hmore⟩ := hinside.trans hname
  have hdata : data = front ++ 91 :: (mid ++ 93 :: more) := by
    rw [← hmore]
    simp
  rw [hdata, brackets_append hopen hfront hmid] at hnone
  cases hnone

/-! ## The grammar -/

/-- What is left to `Port` and to the resolver: a text that does not begin with a negative
number. -/
def PortText (text : Bytes) : Prop := text ≠ [] ∧ 0 ≤ (strtol text).1

/-- The number of a port, in digits. -/
def PortNumber (text : Bytes) : Prop :=
  text ≠ [] ∧ ∃ v, digitsValue 10 0 text = some v ∧ v ≤ 65535

/-- A host, and a port if there is one, that is a text of `Port`: the host stands in brackets, or
holds no colon. -/
inductive HostPort (Port : Bytes → Prop) : Bytes → AddressParser → Prop where
  | bracketed (t : Bytes) (ht : 93 ∉ t) : HostPort Port (91 :: (t ++ [93])) ⟨t, [], true⟩
  | bracketedPort (t p : Bytes) (ht : 93 ∉ t) (hp : Port p) :
      HostPort Port (91 :: (t ++ 93 :: 58 :: p)) ⟨t, p, true⟩
  | name (h : Bytes) (hh : 58 ∉ h) (hnone : brackets h = none) : HostPort Port h ⟨h, [], false⟩
  | namePort (h p : Bytes) (hh : 58 ∉ h) (hp : Port p)
      (hnone : brackets (h ++ 58 :: p) = none) : HostPort Port (h ++ 58 :: p) ⟨h, p, false⟩

/-- Brackets stand only around the whole of a host: in front of the `[` there is nothing, and
behind the `]` nothing or a colon. -/
def Tidy (data : Bytes) : Prop :=
  ∀ start_pos end_pos, brackets data = some (start_pos, end_pos) →
    start_pos = 0 ∧ ((data.drop (end_pos + 1)) = [] ∨ (data.drop (end_pos + 1)).head? = some 58)

theorem withPort_iff {host_ port_ : Bytes} {ipv6 : Bool} {parser : AddressParser} :
    withPort host_ ipv6 port_ = .ok parser ↔ PortText port_ ∧ parser = ⟨host_, port_, ipv6⟩ := by
  unfold withPort PortText
  by_cases hempty : port_ = []
  · simp [hempty]
  · by_cases hneg : (strtol port_).1 < 0
    · simp only [if_neg hempty, if_pos hneg]
      exact iff_of_false (by simp) fun h => absurd h.1.2 (by omega)
    · simp only [if_neg hempty, if_neg hneg, Except.ok.injEq]
      constructor
      · rintro rfl
        exact ⟨⟨hempty, by omega⟩, rfl⟩
      · rintro ⟨-, rfl⟩
        rfl

/-- The text between the brackets, when they stand in front. -/
theorem parse_brackets {inet6 : Inet6} (hnone : inet6.normalize data = none) (hmid : 93 ∉ mid)
    (hdata : data = 91 :: (mid ++ 93 :: behind)) :
    parse inet6 data =
      if 58 ∈ behind then withPort mid true (behind.drop 1) else .ok ⟨mid, [], true⟩ := by
  have hbrackets : brackets data = some (0, 0 + 1 + mid.length) := hdata ▸ brackets_front hmid
  have htake : (data.drop (0 + 1)).take (0 + 1 + mid.length - 1) = mid := by
    rw [hdata]
    simp
  have hbehind : data.drop (0 + 1 + mid.length) = 93 :: behind := by
    rw [hdata]
    simp [Nat.add_comm 1]
  have hport : data.drop (0 + 1 + mid.length + 2) = behind.drop 1 := by
    rw [← List.drop_drop, hbehind]
    rfl
  simp only [parse, hnone, hbrackets, htake, hbehind, hport, List.mem_cons]
  have hclose : ¬(58 : UInt8) = 93 := by decide
  simp only [hclose, false_or]

/-- The host stands in brackets. -/
theorem parse_iff_bracketed {inet6 : Inet6} (hnone : inet6.normalize data = none) (hmid : 93 ∉ mid)
    (hdata : data = 91 :: (mid ++ 93 :: behind)) (hbehind : behind = [] ∨ behind.head? = some 58)
    (parser : AddressParser) : parse inet6 data = .ok parser ↔ HostPort PortText data parser := by
  have hb : brackets data = some (0, 0 + 1 + mid.length) := hdata ▸ brackets_front hmid
  -- the text between the brackets is one, and the other forms have no brackets
  have hinv : ∀ {t more : Bytes}, 93 ∉ t → data = 91 :: (t ++ 93 :: more) →
      t = mid ∧ more = behind := by
    intro t more ht heq
    have hb' : brackets data = some (0, 0 + 1 + t.length) := heq ▸ brackets_front ht
    rw [hb, Option.some.injEq, Prod.mk.injEq] at hb'
    have hlen : t.length = mid.length := by omega
    have hboth := List.append_inj (List.cons.inj (heq.symm.trans hdata)).2 hlen
    exact ⟨hboth.1, (List.cons.inj hboth.2).2⟩
  have hname : ∀ {text : Bytes}, text = data → brackets text ≠ none := by
    rintro text rfl hno
    rw [hb] at hno
    cases hno
  rw [parse_brackets hnone hmid hdata]
  rcases hbehind with rfl | hcolon
  · rw [if_neg (by simp), Except.ok.injEq]
    constructor
    · rintro rfl
      exact hdata ▸ HostPort.bracketed mid hmid
    · intro h
      cases h with
      | bracketed t ht => rw [(hinv ht rfl).1]
      | bracketedPort t p ht hp => cases (hinv ht rfl).2
      | name _ _ hno => exact absurd hno (hname rfl)
      | namePort _ _ _ _ hno => exact absurd hno (hname rfl)
  · obtain ⟨p, rfl⟩ : ∃ p, behind = 58 :: p := by
      cases behind with
      | nil => cases hcolon
      | cons c p => exact ⟨p, by rw [Option.some.inj hcolon]⟩
    rw [if_pos (by simp), List.drop_succ_cons, List.drop_zero, withPort_iff]
    constructor
    · rintro ⟨hp, rfl⟩
      exact hdata ▸ HostPort.bracketedPort mid p hmid hp
    · intro h
      cases h with
      | bracketed t ht => cases (hinv ht rfl).2
      | bracketedPort t p' ht hp =>
        obtain ⟨rfl, heq⟩ := hinv ht rfl
        obtain rfl := (List.cons.inj heq).2
        exact ⟨hp, rfl⟩
      | name _ _ hno => exact absurd hno (hname rfl)
      | namePort _ _ _ _ hno => exact absurd hno (hname rfl)

/-- No brackets are seen. -/
theorem parse_iff_name {inet6 : Inet6} (hnone : inet6.normalize data = none)
    (hb : brackets data = none) (parser : AddressParser) :
    parse inet6 data = .ok parser ↔ HostPort PortText data parser := by
  have hno : ∀ {t more : Bytes}, 93 ∉ t → data ≠ 91 :: (t ++ 93 :: more) := by
    rintro t more ht rfl
    rw [brackets_front ht] at hb
    cases hb
  simp only [parse, hnone, hb]
  cases hcolon : data.idxOf? 58 with
  | none =>
    have hplain : 58 ∉ data := List.idxOf?_eq_none_iff.mp hcolon
    rw [Except.ok.injEq]
    constructor
    · rintro rfl
      exact .name data hplain hb
    · intro h
      cases h with
      | bracketed t ht => exact absurd rfl (hno ht)
      | bracketedPort t p ht hp => exact absurd rfl (hno ht)
      | name _ _ _ => rfl
      | namePort h p _ _ _ => exact absurd (by simp) hplain
  | some i =>
    obtain ⟨front, behind, rfl, rfl, hfirst⟩ := idxOf?_split.mp hcolon
    have hdrop : (front ++ 58 :: behind).drop (front.length + 1) = behind := by simp
    dsimp only
    rw [hdrop, List.take_left, withPort_iff]
    constructor
    · rintro ⟨hp, rfl⟩
      exact .namePort front behind hfirst hp hb
    · intro h
      generalize hd : front ++ 58 :: behind = d at h hb hcolon hno
      cases h with
      | bracketed t ht => exact absurd rfl (hno ht)
      | bracketedPort t p ht hp => exact absurd rfl (hno ht)
      | name _ hh _ => exact absurd (hd ▸ by simp) hh
      | namePort h p hh hp _ =>
        have hsame := idxOf?_split.mpr ⟨h, p, rfl, rfl, hh⟩
        rw [hcolon, Option.some.injEq] at hsame
        obtain ⟨rfl, heq⟩ := List.append_inj hd hsame
        obtain rfl := (List.cons.inj heq).2
        exact ⟨hp, rfl⟩

/-- **What is accepted** of a text that is no IPv6 address and has no stray brackets. -/
theorem parse_iff {inet6 : Inet6} (hnone : inet6.normalize data = none) (htidy : Tidy data)
    (parser : AddressParser) : parse inet6 data = .ok parser ↔ HostPort PortText data parser := by
  cases hb : brackets data with
  | none => exact parse_iff_name hnone hb parser
  | some p =>
    obtain ⟨s, e⟩ := p
    obtain ⟨front, mid, behind, hdata, hs, he, -, -, hmid⟩ := brackets_split hb
    obtain ⟨hzero, hbehind⟩ := htidy s e hb
    have hnil : front = [] := List.length_eq_zero_iff.mp (hs.symm.trans hzero)
    subst hnil
    rw [List.nil_append] at hdata
    have hrest : data.drop (e + 1) = behind := by
      rw [he, hdata]
      simp [Nat.add_comm 1]
    exact parse_iff_bracketed hnone hmid hdata (hrest ▸ hbehind) parser

end AddressParser

namespace Http.Host

open AddressParser (brackets HostPort PortText Tidy)

variable {inet6 : Inet6} {data : Bytes} {host : Host}

/-! ## Reading what is written -/

/-- A host in brackets with a port. -/
theorem parse_bracketed (hinet : inet6.Documented) {t : Bytes} (ht : 93 ∉ t) {port : Nat}
    (hport : port < 2 ^ 16) :
    parse inet6 (91 :: (t ++ 93 :: 58 :: numeral 10 port)) =
      .ok ⟨91 :: (t ++ [93]), UInt16.ofNat port⟩ := by
  have hnone : inet6.normalize (91 :: (t ++ 93 :: 58 :: numeral 10 port)) = none := by
    refine Option.eq_none_iff_forall_ne_some.mpr fun addr haddr => ?_
    exact hinet.read _ addr haddr rfl
  have haddress : AddressParser.parse inet6 (91 :: (t ++ 93 :: 58 :: numeral 10 port)) =
      .ok ⟨t, numeral 10 port, true⟩ := by
    rw [AddressParser.parse_brackets hnone ht rfl, if_pos (by simp), List.drop_succ_cons,
      List.drop_zero, withPort_numeral hport]
  simp only [parse, haddress, ofText_numeral hport, bind, Except.bind, pure, Except.pure,
    numeral_ne_nil 10 port, if_false]
  rfl

theorem write_port {uri : Bytes} {port : UInt16} (h : port ≠ 0) :
    write ⟨uri, port⟩ = uri ++ 58 :: numeral 10 port.toNat := by
  simp only [write, if_pos h]
  rfl

/-- What `parse` makes of the parts. -/
theorem parse_ok (h : parse inet6 data = .ok host) : ∃ parser port,
    AddressParser.parse inet6 data = .ok parser ∧
      host = ⟨if parser.ipv6 then [91] ++ parser.host_ ++ [93] else parser.host_, port⟩ := by
  simp only [parse, bind, Except.bind, pure, Except.pure] at h
  cases hp : AddressParser.parse inet6 data with
  | error e =>
    rw [hp] at h
    cases h
  | ok parser =>
    rw [hp] at h
    dsimp only at h
    split at h
    · cases h
      exact ⟨parser, 80, rfl, rfl⟩
    · cases hport : Port.ofText parser.port_ with
      | error e =>
        rw [hport] at h
        cases h
      | ok port =>
        rw [hport] at h
        cases h
        exact ⟨parser, port, rfl, rfl⟩

/-- The host of what is accepted: an address, a text between brackets, or a text without a colon. -/
theorem host_cases (hinet : inet6.Documented) {parser : AddressParser}
    (h : AddressParser.parse inet6 data = .ok parser)
    (hfront : inet6.normalize data = none → ∀ s e, brackets data = some (s, e) → s = 0) :
    (parser.ipv6 = true ∧ 93 ∉ parser.host_) ∨
      (parser.ipv6 = false ∧ 58 ∉ parser.host_ ∧ brackets data = none ∧ parser.host_ <+: data) := by
  unfold AddressParser.parse at h
  split at h
  · rename_i addr hnorm
    cases h
    exact .inl ⟨rfl, hinet.written _ _ hnorm⟩
  · rename_i hnone
    split at h
    · rename_i s e hb
      obtain ⟨front, mid, behind, hdata, hs, he, -, -, hmid⟩ := AddressParser.brackets_split hb
      have hnil : front = [] := List.length_eq_zero_iff.mp (hs.symm.trans (hfront hnone s e hb))
      subst hnil
      have htake : (data.drop (s + 1)).take (e - 1) = mid := by
        rw [hs, he, hdata]
        simp
      dsimp only at h
      rw [htake] at h
      split at h
      · rw [AddressParser.withPort_iff] at h
        rw [h.2]
        exact .inl ⟨rfl, hmid⟩
      · cases h
        exact .inl ⟨rfl, hmid⟩
    · rename_i hb
      split at h
      · rename_i i hcolon
        obtain ⟨front, behind, rfl, rfl, hfirst⟩ := idxOf?_split.mp hcolon
        rw [AddressParser.withPort_iff, List.take_left] at h
        rw [h.2]
        exact .inr ⟨rfl, hfirst, hb, List.prefix_append _ _⟩
      · rename_i hcolon
        cases h
        exact .inr ⟨rfl, List.idxOf?_eq_none_iff.mp hcolon, hb, List.prefix_rfl⟩

/-- **What is written for a host is read as the same**, if its port is not 0 and the brackets of
its text stood in front. -/
theorem parse_write (hinet : inet6.Documented) (h : parse inet6 data = .ok host)
    (hport : host.port_ ≠ 0)
    (hfront : inet6.normalize data = none → ∀ s e, brackets data = some (s, e) → s = 0) :
    parse inet6 host.write = .ok host := by
  obtain ⟨parser, port, haddress, rfl⟩ := parse_ok h
  have hof : UInt16.ofNat port.toNat = port := UInt16.ofNat_toNat
  rw [write_port hport]
  rcases host_cases hinet haddress hfront with ⟨hipv6, hclose⟩ | ⟨hipv4, hcolon, hb, hpre⟩
  · rw [hipv6, if_pos rfl]
    have hread := parse_bracketed hinet hclose (UInt16.toNat_lt port)
    rw [hof] at hread
    simpa using hread
  · rw [hipv4]
    have hnone : brackets (parser.host_ ++ 58 :: numeral 10 port.toNat) = none := by
      refine AddressParser.brackets_of_prefix hb hpre ⟨?_, ?_⟩
      · rw [List.mem_cons, not_or]
        exact ⟨by decide, fun hin => (numeral_separators hin).2.1 rfl⟩
      · rw [List.mem_cons, not_or]
        exact ⟨by decide, fun hin => (numeral_separators hin).2.2 rfl⟩
    have hread := parse_named inet6 hcolon (UInt16.toNat_lt port) hnone
    rw [hof] at hread
    simpa using hread

/-! ## Addresses -/

/-- The texts that `Port` takes. -/
theorem ofText_iff {text : Bytes} (hne : text ≠ []) {port : UInt16} :
    Port.ofText text = .ok port ↔ strtol text = ((port.toNat : Int), []) := by
  have hlt := UInt16.toNat_lt port
  unfold Port.ofText
  rw [if_neg hne]
  obtain ⟨n, rest⟩ := strtol text
  dsimp only
  by_cases hcut : rest ≠ [] ∨ n < 0 ∨ n > 65535
  · rw [if_pos hcut]
    refine iff_of_false (by simp) fun heq => ?_
    rw [Prod.mk.injEq] at heq
    obtain ⟨rfl, rfl⟩ := heq
    rcases hcut with hcut | hcut | hcut
    · exact hcut rfl
    · omega
    · omega
  · rw [if_neg hcut, Except.ok.injEq, Prod.mk.injEq]
    rw [not_or, not_or, Classical.not_not] at hcut
    obtain ⟨hrest, hlow, hhigh⟩ := hcut
    constructor
    · rintro rfl
      have hmod : (UInt16.ofNat n.toNat).toNat = n.toNat % 2 ^ 16 := UInt16.toNat_ofNat'
      exact ⟨by omega, hrest⟩
    · rintro ⟨rfl, -⟩
      exact UInt16.ofNat_toNat

/-- What `Port` takes of the port of an address. -/
theorem port_iff {parser : AddressParser} (h : AddressParser.parse inet6 data = .ok parser)
    (hne : parser.port_ ≠ []) (port : UInt16) :
    (∃ host, parse inet6 data = .ok host ∧ host.port_ = port) ↔
      strtol parser.port_ = ((port.toNat : Int), []) := by
  rw [← ofText_iff hne]
  simp only [parse, h, bind, Except.bind, pure, Except.pure, if_neg hne]
  cases Port.ofText parser.port_ with
  | error e => simp
  | ok p => simp

/-- **Hosts and addresses**, for a text: what is written for the host is read as the same, the
address of the C library is taken as it writes it, any other address is a host or a host and the
text of a port, and `Port` takes the numbers from 0 to 65535 only. -/
structure Addressed (inet6 : Inet6) (data : Bytes) : Prop where
  again : ∀ host, parse inet6 data = .ok host → host.port_ ≠ 0 →
    (inet6.normalize data = none → ∀ s e, brackets data = some (s, e) → s = 0) →
      parse inet6 host.write = .ok host
  ipv6 : ∀ addr, inet6.normalize data = some addr →
    AddressParser.parse inet6 data = .ok ⟨addr, [], true⟩
  parts : inet6.normalize data = none → Tidy data → ∀ parser,
    AddressParser.parse inet6 data = .ok parser ↔ HostPort PortText data parser
  range : ∀ parser, AddressParser.parse inet6 data = .ok parser → parser.port_ ≠ [] → ∀ port,
    (∃ host, parse inet6 data = .ok host ∧ host.port_ = port) ↔
      strtol parser.port_ = ((port.toNat : Int), [])

theorem addresses (hinet : inet6.Documented) (data : Bytes) : Addressed inet6 data := by
  constructor
  · intro host h hport hfront
    exact parse_write hinet h hport hfront
  · intro addr haddr
    simp only [AddressParser.parse, haddr]
  · intro hnone htidy parser
    exact AddressParser.parse_iff hnone htidy parser
  · intro parser h hne port
    exact port_iff h hne port

/-- A C library that knows the loopback address. -/
def loopback : Inet6 where
  normalize data := if data = lit "::1" then some (lit "::1") else none
  colons data addr h := by
    split at h
    · rename_i heq
      subst heq
      decide
    · cases h
  plain data addr h := by
    split at h
    · cases h
      decide
    · cases h

theorem loopback_documented : loopback.Documented := by
  have haddr : ∀ {data addr : Bytes}, loopback.normalize data = some addr →
      data = lit "::1" ∧ addr = lit "::1" := by
    intro data addr h
    simp only [loopback] at h
    split at h
    · rename_i heq
      exact ⟨heq, (Option.some.inj h).symm⟩
    · cases h
  constructor
  · intro data addr h
    rw [(haddr h).1]
    decide
  · intro data addr h
    rw [(haddr h).2]
    decide

/-- The address `::1`, which is written in brackets, and the text `[::1]:8080`. -/
theorem addresses_loopback :
    parse loopback (write ⟨lit "[::1]", 80⟩) = .ok ⟨lit "[::1]", 80⟩ ∧
      parse loopback (write ⟨lit "[::1]", 8080⟩) = .ok ⟨lit "[::1]", 8080⟩ := by
  have hbare := addresses loopback_documented (lit "::1")
  have hport := addresses loopback_documented (lit "[::1]:8080")
  constructor
  · refine hbare.again ⟨lit "[::1]", 80⟩ (by decide) (by decide) fun hnone => ?_
    exact absurd hnone (by decide)
  · refine hport.again ⟨lit "[::1]", 8080⟩ (by decide) (by decide) fun _ s e hb => ?_
    have hzero : brackets (lit "[::1]:8080") = some (0, 4) := by decide
    rw [hzero] at hb
    cases hb
    rfl

/-- An address with the name of a service is taken; it has no number for a port. -/
theorem service_taken :
    AddressParser.parse loopback (lit "localhost:http") =
        .ok ⟨lit "localhost", lit "http", false⟩ ∧
      ¬∃ parser, HostPort AddressParser.PortNumber (lit "localhost:http") parser := by
  refine ⟨by decide, ?_⟩
  rintro ⟨parser, h⟩
  generalize hd : lit "localhost:http" = data at h
  cases h with
  | bracketed t ht => exact absurd (congrArg List.head? hd) (by simp [lit])
  | bracketedPort t p ht hp => exact absurd (congrArg List.head? hd) (by simp [lit])
  | name _ hh _ => exact absurd (show (58 : UInt8) ∈ data by rw [← hd]; decide) hh
  | namePort h p hh hp _ =>
    have hcolon : (lit "localhost:http").idxOf? 58 = some 9 := by decide
    have hlen := idxOf?_split.mpr ⟨h, p, hd, rfl, hh⟩
    rw [hcolon, Option.some.injEq] at hlen
    have hp' : p = lit "http" := by
      have hbehind : (h ++ 58 :: p).drop (h.length + 1) = p := by simp
      have hhttp : (lit "localhost:http").drop (9 + 1) = lit "http" := by decide
      rw [← hd, ← hlen, hhttp] at hbehind
      exact hbehind.symm
    have hvalue : digitsValue 10 0 (lit "http") = none := by decide
    obtain ⟨-, v, hv, -⟩ := hp
    rw [hp', hvalue] at hv
    cases hv

end Http.Host


end Pistache
