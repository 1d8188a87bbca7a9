import Pistache.Http.HeaderClasses

/-!
# The `Host` header

`AddressParser` and `Port` as `Header::Host` uses them: the class takes a text apart into a host
and a port, and writes both.  IPv6 addresses are recognised by the C library, which is a
parameter (`Inet6`).

* `Host.parse_oneLine` — what has been read from one line is written on one line.
* `Host.parse_plain`, `Host.parse_numeral` — names of hosts with and without a port are read; so
  is what is written for them.
-/

set_option autoImplicit false

namespace Pistache

open Http (Exn)

/-! ## Ports -/

/-- The text of an exception that quotes a `std::string`. -/
def quote (text : Bytes) : String := String.ofList (text.map fun c => Char.ofNat c.toNat)

/-- `strtol(text.c_str(), &end, 10)`: the value, cut to a `long`, and what `end` points at. -/
def strtol (text : Bytes) : Int × Bytes :=
  let text := text.takeWhile (· ≠ 0)
  let number := text.dropWhile isspace
  let negative := number.head? = some 45
  let number := if negative ∨ number.head? = some 43 then number.drop 1 else number
  let digits := number.takeWhile (isDigitOf 10)
  if digits = [] then (0, text)
  else
    match digitsValue 10 0 digits with
    | some v =>
      let value : Int := if negative then -(v : Int) else v
      (max (-(2 ^ 63)) (min value (2 ^ 63 - 1)), number.dropWhile (isDigitOf 10))
    | none => (0, text)

/-- `Port(data)`. -/
def Port.ofText (data : Bytes) : Except Exn UInt16 :=
  if data = [] then .error (.std "Invalid port: empty port")
  else
    let (port_num, rest) := strtol data
    if rest ≠ [] ∨ port_num < 0 ∨ port_num > 65535 then
      .error (.std ("Invalid port: " ++ quote data))
    else .ok (UInt16.ofNat port_num.toNat)

/-! ## Addresses -/

/-- `inet_pton(AF_INET6, ..)` and `inet_ntop` of what it gives; in the text of an address there
are two colons or more, and what is written is printable. -/
structure Inet6 where
  normalize : Bytes → Option Bytes
  colons : ∀ data addr, normalize data = some addr → 2 ≤ data.count 58
  plain : ∀ data addr, normalize data = some addr → CR ∉ addr

/-! No text is an address. -/

theorem Inet6.none_colons (data addr : Bytes) (h : none = some addr) : 2 ≤ data.count 58 :=
  nomatch h

theorem Inet6.none_plain (_ addr : Bytes) (h : none = some addr) : CR ∉ addr := nomatch h

/-- `AddressParser`; `ipv6` says that the family is `AF_INET6`. -/
structure AddressParser where
  host_ : Bytes
  port_ : Bytes
  ipv6 : Bool
  deriving DecidableEq

namespace AddressParser

/-- The port behind a colon. -/
def withPort (host_ : Bytes) (ipv6 : Bool) (port_ : Bytes) : Except Exn AddressParser :=
  if port_ = [] then .error (.std "Invalid port")
  else if (strtol port_).1 < 0 then .error (.std "Invalid port")
  else .ok { host_, port_, ipv6 }

/-- The `[` and the `]` of an address, if they stand in this order. -/
def brackets (data : Bytes) : Option (Nat × Nat) :=
  match data.idxOf? 91, data.idxOf? 93 with
  | some start_pos, some end_pos => if start_pos < end_pos then some (start_pos, end_pos) else none
  | _, _ => none

def parse (inet6 : Inet6) (data : Bytes) : Except Exn AddressParser :=
  match inet6.normalize data with
  | some host_ => .ok { host_, port_ := [], ipv6 := true }
  | none =>
    match brackets data with
    | some (start_pos, end_pos) =>
      -- the length of the text is counted from the start of `data`
      let host_ := (data.drop (start_pos + 1)).take (end_pos - 1)
      if 58 ∈ data.drop end_pos then withPort host_ true (data.drop (end_pos + 2))
      else .ok { host_, port_ := [], ipv6 := true }
    | none =>
      match data.idxOf? 58 with
      | some colon_pos => withPort (data.take colon_pos) false (data.drop (colon_pos + 1))
      | none => .ok { host_ := data, port_ := [], ipv6 := false }

end AddressParser

namespace Http

/-- `Header::Host`. -/
structure Host where
  uriHost_ : Bytes
  port_ : UInt16
  deriving DecidableEq

namespace Host

/-- `Host::parse`. -/
def parse (inet6 : Inet6) (data : Bytes) : Except Exn Host := do
  let parser ← AddressParser.parse inet6 data
  let uriHost_ := if parser.ipv6 then [91] ++ parser.host_ ++ [93] else parser.host_
  if parser.port_ = [] then return { uriHost_, port_ := 80 }
  else return { uriHost_, port_ := ← Port.ofText parser.port_ }

/-- `Host::write`. -/
def write (host : Host) : Bytes :=
  host.uriHost_ ++ if host.port_ ≠ 0 then lit ":" ++ numeral 10 host.port_.toNat else []

/-! ## On one line -/

theorem withPort_host {host_ port_ : Bytes} {ipv6 : Bool} {parser : AddressParser}
    (h : AddressParser.withPort host_ ipv6 port_ = .ok parser) : parser.host_ = host_ := by
  unfold AddressParser.withPort at h
  repeat' split at h
  all_goals
    cases h
  rfl

theorem address_oneLine {inet6 : Inet6} {data : Bytes} {parser : AddressParser}
    (h : AddressParser.parse inet6 data = .ok parser) (hdata : OneLine data) :
    OneLine parser.host_ := by
  have hmiddle : ∀ n k, OneLine ((data.drop n).take k) := fun n k =>
    (hdata.suffix (List.drop_suffix n data)).inside (List.take_prefix k _).isInfix
  unfold AddressParser.parse at h
  split at h
  · rename_i addr hnorm
    cases h
    exact oneLine_of_not_mem (inet6.plain _ _ hnorm)
  · split at h
    · dsimp only at h
      split at h
      · rw [withPort_host h]
        exact hmiddle _ _
      · cases h
        exact hmiddle _ _
    · split at h
      · rw [withPort_host h]
        exact hdata.inside (List.take_prefix _ _).isInfix
      · cases h
        exact hdata

/-- **What has been read from one line is written on one line.** -/
theorem parse_oneLine {inet6 : Inet6} {data : Bytes} {host : Host}
    (h : parse inet6 data = .ok host) (hdata : OneLine data) : OneLine host.write := by
  have huri : OneLine host.uriHost_ := by
    simp only [parse, bind, Except.bind, pure, Except.pure] at h
    cases hp : AddressParser.parse inet6 data with
    | error e => simp [hp] at h
    | ok parser =>
      have hline := address_oneLine hp hdata
      have hbrackets : OneLine (if parser.ipv6 then [91] ++ parser.host_ ++ [93] else parser.host_) := by
        split
        · have hfront : OneLine ([] ++ 91 :: parser.host_) :=
            (oneLine_append_cons (by decide) (by decide)).mpr ⟨by decide, hline⟩
          have hboth : OneLine ((91 :: parser.host_) ++ 93 :: []) :=
            (oneLine_append_cons (by decide) (by decide)).mpr ⟨hfront, by decide⟩
          simpa using hboth
        · exact hline
      simp only [hp] at h
      split at h
      · cases h
        exact hbrackets
      · cases hport : Port.ofText parser.port_ with
        | error e => simp [hport] at h
        | ok port =>
          simp only [hport] at h
          cases h
          exact hbrackets
  unfold write
  split
  · exact (oneLine_append_cons (by decide) (by decide)).mpr
      ⟨huri, oneLine_of_not_mem (Classes.numeral_CR _)⟩
  · rwa [List.append_nil]

/-! ## Names of hosts -/

/-- A name without the separators of an address. -/
def Plain (name : Bytes) : Prop := 91 ∉ name ∧ 58 ∉ name

instance (name : Bytes) : Decidable (Plain name) := by unfold Plain; infer_instance

theorem strtol_numeral {n : Nat} (hn : n < 2 ^ 63) : strtol (numeral 10 n) = ((n : Int), []) := by
  obtain ⟨hdrop, hminus, hplus, htake, hrest⟩ := Classes.numeral_read n
  have hvalue := digitsValue_numeral (show 1 < 10 by decide) (by decide) n
  have hcstr : (numeral 10 n).takeWhile (· ≠ 0) = numeral 10 n := by
    refine List.takeWhile_eq_self_iff.mpr fun c hc => ?_
    have := (digit_plain (Cookie.numeral_digits n c hc)).2.2.2
    simpa using this
  have hcut : max (-(2 ^ 63)) (min (n : Int) (2 ^ 63 - 1)) = n := by omega
  simp only [strtol, hcstr, hdrop, hminus, hplus, or_self, if_false, htake, hrest,
    numeral_ne_nil 10 n, hvalue, hcut]

/-- There is no separator of an address in a numeral. -/
theorem numeral_separators {n : Nat} {c : UInt8} (h : c ∈ numeral 10 n) :
    c ≠ 58 ∧ c ≠ 91 ∧ c ≠ 93 := by
  have hdigit := Cookie.numeral_digits n c h
  refine ⟨?_, ?_, ?_⟩
  all_goals
    rintro rfl
    simp [isDigitOf, digitValue] at hdigit

theorem withPort_numeral {port : Nat} (hport : port < 2 ^ 16) {host_ : Bytes} {ipv6 : Bool} :
    AddressParser.withPort host_ ipv6 (numeral 10 port) = .ok ⟨host_, numeral 10 port, ipv6⟩ := by
  have hneg : ¬((port : Int) < 0) := by omega
  have hstrtol := strtol_numeral (n := port) (by omega)
  simp only [AddressParser.withPort, numeral_ne_nil 10 port, hstrtol, hneg, if_false]

theorem ofText_numeral {port : Nat} (hport : port < 2 ^ 16) :
    Port.ofText (numeral 10 port) = .ok (UInt16.ofNat port) := by
  have hstrtol := strtol_numeral (n := port) (by omega)
  have hrange : ¬((port : Int) < 0) ∧ ¬((port : Int) > 65535) := by omega
  simp [Port.ofText, numeral_ne_nil 10 port, hstrtol, hrange.1, hrange.2]

theorem normalize_none {inet6 : Inet6} {data : Bytes} (h : data.count 58 ≤ 1) :
    inet6.normalize data = none := by
  refine Option.eq_none_iff_forall_ne_some.mpr fun addr haddr => ?_
  have := inet6.colons data addr haddr
  omega

theorem brackets_none {data : Bytes} (h : 91 ∉ data) : AddressParser.brackets data = none := by
  unfold AddressParser.brackets
  rw [List.idxOf?_eq_none_iff.mpr h]

/-- **A name alone** is read with the port 80. -/
theorem parse_plain (inet6 : Inet6) {name : Bytes} (h : Plain name) :
    parse inet6 name = .ok ⟨name, 80⟩ := by
  have hcolon : name.idxOf? 58 = none := List.idxOf?_eq_none_iff.mpr h.2
  have hnone : inet6.normalize name = none :=
    normalize_none (by rw [List.count_eq_zero.mpr h.2]; exact Nat.zero_le 1)
  have haddress : AddressParser.parse inet6 name = .ok ⟨name, [], false⟩ := by
    simp only [AddressParser.parse, hnone, brackets_none h.1, hcolon]
  simp [parse, haddress, bind, Except.bind, pure, Except.pure]

/-- A text without a colon and a port, in which no brackets are seen, are read. -/
theorem parse_named (inet6 : Inet6) {name : Bytes} (hcolons : 58 ∉ name) {port : Nat}
    (hport : port < 2 ^ 16)
    (hbrackets : AddressParser.brackets (name ++ 58 :: numeral 10 port) = none) :
    parse inet6 (name ++ 58 :: numeral 10 port) = .ok ⟨name, UInt16.ofNat port⟩ := by
  have hcount : (name ++ 58 :: numeral 10 port).count 58 ≤ 1 := by
    have hzero : (numeral 10 port).count 58 = 0 :=
      List.count_eq_zero.mpr fun hin => (numeral_separators hin).1 rfl
    rw [List.count_append, List.count_cons_self, List.count_eq_zero.mpr hcolons, hzero]
  have hcolon : (name ++ 58 :: numeral 10 port).idxOf? 58 = some name.length := by
    rw [List.idxOf?_eq_some_iff]
    refine ⟨by simp, by simp, fun j hj heq => hcolons ?_⟩
    rw [List.getElem_append_left hj] at heq
    exact heq ▸ List.getElem_mem hj
  have haddress : AddressParser.parse inet6 (name ++ 58 :: numeral 10 port) =
      .ok ⟨name, numeral 10 port, false⟩ := by
    have hdrop : (name ++ 58 :: numeral 10 port).drop (name.length + 1) = numeral 10 port := by
      simp
    simp only [AddressParser.parse, normalize_none hcount, hbrackets, hcolon, List.take_left, hdrop,
      withPort_numeral hport]
  simp only [parse, haddress, ofText_numeral hport, bind, Except.bind, pure, Except.pure,
    numeral_ne_nil 10 port, if_false]
  rfl

/-- **A name with a port** is read. -/
theorem parse_numeral (inet6 : Inet6) {name : Bytes} (h : Plain name) {port : Nat}
    (hport : port < 2 ^ 16) :
    parse inet6 (name ++ 58 :: numeral 10 port) = .ok ⟨name, UInt16.ofNat port⟩ := by
  refine parse_named inet6 h.2 hport (brackets_none ?_)
  simp only [List.mem_append, List.mem_cons, not_or]
  exact ⟨h.1, by decide, fun hin => (numeral_separators hin).2.1 rfl⟩

/-- What is written for a name is read again, less the spaces it begins with. -/
theorem write_reads (inet6 : Inet6) {name : Bytes} (h : Plain name) (port : UInt16) :
    ∃ host, parse inet6 ((⟨name, port⟩ : Host).write.dropWhile (· = SP)) = .ok host := by
  have hplain : Plain (name.dropWhile (· = SP)) :=
    ⟨fun hin => h.1 ((List.dropWhile_sublist _).mem hin),
      fun hin => h.2 ((List.dropWhile_sublist _).mem hin)⟩
  unfold write
  dsimp only
  split
  · have htext : (name ++ (lit ":" ++ numeral 10 port.toNat)).dropWhile (· = SP) =
        name.dropWhile (· = SP) ++ 58 :: numeral 10 port.toNat := by
      rw [List.dropWhile_append]
      split
      · rename_i hall
        rw [List.isEmpty_iff.mp hall]
        rfl
      · rfl
    rw [htext, parse_numeral inet6 hplain (UInt16.toNat_lt port)]
    exact ⟨_, rfl⟩
  · rw [List.append_nil, parse_plain inet6 hplain]
    exact ⟨_, rfl⟩

end Host

/-! ## The class among others -/

/-- A header of the class `Host`, or one of the other classes. -/
inductive WithHost (X : Type) where
  | Host (host : Http.Host)
  | rest (header : X)
  deriving DecidableEq

namespace WithHost

variable {X : Type} (inet6 : Inet6) (rest : Classes X)

def name : WithHost X → Bytes
  | .Host _ => lit "Host"
  | .rest header => rest.name header

def write : WithHost X → Bytes
  | .Host host => host.write
  | .rest header => rest.write header

/-- The readers by lowered name. -/
def others (key : Bytes) : Option (Bytes → Except Exn (WithHost X)) :=
  if key = lit "host" then some fun str => (Host.parse inet6 str).map .Host
  else (rest.others key).map fun parseRaw str => (parseRaw str).map .rest

theorem others_oneLine {key value : Bytes} {parseRaw : Bytes → Except Exn (WithHost X)}
    {header : WithHost X} (h : others inet6 rest key = some parseRaw)
    (hparse : parseRaw value = .ok header) (hvalue : OneLine value) :
    OneLine (write rest header) := by
  unfold others at h
  split at h
  · cases h
    cases hc : Host.parse inet6 value with
    | error e => simp [hc, Except.map] at hparse
    | ok host =>
      simp only [hc, Except.map, Except.ok.injEq] at hparse
      subst hparse
      exact Host.parse_oneLine hc hvalue
  · obtain ⟨parse, hother, rfl⟩ := Option.map_eq_some_iff.mp h
    cases hc : parse value with
    | error e => simp [hc, Except.map] at hparse
    | ok header' =>
      simp only [hc, Except.map, Except.ok.injEq] at hparse
      subst hparse
      exact rest.oneLine hother hc hvalue

/-- The classes `rest` and the class `Host`. -/
def classes : Classes (WithHost X) where
  others := others inet6 rest
  dates := rest.dates
  name := name rest
  write := write rest
  oneLine := others_oneLine inet6 rest

end WithHost

end Http

end Pistache
