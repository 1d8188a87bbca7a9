import Pistache.Common.Base64

/-!
# The `Authorization` header

`setBasicUserPassword` joins the user and the password with a colon and writes the text in
base 64; the readers decode it and cut it at the first colon.

* `credentials_roundtrip` — base 64 and the credentials come back.
-/

set_option autoImplicit false

namespace Pistache.Http

open Base64

/-- `Header::Authorization`. -/
structure Authorization where
  value : Bytes
  deriving DecidableEq, Repr

namespace Authorization

/-- `hasMethod<Method::Basic>`. -/
def hasMethodBasic (auth : Authorization) : Bool :=
  if ¬lit "Basic " <+: auth.value then false
  else if auth.value.length ≤ (lit "Basic ").length then false
  else true

/-- What both readers do first: the decoded text and where its first colon is. -/
def decodedCredentials (auth : Authorization) : Except Fault (Bytes × Option Nat) := do
  if ¬auth.hasMethodBasic then
    throw (.runtime_error "Authorization header does not use Basic method.")
  let credentials ← decode (auth.value.drop (lit "Basic ").length)
  return (credentials, credentials.findIdx? (· = 58))

def getBasicUser (auth : Authorization) : Except Fault Bytes := do
  match ← auth.decodedCredentials with
  | (_, none) => return []
  | (credentials, some delimiter) => return credentials.take delimiter

def getBasicPassword (auth : Authorization) : Except Fault Bytes := do
  match ← auth.decodedCredentials with
  | (_, none) => return []
  | (credentials, some delimiter) => return credentials.drop (delimiter + 1)

/-- `setBasicUserPassword`: the header after it. -/
def setBasicUserPassword (user password : Bytes) : Except Fault Authorization := do
  if (user.findIdx? (· = 58)).isSome then
    throw (.runtime_error "User ID cannot contain a colon.")
  let encoded ← encodeString (user ++ lit ":" ++ password)
  return ⟨lit "Basic " ++ encoded⟩

/-! ## Credentials -/

theorem no_colon {user : Bytes} (h : 58 ∉ user) : user.findIdx? (· = 58) = none := by
  rw [List.findIdx?_eq_none_iff]
  intro c hc
  have : c ≠ 58 := fun e => h (e ▸ hc)
  simpa using this

theorem setBasicUserPassword_eq {user : Bytes} (h : 58 ∉ user) (password : Bytes) :
    setBasicUserPassword user password =
      .ok ⟨lit "Basic " ++ encoded (user ++ lit ":" ++ password)⟩ := by
  simp only [setBasicUserPassword, no_colon h, encodeString, encode_eq]
  rfl

/-- The readers find the credentials, cut at the colon behind the user. -/
theorem decodedCredentials_eq {user : Bytes} (h : 58 ∉ user) (password : Bytes) :
    decodedCredentials ⟨lit "Basic " ++ encoded (user ++ lit ":" ++ password)⟩ =
      .ok (user ++ lit ":" ++ password, some user.length) := by
  have hmethod : hasMethodBasic ⟨lit "Basic " ++ encoded (user ++ lit ":" ++ password)⟩ = true := by
    have hsize : 0 < (encoded (user ++ lit ":" ++ password)).length := by
      rw [length_encoded, calculateEncodedSize_eq]
      simp [lit]
      omega
    have hlong : ¬(lit "Basic " ++ encoded (user ++ lit ":" ++ password)).length ≤
        (lit "Basic ").length := by
      rw [List.length_append]
      omega
    rw [hasMethodBasic, if_neg (not_not.mpr (List.prefix_append _ _)), if_neg hlong]
  have hcolon : (user ++ lit ":" ++ password).findIdx? (· = 58) = some user.length := by
    rw [List.append_assoc, List.findIdx?_append, no_colon h]
    simp [lit, List.findIdx?_cons]
  simp only [decodedCredentials, hmethod, List.drop_left, decode_encoded, ok_bind, hcolon]
  rfl

/-- Base 64 is as long as its size says and comes back, no text makes a conversion reach
outside its buffers, and a user without a colon and any password come back. -/
theorem credentials_roundtrip :
    (∀ bytes : Bytes, ∃ text, encode bytes = .ok text ∧
      text.length = calculateEncodedSize bytes.length ∧
      calculateEncodedSize bytes.length = 4 * ((bytes.length + 2) / 3) ∧
      decode text = .ok bytes) ∧
    (∀ text : Bytes, decode text ≠ .error .out_of_range) ∧
    ∀ user password : Bytes, 58 ∉ user → ∃ auth,
      setBasicUserPassword user password = .ok auth ∧
      auth.getBasicUser = .ok user ∧ auth.getBasicPassword = .ok password := by
  refine ⟨fun bytes => ?_, decode_inside, fun user password h => ?_⟩
  · exact ⟨encoded bytes, encode_eq bytes, length_encoded bytes, calculateEncodedSize_eq _,
      decode_encoded bytes⟩
  · refine ⟨_, setBasicUserPassword_eq h password, ?_, ?_⟩
    · rw [getBasicUser, decodedCredentials_eq h password, ok_bind]
      simp [pure, Except.pure]
    · rw [getBasicPassword, decodedCredentials_eq h password, ok_bind]
      simp [pure, Except.pure, lit]

theorem credentials_roundtrip_aladdin :
    ∃ auth, setBasicUserPassword (lit "Aladdin") (lit "OpenSesame") = .ok auth ∧
      auth.getBasicUser = .ok (lit "Aladdin") ∧
      auth.getBasicPassword = .ok (lit "OpenSesame") :=
  credentials_roundtrip.2.2 (lit "Aladdin") (lit "OpenSesame") (by decide)

/-- The credentials of the header's test. -/
example : encodeString (lit "Aladdin:OpenSesame") = .ok (lit "QWxhZGRpbjpPcGVuU2VzYW1l") := by
  decide

end Authorization

end Pistache.Http
