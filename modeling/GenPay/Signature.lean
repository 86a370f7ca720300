import GenPay.Services
import Mathlib.Algebra.Order.Ring.Rat

/-!
# Webhook signatures

`app/security/webhook_signature.py`.  The header is `t=<unix time>,v1=<hex hmac of "t.body">`; the verifier parses
it as the Python code does, compares the time with the clock and recomputes the digest from the body.
-/

namespace GenPay

def signatureHeader : String := "X-GenPay-Signature"

def signatureToleranceSeconds : Int := 300

/-! ### `int(text)` -/

/-- The white space `int` strips, as far as a header can hold it (headers are decoded as Latin-1); unlike `str.strip`
it leaves U+001C to U+001F. -/
def isSpace (c : Char) : Bool :=
  (9 ≤ c.toNat && c.toNat ≤ 13) || c.toNat == 32 || c.toNat == 133 || c.toNat == 160

def strip (cs : List Char) : List Char := ((cs.dropWhile isSpace).reverse.dropWhile isSpace).reverse

/-- Digits, with single underscores between them; `n` is the number read so far, `after` whether a digit has just
been read. -/
def digitsValue : List Char → Nat → Bool → Option Nat
  | [], n, after => if after then some n else none
  | c :: cs, n, after =>
    if c.isDigit then digitsValue cs (10 * n + (c.toNat - '0'.toNat)) true
    else if c = '_' ∧ after then digitsValue cs n false
    else none

/-- `int(text)`; `none` is its `ValueError`, also raised beyond 4300 digits. -/
def pyInt (text : String) : Option Int :=
  let cs := strip text.toList
  let (negative, ds) := match cs with
    | '-' :: ds => (true, ds)
    | '+' :: ds => (false, ds)
    | ds => (false, ds)
  if 4300 < (ds.filter (·.isDigit)).length then none
  else (digitsValue ds 0 false).map fun n => if negative then -(n : Int) else n

/-! ### The header -/

/-- `text.split(sep)` for a one-character separator. -/
def splitOn (sep : Char) : List Char → List (List Char)
  | [] => [[]]
  | c :: cs =>
    if c = sep then [] :: splitOn sep cs
    else match splitOn sep cs with
      | [] => [[c]]
      | part :: parts => (c :: part) :: parts

/-- `part.split("=", 1)` as a key with its value; without a separator `dict` raises. -/
def keyValue (part : List Char) : Option (String × String) :=
  match part.dropWhile (· ≠ '=') with
  | [] => none
  | _ :: value => some (String.ofList (part.takeWhile (· ≠ '=')), String.ofList value)

/-- `parts[key]`; a later pair replaces an earlier one. -/
def lookup (parts : List (String × String)) (key : String) : Option String :=
  (parts.reverse.find? (·.1 == key)).map (·.2)

/-- The timestamp and the signature of a header; `none` is a `KeyError` or `ValueError`. -/
def parseHeader (header : String) : Option (Int × String) := do
  let parts ← (splitOn ',' header.toList).mapM keyValue
  let timestamp ← pyInt (← lookup parts "t")
  let signature ← lookup parts "v1"
  return (timestamp, signature)

example : parseHeader "t=1_7, v1=x,v1=a=b" = some (17, "a=b") := by decide

example : pyInt " 1\t" = some 1 ∧ pyInt "\x1c1" = none := by decide

/-! ### Signing and verifying -/

/-- The hex digest of `"t.body"`. -/
def payloadDigest (env : Env) (secret text : String) (timestamp : Int) : String :=
  env.hmacSha256 secret s!"{timestamp}.{text}"

def signPayload (env : Env) (secret text : String) (timestamp : Int) : String :=
  s!"t={timestamp},v1={payloadDigest env secret text timestamp}"

def signatureError (code message : String) : Exc := .httpException 401 (.error code message)

/-- Whether `float(timestamp)` overflows. -/
def overflowsFloat (timestamp : Int) : Bool := 2 ^ 1024 - 2 ^ 970 ≤ timestamp.natAbs

/-- `_verify`; the digest is what `sign_payload(...).split("v1=")[1]` gives. -/
def verify (env : Env) (secret : String) (clock : ℚ) (header : Option String) (rawBody : ByteArray) :
    Except Exc ByteArray :=
  match header.filter (· ≠ "") with
  | none => .error (signatureError "missing_signature" s!"{signatureHeader} header is required")
  | some header =>
    match parseHeader header with
    | none => .error (signatureError "malformed_signature" s!"Could not parse {signatureHeader} header")
    | some (timestamp, provided) =>
      if overflowsFloat timestamp then .error .overflowError
      else if (signatureToleranceSeconds : ℚ) < |clock - timestamp| then
        .error (signatureError "signature_expired" "Webhook timestamp is outside the tolerance window")
      else match String.fromUTF8? rawBody with
        | none => .error .unicodeDecodeError
        | some text =>
          -- `compare_digest` raises on text that is not ASCII
          if provided.toList.any (fun c => 128 ≤ c.toNat) then .error .typeError
          else if payloadDigest env secret text timestamp = provided then .ok rawBody
          else .error (signatureError "invalid_signature" "Signature verification failed")

/-- The header verifies against the body under the secret, with a timestamp within the tolerance of the clock. -/
def Verifies (env : Env) (secret : String) (clock : ℚ) (header : Option String) (rawBody : ByteArray) : Prop :=
  ∃ h timestamp text, header = some h ∧ String.fromUTF8? rawBody = some text ∧
    parseHeader h = some (timestamp, payloadDigest env secret text timestamp) ∧
    |clock - timestamp| ≤ (signatureToleranceSeconds : ℚ)

theorem verify_ok {env : Env} {secret : String} {clock : ℚ} {header : Option String} {rawBody b : ByteArray}
    (h : verify env secret clock header rawBody = .ok b) :
    b = rawBody ∧ Verifies env secret clock header rawBody := by
  unfold verify at h
  split at h
  · cases h
  · rename_i hd hf
    have hheader : header = some hd := (Option.filter_eq_some_iff.1 hf).1
    split at h
    · cases h
    · rename_i timestamp provided hp
      split at h
      · cases h
      · split at h
        · cases h
        · rename_i hclock
          split at h
          · cases h
          · rename_i text ht
            split at h
            · cases h
            · split at h
              · rename_i hsig
                cases h
                exact ⟨rfl, hd, timestamp, text, hheader, ht, by rw [hsig]; exact hp, not_lt.1 hclock⟩
              · cases h

/-- Headers of this form are accepted, up to the limits of `float` and of ASCII. -/
theorem verify_of_parse {env : Env} {secret : String} {clock : ℚ} {header text : String} (timestamp : Int)
    (hne : header ≠ "") (hp : parseHeader header = some (timestamp, payloadDigest env secret text timestamp))
    (hf : overflowsFloat timestamp = false) (hc : |clock - timestamp| ≤ (signatureToleranceSeconds : ℚ))
    (hascii : (payloadDigest env secret text timestamp).toList.any (fun c => 128 ≤ c.toNat) = false) :
    verify env secret clock (some header) text.toUTF8 = .ok text.toUTF8 := by
  have hfilter : (some header).filter (· ≠ "") = some header := by simp [Option.filter, hne]
  have htext : String.fromUTF8? text.toUTF8 = some text := dif_pos text.isValidUTF8
  unfold verify
  simp only [hfilter, hp, hf, not_lt.2 hc, htext, hascii, Bool.false_eq_true, ↓reduceIte]

end GenPay
