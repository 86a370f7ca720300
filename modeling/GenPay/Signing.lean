import Mathlib.Logic.Equiv.List
import GenPay.Runs

/-!
# What a signature binds

A header of `sign_payload` parses to the timestamp and the digest it was made of (`parseHeader_signPayload`), and the
signed text `"t.body"` determines both of its parts (`signedText_inj`), as no rendered integer has a dot.  Hence a
captured digest can be neither moved to another body, re-dated, nor used outside its window (`signature_binds`).
Three exceptions escape the verifier instead of becoming a 401 (`fails_closed`).
-/

namespace GenPay

/-- The part of a header that the verifier reads under a key: the last one. -/
def effectivePart (header key : String) : Option String := do
  let parts ← (splitOn ',' header.toList).mapM keyValue
  lookup parts key

/-- The largest finite `float`; `time.time()` is one. -/
def maxFloat : ℚ := 2 ^ 1024 - 2 ^ 971

/-- `hexdigest` writes these. -/
def isHexDigit (c : Char) : Bool := c.isDigit || (97 ≤ c.toNat && c.toNat ≤ 102)

/-! ### Rendered integers -/

theorem toList_toString (n : Int) :
    (toString n).toList = if 0 ≤ n then Nat.toDigits 10 n.toNat else '-' :: Nat.toDigits 10 (-n).toNat := by
  rw [Int.toString_eq_repr, Int.repr_eq_if]
  split <;> simp

theorem isDigit_of_mem {c : Char} {n : Nat} (h : c ∈ Nat.toDigits 10 n) : c.isDigit = true :=
  Nat.isDigit_of_mem_toDigits (by decide) (by decide) h

/-- A rendered integer consists of digits and perhaps a sign. -/
theorem mem_toString {c : Char} {n : Int} (h : c ∈ (toString n).toList) : c = '-' ∨ c.isDigit = true := by
  rw [toList_toString] at h
  split at h
  · exact Or.inr (isDigit_of_mem h)
  · rcases List.mem_cons.1 h with rfl | h
    · exact Or.inl rfl
    · exact Or.inr (isDigit_of_mem h)

theorem not_mem_toString {c : Char} (n : Int) (hminus : c ≠ '-') (hdigit : c.isDigit = false) :
    c ∉ (toString n).toList := by
  intro h
  rcases mem_toString h with rfl | h
  · exact hminus rfl
  · rw [hdigit] at h
    cases h

theorem toDigits_inj {m n : Nat} (h : Nat.toDigits 10 m = Nat.toDigits 10 n) : m = n := by
  have := congrArg (fun ds => Nat.ofDigitChars 10 ds 0) h
  simpa using this

theorem toString_inj {m n : Int} (h : (toString m).toList = (toString n).toList) : m = n := by
  have hsign : ∀ k l, Nat.toDigits 10 k ≠ '-' :: l := by
    intro k l he
    have hmem : '-' ∈ Nat.toDigits 10 k := he ▸ List.mem_cons_self ..
    exact absurd (isDigit_of_mem hmem) (by decide)
  rw [toList_toString, toList_toString] at h
  split at h
  · split at h
    · have := toDigits_inj h
      omega
    · exact absurd h (hsign _ _)
  · split at h
    · exact absurd h.symm (hsign _ _)
    · have := toDigits_inj (List.cons.inj h).2
      omega

/-! ### Reading them back -/

theorem digitsValue_of_digits {ds : List Char} (h : ∀ c ∈ ds, c.isDigit = true) (n : Nat) {after : Bool}
    (hne : ds ≠ [] ∨ after = true) : digitsValue ds n after = some (Nat.ofDigitChars 10 ds n) := by
  induction ds generalizing n after with
  | nil => simp [digitsValue, hne.resolve_left fun hn => hn rfl]
  | cons c cs ih =>
    rw [digitsValue, if_pos (h c (by simp)), Nat.ofDigitChars_cons]
    exact ih (fun c' hc' => h c' (by simp [hc'])) _ (Or.inr rfl)

theorem not_isSpace_of_isDigit {c : Char} (h : c.isDigit = true) : isSpace c = false := by
  have hrange : 48 ≤ c.toNat ∧ c.toNat ≤ 57 := by
    simp only [Char.isDigit, Bool.and_eq_true, decide_eq_true_eq] at h
    exact h
  simp only [isSpace, Bool.or_eq_false_iff, Bool.and_eq_false_iff, decide_eq_false_iff_not, beq_eq_false_iff_ne]
  omega

theorem strip_eq_self {cs : List Char} (h : ∀ c ∈ cs, isSpace c = false) : strip cs = cs := by
  have drop : ∀ l : List Char, (∀ c ∈ l, isSpace c = false) → l.dropWhile isSpace = l := by
    intro l hl
    cases l with
    | nil => rfl
    | cons c l => rw [List.dropWhile_cons, hl c (by simp)]; rfl
  unfold strip
  rw [drop cs h, drop cs.reverse (fun c hc => h c (List.mem_reverse.1 hc)), List.reverse_reverse]

/-- `int(str(n)) = n`, up to the limit of `int` on digits. -/
theorem pyInt_toString {n : Int} (h : (Nat.toDigits 10 n.natAbs).length ≤ 4300) : pyInt (toString n) = some n := by
  have hstrip : strip (toString n).toList = (toString n).toList := strip_eq_self fun c hc => by
    rcases mem_toString hc with rfl | hd
    · decide
    · exact not_isSpace_of_isDigit hd
  have hfilter : (Nat.toDigits 10 n.natAbs).filter (·.isDigit) = Nat.toDigits 10 n.natAbs :=
    List.filter_eq_self.2 fun c hc => isDigit_of_mem hc
  have hvalue : digitsValue (Nat.toDigits 10 n.natAbs) 0 false = some n.natAbs := by
    rw [digitsValue_of_digits (fun c hc => isDigit_of_mem hc) 0 (Or.inl Nat.toDigits_ne_nil),
      Nat.ofDigitChars_ten_toDigits]
  unfold pyInt
  rw [hstrip, toList_toString]
  by_cases hn : 0 ≤ n
  · -- the first character is a digit, no sign
    have habs : n.toNat = n.natAbs := by omega
    have hfirst : ∀ c ds, Nat.toDigits 10 n.natAbs = c :: ds → c.isDigit = true :=
      fun c ds he => isDigit_of_mem (he ▸ List.mem_cons_self ..)
    rw [if_pos hn, habs]
    dsimp only
    split
    · rename_i ds he
      exact absurd (hfirst _ _ he) (by decide)
    · rename_i ds he
      exact absurd (hfirst _ _ he) (by decide)
    · rw [hfilter, if_neg (not_lt.2 h), hvalue]
      simp [hn]
  · have habs : (-n).toNat = n.natAbs := by omega
    rw [if_neg hn, habs]
    change (if 4300 < ((Nat.toDigits 10 n.natAbs).filter (·.isDigit)).length then none
      else (digitsValue (Nat.toDigits 10 n.natAbs) 0 false).map fun m => -(m : Int)) = some n
    rw [hfilter, if_neg (not_lt.2 h), hvalue]
    have hneg : -(n.natAbs : Int) = n := by omega
    exact congrArg some hneg

/-! ### The header of `sign_payload` -/

theorem splitOn_eq_self {sep : Char} {cs : List Char} (h : sep ∉ cs) : splitOn sep cs = [cs] := by
  induction cs with
  | nil => rfl
  | cons c cs ih =>
    rw [List.mem_cons, not_or] at h
    rw [splitOn, if_neg (Ne.symm h.1), ih h.2]

theorem splitOn_append {sep : Char} {cs ds : List Char} (h : sep ∉ cs) :
    splitOn sep (cs ++ sep :: ds) = cs :: splitOn sep ds := by
  induction cs with
  | nil => simp [splitOn]
  | cons c cs ih =>
    rw [List.mem_cons, not_or] at h
    rw [List.cons_append, splitOn, if_neg (Ne.symm h.1), ih h.2]

theorem header_toList (timestamp : Int) (provided : String) : (s!"t={timestamp},v1={provided}").toList =
    ('t' :: '=' :: (toString timestamp).toList) ++ ',' :: ('v' :: '1' :: '=' :: provided.toList) := by
  simp [String.toList_append, toString]

/-- A header reads back as the timestamp and the signature. -/
theorem parseHeader_text {timestamp : Int} {provided : String} (hprovided : ',' ∉ provided.toList)
    (ht : (Nat.toDigits 10 timestamp.natAbs).length ≤ 4300) :
    parseHeader s!"t={timestamp},v1={provided}" = some (timestamp, provided) := by
  have hsplit : splitOn ',' (s!"t={timestamp},v1={provided}").toList =
      ['t' :: '=' :: (toString timestamp).toList, 'v' :: '1' :: '=' :: provided.toList] := by
    rw [header_toList, splitOn_append, splitOn_eq_self]
    · simpa using hprovided
    · simpa using not_mem_toString timestamp (by decide) (by decide)
  have hparts : (splitOn ',' (s!"t={timestamp},v1={provided}").toList).mapM keyValue =
      some [("t", toString timestamp), ("v1", provided)] := by
    rw [hsplit]
    simp [keyValue]
  have ht' := pyInt_toString ht
  unfold parseHeader
  rw [hparts]
  rw [Int.toString_eq_repr] at ht'
  simp [lookup, ht']

theorem parseHeader_signPayload {env : Env} {secret text : String} {timestamp : Int}
    (hdigest : ',' ∉ (payloadDigest env secret text timestamp).toList) (ht : (Nat.toDigits 10 timestamp.natAbs).length ≤ 4300) :
    parseHeader (signPayload env secret text timestamp) =
      some (timestamp, payloadDigest env secret text timestamp) := parseHeader_text hdigest ht

/-! ### The signed text -/

theorem append_cons_inj {α : Type} {c : α} {as bs xs ys : List α} (ha : c ∉ as) (hb : c ∉ bs)
    (h : as ++ c :: xs = bs ++ c :: ys) : as = bs ∧ xs = ys := by
  induction as generalizing bs with
  | nil =>
    cases bs with
    | nil => exact ⟨rfl, (List.cons.inj h).2⟩
    | cons b bs => exact absurd (List.cons.inj h).1 (fun he => hb (he ▸ List.mem_cons_self ..))
  | cons a as ih =>
    cases bs with
    | nil => exact absurd (List.cons.inj h).1.symm (fun he => ha (he ▸ List.mem_cons_self ..))
    | cons b bs =>
      rw [List.mem_cons, not_or] at ha hb
      obtain ⟨rfl, ht⟩ := List.cons.inj h
      obtain ⟨rfl, hx⟩ := ih ha.2 hb.2 ht
      exact ⟨rfl, hx⟩

/-- `f"{t}.{body}"` determines `t` and `body`, whatever digits and dots the body contains. -/
theorem signedText_inj {t u : Int} {body other : String} (h : s!"{t}.{body}" = s!"{u}.{other}") :
    t = u ∧ body = other := by
  have hlist : (toString t).toList ++ '.' :: body.toList = (toString u).toList ++ '.' :: other.toList := by
    have := congrArg String.toList h
    simpa [String.toList_append, toString] using this
  obtain ⟨ht, hb⟩ := append_cons_inj (not_mem_toString t (by decide) (by decide))
    (not_mem_toString u (by decide) (by decide)) hlist
  exact ⟨toString_inj ht, String.toList_inj.1 hb⟩

/-! ### The verifier -/

theorem effectivePart_of_parse {header signature : String} {timestamp : Int}
    (h : parseHeader header = some (timestamp, signature)) :
    (effectivePart header "t").bind pyInt = some timestamp ∧ effectivePart header "v1" = some signature := by
  unfold parseHeader at h
  unfold effectivePart
  cases hp : (splitOn ',' header.toList).mapM keyValue with
  | none => rw [hp] at h; cases h
  | some parts =>
    rw [hp] at h
    simp only [Option.bind_eq_bind, Option.bind_some, Option.pure_def, Option.bind_eq_some_iff,
      Option.some.injEq, Prod.mk.injEq] at h ⊢
    obtain ⟨text, htext, t, ht, v, hv, rfl, rfl⟩ := h
    exact ⟨⟨text, htext, ht⟩, hv⟩

theorem fromUTF8?_toUTF8 (text : String) : String.fromUTF8? text.toUTF8 = some text := dif_pos text.isValidUTF8

private theorem lt_of_near {t a b c : ℚ} (h : t ≤ a - b + 300) (hc : 300 < c) (hb : b = 2 * c) : t < a - c := by
  linarith

/-- A timestamp within the tolerance of a clock is converted to `float` without overflow. -/
theorem overflowsFloat_eq_false {clock : ℚ} {timestamp : Int} (hclock : |clock| ≤ maxFloat)
    (hnear : |clock - timestamp| ≤ (signatureToleranceSeconds : ℚ)) : overflowsFloat timestamp = false := by
  have habs : |(timestamp : ℚ)| ≤ maxFloat + 300 := by
    have htri : |(timestamp : ℚ)| ≤ |clock| + |clock - timestamp| := by
      have := abs_sub_abs_le_abs_sub (timestamp : ℚ) clock
      rw [abs_sub_comm (timestamp : ℚ) clock] at this
      linarith
    have h300 : (signatureToleranceSeconds : ℚ) = 300 := by norm_num [signatureToleranceSeconds]
    linarith
  have hsmall : (300 : ℚ) < 2 ^ 970 :=
    lt_of_lt_of_le (by norm_num : (300 : ℚ) < 2 ^ 9) (pow_le_pow_right₀ (by norm_num) (by norm_num))
  have hpow : (2 : Nat) ^ 970 ≤ 2 ^ 1024 := pow_le_pow_right₀ (by norm_num) (by norm_num)
  have hlt : (timestamp.natAbs : ℚ) < ((2 ^ 1024 - 2 ^ 970 : Nat) : ℚ) := by
    rw [Nat.cast_natAbs, Int.cast_abs, Nat.cast_sub hpow, Nat.cast_pow, Nat.cast_pow, Nat.cast_ofNat]
    exact lt_of_near habs hsmall (pow_succ' 2 970)
  unfold overflowsFloat
  rw [decide_eq_false_iff_not, not_le]
  exact_mod_cast hlt

/-- A timestamp that `float` can hold has few digits. -/
theorem length_toDigits_of_float {timestamp : Int} (h : overflowsFloat timestamp = false) :
    (Nat.toDigits 10 timestamp.natAbs).length ≤ 4300 := by
  have hlt : timestamp.natAbs < 10 ^ 312 := by
    unfold overflowsFloat at h
    rw [decide_eq_false_iff_not, not_le] at h
    calc timestamp.natAbs < 2 ^ 1024 - 2 ^ 970 := h
      _ ≤ 2 ^ 1024 := Nat.sub_le _ _
      _ = (2 ^ 128) ^ 8 := by rw [← pow_mul]
      _ ≤ (10 ^ 39) ^ 8 := Nat.pow_le_pow_left (by norm_num) 8
      _ = 10 ^ 312 := by rw [← pow_mul]
  have hlen := (Nat.length_toDigits_le_iff (b := 10) (by norm_num) (by norm_num)).2 hlt
  omega

theorem isHexDigit_lt {c : Char} (h : isHexDigit c = true) : c.toNat < 128 ∧ c ≠ ',' := by
  refine ⟨?_, fun he => by subst he; exact absurd h (by decide)⟩
  rcases Bool.or_eq_true_iff.1 h with hd | ha
  · simp only [Char.isDigit, Bool.and_eq_true, decide_eq_true_eq] at hd
    have : c.toNat ≤ 57 := hd.2
    omega
  · simp only [Bool.and_eq_true, decide_eq_true_eq] at ha
    omega

/-- Let HMAC under the secret be injective, and its digests hexadecimal.  A header whose effective `v1` part is the
digest of a body at a time is accepted with that body only, if its effective `t` part is that time, and within the
window; and the header of `sign_payload` is accepted throughout its window. -/
theorem signature_binds {env : Env} {secret : String} (hinj : Function.Injective (env.hmacSha256 secret))
    (hhex : ∀ message, ∀ c ∈ (env.hmacSha256 secret message).toList, isHexDigit c = true) :
    (∀ (timestamp : Int) (body body' header : String) (clock : ℚ) (accepted : ByteArray),
      effectivePart header "v1" = some (payloadDigest env secret body timestamp) →
      verify env secret clock (some header) body'.toUTF8 = .ok accepted →
      body' = body ∧ (effectivePart header "t").bind pyInt = some timestamp ∧ |clock - timestamp| ≤ 300) ∧
    (∀ (timestamp : Int) (body : String) (clock : ℚ), |clock| ≤ maxFloat → |clock - timestamp| ≤ 300 →
      verify env secret clock (some (signPayload env secret body timestamp)) body.toUTF8 = .ok body.toUTF8) := by
  have h300 : (signatureToleranceSeconds : ℚ) = 300 := by norm_num [signatureToleranceSeconds]
  refine ⟨fun timestamp body body' header clock accepted hv1 hok => ?_, fun timestamp body clock hclock hnear => ?_⟩
  · obtain ⟨-, h, t, text, he, htext, hparse, hnear⟩ := verify_ok hok
    cases he
    rw [fromUTF8?_toUTF8] at htext
    cases htext
    obtain ⟨ht, hv1'⟩ := effectivePart_of_parse hparse
    -- the digest the verifier computes is the captured one, so it is that of the same text
    rw [hv1] at hv1'
    obtain ⟨rfl, rfl⟩ := signedText_inj (hinj (Option.some.inj hv1'))
    exact ⟨rfl, ht, h300 ▸ hnear⟩
  · have hover := overflowsFloat_eq_false hclock (h300.symm ▸ hnear)
    have hlen := length_toDigits_of_float hover
    have hdigest := hhex s!"{timestamp}.{body}"
    refine verify_of_parse timestamp ?_ (parseHeader_signPayload ?_ hlen) hover (h300.symm ▸ hnear) ?_
    · intro he
      have := congrArg String.toList he
      rw [signPayload, header_toList] at this
      simp at this
    · exact fun hc => (isHexDigit_lt (hdigest _ hc)).2 rfl
    · rw [List.any_eq_false]
      intro c hc
      have := (isHexDigit_lt (hdigest c hc)).1
      simpa using this

namespace Sample

/-- A text as digits after an `f`; the digest of the sample's first event begins with another character. -/
def spell (text : String) : List Char :=
  'f' :: Nat.toDigits 10 (Encodable.encode (text.toList.map Char.toNat))

/-- The environment with a digest function that is injective, and agrees with HMAC on the first event. -/
def injectiveEnv : Env where
  __ := env
  hmacSha256 _ message :=
    if message = "1767225600." ++ Event.created.body then Event.created.digest else String.ofList (spell message)

theorem spell_inj {a b : String} (h : spell a = spell b) : a = b := by
  have hcodes := Encodable.encode_injective (toDigits_inj (List.cons.inj h).2)
  have hchars := List.map_injective_iff.2 (fun c c' hc => Char.toNat_inj.1 hc) hcodes
  exact String.toList_inj.1 hchars

theorem ofList_spell_ne (text : String) : String.ofList (spell text) ≠ Event.created.digest := by
  intro h
  have hlist := congrArg (fun s => s.toList.head?) h
  rw [String.toList_ofList] at hlist
  have hfirst : Event.created.digest.toList.head? = some '7' := by decide +kernel
  rw [hfirst] at hlist
  exact absurd (Option.some.inj hlist) (by decide)

theorem injective_digest : Function.Injective (injectiveEnv.hmacSha256 "change-me") := by
  intro a b h
  unfold injectiveEnv at h
  dsimp only at h
  split at h <;> rename_i ha
  · split at h <;> rename_i hb
    · rw [ha, hb]
    · exact absurd h.symm (ofList_spell_ne b)
  · split at h
    · exact absurd h (ofList_spell_ne a)
    · exact spell_inj (String.ofList_inj.1 h)

theorem hex_digest (message : String) :
    ∀ c ∈ (injectiveEnv.hmacSha256 "change-me" message).toList, isHexDigit c = true := by
  unfold injectiveEnv
  dsimp only
  split
  · have hall : (Event.created.digest.toList.all isHexDigit) = true := by decide +kernel
    exact List.all_eq_true.1 hall
  · intro c hc
    rw [String.toList_ofList, spell, List.mem_cons] at hc
    rcases hc with rfl | hc
    · decide
    · rw [isHexDigit, isDigit_of_mem hc, Bool.true_or]

theorem digest_created : payloadDigest injectiveEnv "change-me" Event.created.body 1767225600 = Event.created.digest := by
  unfold payloadDigest
  rw [signed_text]
  simp only [injectiveEnv, ↓reduceIte]

theorem header_created : signPayload injectiveEnv "change-me" Event.created.body 1767225600 = Event.created.header := by
  unfold signPayload
  rw [digest_created]
  decide +kernel

private theorem le_sub_of_double {q a b : ℚ} (h : q ≤ b) (hb : 2 * b ≤ a) : q ≤ a - b := by
  linarith

theorem le_maxFloat {q : ℚ} (h : |q| ≤ 2 ^ 64) : |q| ≤ maxFloat := by
  have h971 : (2 : ℚ) ^ 64 ≤ 2 ^ 971 := pow_le_pow_right₀ (by norm_num) (by norm_num)
  have h1024 : (2 : ℚ) ^ 972 ≤ 2 ^ 1024 := pow_le_pow_right₀ (by norm_num) (by norm_num)
  have hdouble : (2 : ℚ) ^ 972 = 2 * 2 ^ 971 := pow_succ' 2 971
  exact le_sub_of_double (h.trans h971) (hdouble ▸ h1024)

end Sample

open Sample in
/-- The header of the first event is accepted with its body a minute later, and with the second event's body never. -/
theorem signature_binds_created :
    verify injectiveEnv "change-me" 1767225660 (some Event.created.header) Event.created.body.toUTF8 =
      .ok Event.created.body.toUTF8 ∧
    ∀ clock accepted, verify injectiveEnv "change-me" clock (some Event.created.header) Event.approved.body.toUTF8 ≠
      .ok accepted := by
  obtain ⟨hbinds, haccepts⟩ := signature_binds injective_digest hex_digest
  refine ⟨?_, fun clock accepted hok => ?_⟩
  · rw [← header_created]
    exact haccepts 1767225600 Event.created.body 1767225660 (le_maxFloat (by norm_num)) (by norm_num)
  · have hv1 : effectivePart Event.created.header "v1" =
        some (payloadDigest injectiveEnv "change-me" Event.created.body 1767225600) := by
      rw [digest_created]
      decide +kernel
    exact @body_ne _ .created (by decide) (hbinds _ _ _ _ _ _ hv1 hok).1

/-! ### What escapes -/

/-- The header parses, and after that comes an exception that nothing catches: the timestamp is no `float`, or it is
within the tolerance and the body is not UTF-8 or the signature not ASCII. -/
def Escapes (clock : ℚ) (header : Option String) (rawBody : ByteArray) : Prop :=
  ∃ h timestamp provided, header = some h ∧ parseHeader h = some (timestamp, provided) ∧
    (overflowsFloat timestamp = true ∨ |clock - timestamp| ≤ (signatureToleranceSeconds : ℚ) ∧
      (String.fromUTF8? rawBody = none ∨ ∃ c ∈ provided.toList, 128 ≤ c.toNat))

/-- The two ways in which the gate should answer. -/
def Closed (env : Env) (secret : String) (clock : ℚ) (header : Option String) (rawBody : ByteArray) : Prop :=
  verify env secret clock header rawBody = .ok rawBody ∨
    ∃ code message, verify env secret clock header rawBody = .error (.httpException 401 (.error code message))

theorem not_closed {env : Env} {secret : String} {clock : ℚ} {header : Option String} {rawBody : ByteArray} {e : Exc}
    (h : verify env secret clock header rawBody = .error e) (he : ∀ code message, e ≠ .httpException 401 (.error code message)) :
    ¬ Closed env secret clock header rawBody := by
  rintro (hok | ⟨code, message, herror⟩)
  · rw [h] at hok
    cases hok
  · rw [h] at herror
    exact he code message (Except.error.inj herror)

/-- A header that parses is dealt with in three steps. -/
theorem verify_parsed {env : Env} {secret h provided : String} {clock : ℚ} {timestamp : Int} {rawBody : ByteArray}
    (hparse : parseHeader h = some (timestamp, provided)) : verify env secret clock (some h) rawBody =
      if overflowsFloat timestamp then .error .overflowError
      else if (signatureToleranceSeconds : ℚ) < |clock - timestamp| then
        .error (signatureError "signature_expired" "Webhook timestamp is outside the tolerance window")
      else match String.fromUTF8? rawBody with
        | none => .error .unicodeDecodeError
        | some text =>
          if provided.toList.any (fun c => 128 ≤ c.toNat) then .error .typeError
          else if payloadDigest env secret text timestamp = provided then .ok rawBody
          else .error (signatureError "invalid_signature" "Signature verification failed") := by
  have hne : h ≠ "" := by
    rintro rfl
    have hnone : parseHeader "" = none := by decide
    rw [hnone] at hparse
    cases hparse
  have hfilter : (some h).filter (· ≠ "") = some h := by simp [Option.filter, hne]
  unfold verify
  rw [hfilter]
  dsimp only
  exact hparse ▸ rfl

theorem not_closed_of_escapes {env : Env} {secret : String} {clock : ℚ} {header : Option String} {rawBody : ByteArray}
    (h : Escapes clock header rawBody) : ¬ Closed env secret clock header rawBody := by
  obtain ⟨h, timestamp, provided, rfl, hparse, hescapes⟩ := h
  have hverify := @verify_parsed env secret h provided clock timestamp rawBody hparse
  by_cases hfloat : overflowsFloat timestamp = true
  · rw [if_pos hfloat] at hverify
    exact not_closed hverify fun _ _ => Exc.noConfusion
  · obtain ⟨hclock, hrest⟩ := hescapes.resolve_left hfloat
    rw [if_neg hfloat, if_neg (not_lt.2 hclock)] at hverify
    cases htext : String.fromUTF8? rawBody with
    | none =>
      rw [htext] at hverify
      exact not_closed hverify fun _ _ => Exc.noConfusion
    | some text =>
      rw [htext] at hverify hrest
      obtain ⟨c, hc, hbig⟩ := hrest.resolve_left (Option.some_ne_none _)
      have hany : provided.toList.any (fun c => 128 ≤ c.toNat) = true := List.any_eq_true.2 ⟨c, hc, by simpa using hbig⟩
      dsimp only at hverify
      rw [if_pos hany] at hverify
      exact not_closed hverify fun _ _ => Exc.noConfusion

/-- The gate answers with the body or with 401 exactly when nothing escapes. -/
theorem fails_closed (env : Env) (secret : String) (clock : ℚ) (header : Option String) (rawBody : ByteArray) :
    Closed env secret clock header rawBody ↔ ¬ Escapes clock header rawBody := by
  refine ⟨fun hclosed hescapes => not_closed_of_escapes hescapes hclosed, fun hno => ?_⟩
  cases header with
  | none => exact Or.inr ⟨_, _, rfl⟩
  | some h =>
    cases hparse : parseHeader h with
    | none =>
      refine Or.inr ?_
      by_cases hempty : h = ""
      · subst hempty
        exact ⟨_, _, rfl⟩
      · have hfilter : (some h).filter (· ≠ "") = some h := by simp [Option.filter, hempty]
        refine ⟨"malformed_signature", s!"Could not parse {signatureHeader} header", ?_⟩
        unfold verify
        simp only [hfilter, hparse]
        rfl
    | some parsed =>
      obtain ⟨timestamp, provided⟩ := parsed
      have hverify := @verify_parsed env secret h provided clock timestamp rawBody hparse
      have hfloat : ¬ overflowsFloat timestamp = true := fun hf => hno ⟨h, timestamp, provided, rfl, hparse, Or.inl hf⟩
      rw [if_neg hfloat] at hverify
      by_cases hclock : (signatureToleranceSeconds : ℚ) < |clock - timestamp|
      · rw [if_pos hclock] at hverify
        exact Or.inr ⟨_, _, hverify⟩
      · rw [if_neg hclock] at hverify
        have hrest : ¬ (String.fromUTF8? rawBody = none ∨ ∃ c ∈ provided.toList, 128 ≤ c.toNat) := fun hr =>
          hno ⟨h, timestamp, provided, rfl, hparse, Or.inr ⟨not_lt.1 hclock, hr⟩⟩
        rw [not_or] at hrest
        obtain ⟨text, htext⟩ := Option.ne_none_iff_exists'.1 hrest.1
        have hany : ¬ provided.toList.any (fun c => 128 ≤ c.toNat) = true := fun hany => by
          obtain ⟨c, hc, hbig⟩ := List.any_eq_true.1 hany
          exact hrest.2 ⟨c, hc, by simpa using hbig⟩
        rw [htext] at hverify
        dsimp only at hverify
        rw [if_neg hany] at hverify
        by_cases hdigest : payloadDigest env secret text timestamp = provided
        · rw [if_pos hdigest] at hverify
          exact Or.inl hverify
        · rw [if_neg hdigest] at hverify
          exact Or.inr ⟨_, _, hverify⟩

/-- A header with a timestamp of 310 digits. -/
def Sample.hugeTimestamp : String := String.ofList ("t=1".toList ++ List.replicate 309 '0' ++ ",v1=00".toList)

/-- A signature that is not ASCII, a body that is not UTF-8, a timestamp beyond `float`. -/
theorem escapes_401 :
    verify Sample.env "change-me" 1767225600 (some "t=1767225600,v1=\u00e9") ⟨#[]⟩ = .error .typeError ∧
    verify Sample.env "change-me" 1767225600 (some "t=1767225600,v1=00") ⟨#[255]⟩ = .error .unicodeDecodeError ∧
    verify Sample.env "change-me" 1767225600 (some Sample.hugeTimestamp) ⟨#[]⟩ = .error .overflowError ∧
    ¬ Closed Sample.env "change-me" 1767225600 (some "t=1767225600,v1=\u00e9") ⟨#[]⟩ := by
  have hclock : ¬ (signatureToleranceSeconds : ℚ) < |1767225600 - ((1767225600 : Int) : ℚ)| := by
    norm_num [signatureToleranceSeconds]
  have hfloat : ¬ overflowsFloat 1767225600 = true := by decide +kernel
  have hascii : verify Sample.env "change-me" 1767225600 (some "t=1767225600,v1=\u00e9") ⟨#[]⟩ = .error .typeError := by
    have hparse : parseHeader "t=1767225600,v1=\u00e9" = some (1767225600, "\u00e9") := by decide +kernel
    have htext : String.fromUTF8? ⟨#[]⟩ = some "" := by decide +kernel
    have hany : "\u00e9".toList.any (fun c => 128 ≤ c.toNat) = true := by decide +kernel
    rw [verify_parsed hparse, if_neg hfloat, if_neg hclock, htext]
    dsimp only
    rw [if_pos hany]
  refine ⟨hascii, ?_, ?_, not_closed hascii fun _ _ => Exc.noConfusion⟩
  · have hparse : parseHeader "t=1767225600,v1=00" = some (1767225600, "00") := by decide +kernel
    have htext : String.fromUTF8? ⟨#[255]⟩ = none := by decide +kernel
    rw [verify_parsed hparse, if_neg hfloat, if_neg hclock, htext]
  · have hhuge : Sample.hugeTimestamp = "t=" ++ toString (10 ^ 309 : Int) ++ ",v1=" ++ "00" := by decide +kernel
    have hparse : parseHeader Sample.hugeTimestamp = some (10 ^ 309, "00") :=
      (congrArg parseHeader hhuge).trans (parseHeader_text (by decide) (by decide +kernel))
    rw [verify_parsed hparse, if_pos (by decide +kernel)]

end GenPay
