import MibServer.Billing.Service

/-!
The headers a signature check accepts.

`Buffer.from(text, 'hex')` decodes as many pairs of digits as it finds and drops the rest
without an error, so the check compares the digest with a prefix of the header:
`verify_iff_leading` is what it accepts, and `verify_exact_iff` says when that is the hex form
of the digest and nothing else.
-/

namespace MibServer.Billing

/-! ### Hex digits -/

/-- A byte as `digest('hex')` writes it. -/
def hexPair (byte : UInt8) : List Char :=
  [Nat.digitChar (byte.toNat / 16), Nat.digitChar (byte.toNat % 16)]

def toHex (bytes : List UInt8) : List Char := bytes.flatMap hexPair

theorem hexDigit?_ascii :
    ∀ n < 128, ∀ x < 16, hexDigit? (Char.ofNat n) = some x ↔ (Char.ofNat n).toLower = Nat.digitChar x := by
  decide +kernel

theorem hexDigit?_ascii_lt : ∀ n < 128, ∀ x ∈ hexDigit? (Char.ofNat n), x < 16 := by
  decide +kernel

theorem digitChar_ascii : ∀ x < 16, (Nat.digitChar x).toNat < 128 := by
  decide +kernel

theorem hexDigit?_eq_none {c : Char} (h : 128 ≤ c.toNat) : hexDigit? c = none := by
  have hle : ∀ d : Char, d.toNat < 128 → ¬ c ≤ d := by
    intro d hd hcd
    have hnat : c.toNat ≤ d.toNat := Char.le_def.mp hcd
    omega
  unfold hexDigit?
  rw [if_neg fun hrange => hle _ (by decide) hrange.2, if_neg fun hrange => hle _ (by decide) hrange.2,
    if_neg fun hrange => hle _ (by decide) hrange.2]

/-- A digit in either letter case. -/
theorem hexDigit?_eq_some_iff {c : Char} {x : Nat} :
    hexDigit? c = some x ↔ x < 16 ∧ c.toLower = Nat.digitChar x := by
  by_cases hascii : c.toNat < 128
  · have hc : Char.ofNat c.toNat = c := Char.ofNat_toNat c
    constructor
    · intro h
      have hlt := hexDigit?_ascii_lt c.toNat hascii x (by rw [hc]; exact h)
      exact ⟨hlt, by simpa [hc] using (hexDigit?_ascii c.toNat hascii x hlt).mp (by rw [hc]; exact h)⟩
    · rintro ⟨hlt, hlower⟩
      simpa [hc] using (hexDigit?_ascii c.toNat hascii x hlt).mpr (by rw [hc]; exact hlower)
  · rw [hexDigit?_eq_none (Nat.not_lt.mp hascii)]
    constructor
    · intro h
      cases h
    · rintro ⟨hlt, hlower⟩
      have hsame : c.toLower = c := by
        unfold Char.toLower
        split
        · rename_i hupper
          have hnat : c.toNat ≤ 90 := hupper.2
          omega
        · rfl
      have hdigit := digitChar_ascii x hlt
      rw [← hlower, hsame] at hdigit
      omega

/-! ### Decoding -/

theorem bufferFromHex_eq_cons_iff {a c : Char} {rest : List Char} {byte : Nat} {bytes : List Nat} :
    bufferFromHex (a :: c :: rest) = byte :: bytes ↔
      ∃ x y, hexDigit? a = some x ∧ hexDigit? c = some y ∧ 16 * x + y = byte ∧
        bufferFromHex rest = bytes := by
  rw [bufferFromHex]
  cases ha : hexDigit? a with
  | none => simp
  | some x =>
      cases hc : hexDigit? c with
      | none => simp
      | some y => simp

theorem length_toHex (bytes : List UInt8) : (toHex bytes).length = 2 * bytes.length := by
  induction bytes with
  | nil => rfl
  | cons byte bytes ih =>
      unfold toHex at *
      rw [List.flatMap_cons, List.length_append, ih, List.length_cons]
      simp only [hexPair, List.length_cons, List.length_nil]
      omega

theorem hexPair_iff {a c : Char} {byte : UInt8} :
    (∃ x y, hexDigit? a = some x ∧ hexDigit? c = some y ∧ 16 * x + y = byte.toNat) ↔
      [a.toLower, c.toLower] = hexPair byte := by
  have hbyte : byte.toNat < 256 := byte.toNat_lt
  simp only [hexDigit?_eq_some_iff, hexPair, List.cons.injEq, and_true]
  constructor
  · rintro ⟨x, y, ⟨hx, ha⟩, ⟨hy, hc⟩, hsum⟩
    have hhigh : byte.toNat / 16 = x := by omega
    have hlow : byte.toNat % 16 = y := by omega
    rw [hhigh, hlow]
    exact ⟨ha, hc⟩
  · rintro ⟨ha, hc⟩
    exact ⟨_, _, ⟨by omega, ha⟩, ⟨by omega, hc⟩, by omega⟩

/-- A text decodes to the bytes if it begins with their digits, in any letter case, and no
further byte follows. -/
theorem bufferFromHex_eq_iff {bytes : List UInt8} {text : List Char} :
    bufferFromHex text = bytes.map UInt8.toNat ↔
      (text.take (2 * bytes.length)).map Char.toLower = toHex bytes ∧
        bufferFromHex (text.drop (2 * bytes.length)) = [] := by
  induction bytes generalizing text with
  | nil => simp [toHex]
  | cons byte bytes ih =>
      have hdigits : toHex (byte :: bytes) = hexPair byte ++ toHex bytes := List.flatMap_cons
      match text with
      | [] =>
          rw [hdigits]
          simp [bufferFromHex, hexPair]
      | [a] =>
          rw [hdigits]
          simp [bufferFromHex, hexPair, List.take_succ_cons, Nat.mul_add]
      | a :: c :: rest =>
          have hlength : 2 * (byte :: bytes).length = 2 * bytes.length + 2 := by
            rw [List.length_cons, Nat.mul_add]
          rw [List.map_cons, bufferFromHex_eq_cons_iff, hlength, hdigits]
          simp only [List.take_succ_cons, List.drop_succ_cons, List.map_cons]
          have hhead : (a.toLower :: c.toLower :: (rest.take (2 * bytes.length)).map Char.toLower =
              hexPair byte ++ toHex bytes) ↔ [a.toLower, c.toLower] = hexPair byte ∧
                (rest.take (2 * bytes.length)).map Char.toLower = toHex bytes := by
            simp [hexPair, and_assoc]
          rw [hhead, ← hexPair_iff, and_assoc, ← ih]
          constructor
          · rintro ⟨x, y, ha, hc, hsum, hrest⟩
            exact ⟨⟨x, y, ha, hc, hsum⟩, hrest⟩
          · rintro ⟨⟨x, y, ha, hc, hsum⟩, hrest⟩
            exact ⟨x, y, ha, hc, hsum, hrest⟩

/-- The digits of bytes decode to the bytes. -/
theorem bufferFromHex_toHex (bytes : List UInt8) :
    bufferFromHex (toHex bytes) = bytes.map UInt8.toNat := by
  induction bytes with
  | nil => rfl
  | cons byte bytes ih =>
      have hbyte : byte.toNat < 256 := byte.toNat_lt
      have hlower : ∀ x < 16, (Nat.digitChar x).toLower = Nat.digitChar x := by
        decide +kernel
      unfold toHex at *
      rw [List.flatMap_cons, hexPair, List.cons_append, List.cons_append, List.nil_append,
        List.map_cons, bufferFromHex_eq_cons_iff]
      exact ⟨byte.toNat / 16, byte.toNat % 16,
        hexDigit?_eq_some_iff.mpr ⟨by omega, hlower _ (by omega)⟩,
        hexDigit?_eq_some_iff.mpr ⟨by omega, hlower _ (by omega)⟩, by omega, ih⟩

/-! ### The check -/

/-- The header without the white space around it and without the scheme. -/
def normalizedSignature (signature : String) : List Char := stripScheme (trim signature).toList

/-- The platform whose HMAC is the given function. -/
def Platform.withHmac (platform : Platform) (hmac : String → String → Vector UInt8 32) : Platform :=
  { platform with hmacSha256 := fun secret payload => String.ofList (toHex (hmac secret payload).toList) }

/-- The hex form of the digest, in any letter case. -/
def IsHexForm (digest : Vector UInt8 32) (text : List Char) : Prop :=
  text.map Char.toLower = toHex digest.toList

/-- The text goes on after the first 64 characters, and not with two digits. -/
def StopsAfterDigest (text : List Char) : Prop :=
  64 < text.length ∧ bufferFromHex (text.drop 64) = []

instance (text : List Char) : Decidable (StopsAfterDigest text) :=
  inferInstanceAs (Decidable (_ ∧ _))

section Check

variable {platform : Platform} {hmac : String → String → Vector UInt8 32}
  {payload secret signature : String}

/-- What the check accepts: a header that begins with the digits of the digest, without
another byte after them. -/
theorem verify_iff_leading (hsecret : secret ≠ "") :
    (platform.withHmac hmac).verifyPaymentCallbackSignature payload (some signature) secret = true ↔
      IsHexForm (hmac secret payload) ((normalizedSignature signature).take 64) ∧
        bufferFromHex ((normalizedSignature signature).drop 64) = [] := by
  have hlength : (hmac secret payload).toList.length = 32 := Vector.length_toList
  have hexpected : bufferFromHex
      ((platform.withHmac hmac).signPaymentCallback payload secret).toList =
        (hmac secret payload).toList.map UInt8.toNat := by
    simp only [Platform.signPaymentCallback, Platform.withHmac, String.toList_ofList]
    exact bufferFromHex_toHex _
  have hdecodes : bufferFromHex (normalizedSignature signature) =
      (hmac secret payload).toList.map UInt8.toNat ↔
        IsHexForm (hmac secret payload) ((normalizedSignature signature).take 64) ∧
          bufferFromHex ((normalizedSignature signature).drop 64) = [] := by
    rw [bufferFromHex_eq_iff, hlength]
    rfl
  rw [← hdecodes]
  unfold Platform.verifyPaymentCallbackSignature
  by_cases hempty : trim signature = ""
  · simp only [hempty, true_or, if_true, Bool.false_eq_true, false_iff]
    intro h
    have hnone : normalizedSignature signature = [] := by
      simp [normalizedSignature, hempty, stripScheme]
    rw [hnone] at h
    have hlengths := congrArg List.length h
    rw [List.length_map, hlength] at hlengths
    cases hlengths
  · simp only [hempty, hsecret, or_self, if_false, hexpected, beq_iff_eq]
    rfl

theorem isHexForm_length {digest : Vector UInt8 32} {text : List Char} (h : IsHexForm digest text) :
    text.length = 64 := by
  have hlength := congrArg List.length h
  rw [List.length_map, length_toHex, Vector.length_toList] at hlength
  exact hlength

/-- **What the check accepts, exactly.** It accepts a header if and only if that is the hex
form of the digest and nothing else, unless the header is the 64 digits of the digest and
goes on with anything but two hexadecimal digits. -/
theorem verify_exact_iff (platform : Platform) (hmac : String → String → Vector UInt8 32)
    (payload signature : String) {secret : String} (hsecret : secret ≠ "") :
    ((platform.withHmac hmac).verifyPaymentCallbackSignature payload (some signature) secret = true ↔
        IsHexForm (hmac secret payload) (normalizedSignature signature)) ↔
      ¬ (IsHexForm (hmac secret payload) ((normalizedSignature signature).take 64) ∧
        StopsAfterDigest (normalizedSignature signature)) := by
  rw [verify_iff_leading hsecret]
  have hwhole : IsHexForm (hmac secret payload) (normalizedSignature signature) ↔
      IsHexForm (hmac secret payload) ((normalizedSignature signature).take 64) ∧
        (normalizedSignature signature).length ≤ 64 := by
    constructor
    · intro h
      have hlength := Nat.le_of_eq (isHexForm_length h)
      rw [List.take_of_length_le hlength]
      exact ⟨h, hlength⟩
    · rintro ⟨h, hlength⟩
      rwa [List.take_of_length_le hlength] at h
  rw [hwhole]
  unfold StopsAfterDigest
  constructor
  · rintro hiff ⟨hform, hlong, hstops⟩
    have hshort := (hiff.mp ⟨hform, hstops⟩).2
    omega
  · intro hnot
    refine and_congr_right fun hform => ⟨fun hstops => ?_, fun hshort => ?_⟩
    · by_contra hlong
      exact hnot ⟨hform, by omega, hstops⟩
    · rw [List.drop_of_length_le hshort]
      rfl

end Check

/-! ### The documented signature -/

/-- The bytes of `PAYMENT_SIGNATURE_EXAMPLE`. -/
def exampleDigest : Vector UInt8 32 :=
  #v[0xcf, 0x64, 0xde, 0x0a, 0x14, 0x5b, 0x2a, 0xa4, 0x51, 0x99, 0xd0, 0x84, 0xd7, 0x2e, 0xd3, 0x69,
    0xa6, 0x3f, 0x2a, 0xbb, 0xe0, 0x2a, 0x29, 0x8d, 0xb8, 0xd7, 0x8a, 0x47, 0xac, 0x32, 0x7f, 0x6d]

theorem verify_exact_documented :
    ((examplePlatform.withHmac fun _ _ => exampleDigest).verifyPaymentCallbackSignature
        (buildPaymentCallbackSignPayload PAYMENT_CALLBACK_PAID_REQUEST_EXAMPLE)
        (some ("SHA256=" ++ PAYMENT_SIGNATURE_EXAMPLE)) examplePlatform.PAYMENT_WEBHOOK_SECRET = true ↔
      IsHexForm exampleDigest (normalizedSignature ("SHA256=" ++ PAYMENT_SIGNATURE_EXAMPLE))) ∧
    IsHexForm exampleDigest (normalizedSignature ("SHA256=" ++ PAYMENT_SIGNATURE_EXAMPLE)) := by
  constructor
  · refine (verify_exact_iff examplePlatform _ _ _ (by decide)).mpr ?_
    rintro ⟨-, hstops⟩
    revert hstops
    decide +kernel
  · unfold IsHexForm
    decide +kernel

/-- The documented signature with a character behind it. -/
theorem longer_signature_accepted :
    (examplePlatform.withHmac fun _ _ => exampleDigest).verifyPaymentCallbackSignature
        (buildPaymentCallbackSignPayload PAYMENT_CALLBACK_PAID_REQUEST_EXAMPLE)
        (some (PAYMENT_SIGNATURE_EXAMPLE ++ "x")) examplePlatform.PAYMENT_WEBHOOK_SECRET = true ∧
      ¬ IsHexForm exampleDigest (normalizedSignature (PAYMENT_SIGNATURE_EXAMPLE ++ "x")) := by
  constructor
  · decide +kernel
  · intro h
    have hlength := isHexForm_length h
    revert hlength
    decide +kernel

end MibServer.Billing
