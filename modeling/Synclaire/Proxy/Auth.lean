import Synclaire.Error
import Synclaire.Proxy.Base64

set_option relaxedAutoImplicit false
set_option autoImplicit false

/-!
# Proxy credentials

## Main definitions

* `Synclaire.ProxyAuth` — the credentials a proxy asks for.
* `Synclaire.ProxyAuth.encodeHeader` — the header value for the credentials.
* `Synclaire.ProxyAuth.validateHeader` — the check of a header value.
* `Synclaire.ProxyAuth.credentialsOf` — the credentials that a header value shows.

## Main results

* `Synclaire.ProxyAuth.validateHeader_iff` — which credentials are accepted.
* `Synclaire.ProxyAuth.of_validateHeader` — an accepted header value carries the credentials.
* `Synclaire.ProxyAuth.validateHeader_basicHeader` — what a client sends is accepted.
* `Synclaire.ProxyAuth.headerAgrees_iff` — when header validation agrees with direct validation.
-/

namespace Synclaire

/-- `ProxyAuth`. -/
inductive ProxyAuth
  | none
  | basic (username password : Str)
  deriving DecidableEq

namespace ProxyAuth

/-- `ProxyAuth::validate_header`. -/
def validateHeader (auth : ProxyAuth) (header : Str) : Bool :=
  match auth with
  | .none => false
  | .basic expectedUser expectedPass =>
    match stripPrefix "Basic ".toList header with
    | Option.none => false
    | some payload =>
      match Base64.decode payload with
      | .error _ => false
      | .ok decoded =>
        match Utf8.fromUtf8 decoded with
        | Option.none => false
        | some credentials =>
          match splitOnce ':' credentials with
          | Option.none => false
          | some (user, pass) => user = expectedUser && pass = expectedPass

/-- The value of the header for a user and a password. -/
def basicHeader (user pass : Str) : Str := "Basic ".toList ++ Base64.encode (user ++ ':' :: pass)

/-- `ProxyAuth::encode_header`. -/
def encodeHeader : ProxyAuth → Option Str
  | .none => Option.none
  | .basic user pass => some (basicHeader user pass)

/-- `ProxyAuth::validate`. -/
def validate (auth : ProxyAuth) (username password : Str) : Bool :=
  match auth with
  | .none => true
  | .basic user pass => username = user && password = pass

/-- The user and the password that a header value shows, if it shows any. -/
def credentialsOf (header : Str) : Option (Str × Str) :=
  (stripPrefix "Basic ".toList header).bind fun payload =>
    match Base64.decode payload with
    | .error _ => Option.none
    | .ok decoded => (Utf8.fromUtf8 decoded).bind (splitOnce ':')

/-- A header value is accepted iff the credentials asked for are the ones it shows. -/
theorem validateHeader_iff {auth : ProxyAuth} {header : Str} :
    auth.validateHeader header = true ↔
      ∃ u p, auth = .basic u p ∧ credentialsOf header = some (u, p) := by
  cases auth with
  | none => simp [validateHeader]
  | basic u p =>
    unfold validateHeader credentialsOf
    dsimp only
    cases stripPrefix "Basic ".toList header with
    | none => simp
    | some payload =>
      simp only [Option.bind_some]
      cases Base64.decode payload with
      | error err => simp
      | ok decoded =>
        simp only
        cases Utf8.fromUtf8 decoded with
        | none => simp
        | some credentials =>
          simp only [Option.bind_some]
          cases splitOnce ':' credentials with
          | none => simp
          | some parts =>
            obtain ⟨user, pass⟩ := parts
            simp only [Bool.and_eq_true, decide_eq_true_eq]
            constructor
            · rintro ⟨rfl, rfl⟩
              exact ⟨_, _, rfl, rfl⟩
            · rintro ⟨u', p', hauth, hparts⟩
              cases hauth
              cases hparts
              exact ⟨rfl, rfl⟩

/-- The header value is `Basic ` and a text that decodes to the user, a colon and the
password. -/
def Carries (u p header : Str) : Prop :=
  ∃ payload : Str, header = "Basic ".toList ++ payload ∧
    Base64.decode payload = .ok (Utf8.encode (u ++ ':' :: p))

/-- **An accepted header value carries the credentials.** -/
theorem of_validateHeader {u p header : Str} (h : (basic u p).validateHeader header = true) :
    Carries u p header := by
  unfold validateHeader at h
  dsimp only at h
  cases hpayload : stripPrefix "Basic ".toList header with
  | none => rw [hpayload] at h; cases h
  | some payload =>
    rw [hpayload] at h
    dsimp only at h
    cases hdecoded : Base64.decode payload with
    | error err => rw [hdecoded] at h; cases h
    | ok decoded =>
      rw [hdecoded] at h
      dsimp only at h
      cases hcredentials : Utf8.fromUtf8 decoded with
      | none => rw [hcredentials] at h; cases h
      | some credentials =>
        rw [hcredentials] at h
        dsimp only at h
        cases hparts : splitOnce ':' credentials with
        | none => rw [hparts] at h; cases h
        | some parts =>
          rw [hparts] at h
          obtain ⟨huser, hpass⟩ := Bool.and_eq_true_iff.mp h
          have hjoined := (eq_append_of_splitOnce hparts).1
          rw [of_decide_eq_true huser, of_decide_eq_true hpass] at hjoined
          refine ⟨payload, stripPrefix_eq_some_iff.mp hpayload, ?_⟩
          rw [hdecoded, ← hjoined, Utf8.encode_of_fromUtf8 hcredentials]

/-- The encoder joins the user and the password with a colon, and the decoder splits at the first
one. -/
theorem credentialsOf_basicHeader_eq (u p : Str) :
    credentialsOf (basicHeader u p) = splitOnce ':' (u ++ ':' :: p) := by
  have hpayload : stripPrefix "Basic ".toList (basicHeader u p) =
      some (Base64.encode (u ++ ':' :: p)) := stripPrefix_eq_some_iff.mpr rfl
  unfold credentialsOf
  simp only [hpayload, Option.bind_some, Base64.decode_encode, Utf8.fromUtf8_encode]

/-- **The credentials that an encoded header shows** are those that it was made from, if the user
has no colon in its name. -/
theorem credentialsOf_basicHeader {u : Str} (hu : ':' ∉ u) (p : Str) :
    credentialsOf (basicHeader u p) = some (u, p) := by
  rw [credentialsOf_basicHeader_eq, splitOnce_append_cons hu]

/-- The header that a client sends is accepted. -/
theorem validateHeader_basicHeader {u : Str} (hu : ':' ∉ u) (p : Str) :
    (basic u p).validateHeader (basicHeader u p) = true :=
  validateHeader_iff.mpr ⟨u, p, rfl, credentialsOf_basicHeader hu p⟩

/-! ## Header validation against direct validation -/

/-- Direct validation compares both parts. -/
theorem validate_iff {u₁ p₁ u₂ p₂ : Str} :
    (basic u₂ p₂).validate u₁ p₁ = true ↔ u₁ = u₂ ∧ p₁ = p₂ := by
  unfold validate
  dsimp only
  rw [Bool.and_eq_true, decide_eq_true_eq, decide_eq_true_eq]

/-- Which encoded header values are accepted: those with the same joined credentials, if the user
asked for has no colon in its name. -/
theorem validateHeader_basicHeader_iff {u₁ p₁ u₂ p₂ : Str} :
    (basic u₂ p₂).validateHeader (basicHeader u₁ p₁) = true ↔
      u₁ ++ ':' :: p₁ = u₂ ++ ':' :: p₂ ∧ ':' ∉ u₂ := by
  rw [validateHeader_iff, credentialsOf_basicHeader_eq, ← splitOnce_eq_some_iff]
  constructor
  · rintro ⟨u, p, hauth, hshown⟩
    obtain ⟨rfl, rfl⟩ := basic.inj hauth
    exact hshown
  · intro hshown
    exact ⟨u₂, p₂, rfl, hshown⟩

/-- The header value made from the first credentials is accepted for the second ones exactly if
direct validation accepts the first for the second, that is, exactly if they are the same. -/
def HeaderAgrees (u₁ p₁ u₂ p₂ : Str) : Prop :=
  ∃ header, (basic u₁ p₁).encodeHeader = some header ∧
    ((basic u₂ p₂).validateHeader header = true ↔ (basic u₂ p₂).validate u₁ p₁ = true) ∧
    ((basic u₂ p₂).validate u₁ p₁ = true ↔ u₁ = u₂ ∧ p₁ = p₂)

/-- **Header validation agrees with direct validation** exactly if the first user has no colon in
its name, or the joined credentials differ, or both users have one and differ.

**Proof sketch.** Without a colon in the first name, equal joined texts split into equal parts.
With one, the second credentials are accepted if they are the parts at the first colon, which
are not the first credentials, and the first credentials themselves are not accepted. -/
theorem headerAgrees_iff (u₁ p₁ u₂ p₂ : Str) :
    HeaderAgrees u₁ p₁ u₂ p₂ ↔
      ':' ∉ u₁ ∨ (u₁ ++ ':' :: p₁ = u₂ ++ ':' :: p₂ → ':' ∈ u₂ ∧ u₁ ≠ u₂) := by
  have hsame : ∀ {v q : Str}, ':' ∉ v → u₁ ++ ':' :: p₁ = v ++ ':' :: q → ':' ∉ u₁ →
      u₁ = v ∧ p₁ = q := by
    intro v q hv hjoin hu
    have hsplit := splitOnce_append_cons hv q
    rw [← hjoin, splitOnce_append_cons hu] at hsplit
    exact Prod.mk.inj (Option.some.inj hsplit)
  unfold HeaderAgrees
  simp only [encodeHeader, Option.some.injEq, exists_eq_left', validate_iff,
    validateHeader_basicHeader_iff, and_true]
  by_cases hu : ':' ∈ u₁
  · simp only [hu, not_true_eq_false, false_or]
    constructor
    · intro hiff hjoin
      have hne : u₁ ≠ u₂ := by
        rintro rfl
        obtain rfl : p₁ = p₂ := by simpa using hjoin
        exact (hiff.mpr ⟨rfl, rfl⟩).2 hu
      exact ⟨by_contra fun hu₂ => hne (hiff.mp ⟨hjoin, hu₂⟩).1, hne⟩
    · intro hcond
      constructor
      · rintro ⟨hjoin, hu₂⟩
        exact absurd (hcond hjoin).1 hu₂
      · rintro ⟨rfl, rfl⟩
        exact absurd rfl (hcond rfl).2
  · simp only [hu, not_false_eq_true, true_or, iff_true]
    constructor
    · rintro ⟨hjoin, hu₂⟩
      exact hsame hu₂ hjoin hu
    · rintro ⟨rfl, rfl⟩
      exact ⟨rfl, hu⟩

/-- **A user that cannot log in**: the header of user `a:b` with password `c` is refused for
these very credentials, and it is accepted for user `a` with password `b:c`. -/
theorem not_headerAgrees_colon :
    ¬ HeaderAgrees "a:b".toList "c".toList "a:b".toList "c".toList ∧
      ¬ HeaderAgrees "a:b".toList "c".toList "a".toList "b:c".toList := by
  rw [headerAgrees_iff, headerAgrees_iff]
  decide

/-! ## The header as a line -/

/-- The characters that the encoder writes are printable, and no white space. -/
theorem printable_of_mem_encode :
    ∀ c ∈ '=' :: Base64.base64Chars,
      (0x20 ≤ c.toNat ∧ c.toNat < 0x7F) ∧ isWhitespace c = false := by
  have hall : (('=' :: Base64.base64Chars).all fun c =>
      (0x20 ≤ c.toNat ∧ c.toNat < 0x7F) ∧ isWhitespace c = false) = true := by decide +kernel
  exact fun c hc => of_decide_eq_true (List.all_eq_true.mp hall c hc)

/-- The header is printable. -/
theorem basicHeader_printable (u p : Str) : Printable (basicHeader u p) := by
  have hbasic : Printable "Basic ".toList := by decide
  exact hbasic.append fun c hc => (printable_of_mem_encode c (Base64.mem_encode hc)).1

/-- There is nothing to trim in the header. -/
theorem trim_basicHeader (u p : Str) : trim (basicHeader u p) = basicHeader u p := by
  have hne : Base64.encode (u ++ ':' :: p) ≠ [] := Base64.encode_ne_nil (by simp)
  apply trim_eq_self
  · intro c hc
    obtain rfl : 'B' = c := Option.some.inj hc
    decide
  · have hlast : (basicHeader u p).getLast? = (Base64.encode (u ++ ':' :: p)).getLast? :=
      List.getLast?_append_of_ne_nil _ hne
    intro c hc
    have hmem := List.mem_of_getLast? (hlast.symm.trans hc)
    exact (printable_of_mem_encode c (Base64.mem_encode hmem)).2

end ProxyAuth

end Synclaire
