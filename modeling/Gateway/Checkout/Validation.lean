import Gateway.Checkout.Addresses
import Gateway.Wallet.Compression

/-!
# Validated extended public keys

`validate_evm_xpub` parses a text without the blanks around it, and looks at the checksum and the
version only; `derive_evm_address` parses the text as it stands, and needs a point in it. So a text
may pass the validation and yet fail at every order: because of a blank in front, or of a payload
that ends early or is on no point. Nor need a payload that takes orders have the form of an extended
public key. The validation is enough exactly when the text decodes as it stands and its payload is
78 bytes with a compressed point at their end (`validated_xpub_takes_orders_iff`).
-/

namespace Gateway

open Foundations Foundations.ShortCurve

/-- What the `base58` package does with characters outside its alphabet: it raises, but for blanks
at the end of the text, which change nothing where they are accepted. -/
structure RejectsOutside (lib : Primitives) : Prop where
  alphabet : ∀ text raw, lib.b58decode text = some raw →
    ∀ c ∈ Base58.rstrip text.toList, c ∈ Base58.alphabet
  rstrip : ∀ text raw, lib.b58decode text = some raw →
    lib.b58decode (String.ofList (Base58.rstrip text.toList)) = some raw

/-! ## Keys on the curve -/

/-- After the head stands the first coordinate of a point. -/
def OnCurve (pubkey : Bytes) : Prop :=
  pubkey ≠ [] ∧ IsSquare ((Bytes.toNat pubkey.tail : ZMod Secp256k1.p) ^ 3 + (7 : ℕ))

/-- A compressed point, as it is defined: 33 bytes with one of the two heads and a reduced first
coordinate of a point. -/
structure IsCompressedPoint (pubkey : Bytes) : Prop where
  length : pubkey.length = 33
  head : pubkey.head? = some 0x02 ∨ pubkey.head? = some 0x03
  lt : Bytes.toNat pubkey.tail < Secp256k1.p
  onCurve : OnCurve pubkey

/-- The payload of an extended public key: 78 bytes, and the last 33 are a compressed point. -/
def IsAccountPayload (payload : Bytes) : Prop :=
  payload.length = 78 ∧ IsCompressedPoint (payload.drop 45)

theorem onCurve_iff {pubkey : Bytes} : OnCurve pubkey ↔ ∃ P, decompressPoint pubkey = some P := by
  rw [← Option.isSome_iff_exists]
  cases pubkey with
  | nil => simp [OnCurve, decompressPoint]
  | cons head xBytes =>
    rw [decompressPoint_isSome]
    simp [OnCurve]

theorem exists_decompressPubkey {pubkey : Bytes} (h : OnCurve pubkey) :
    ∃ xy, decompressPubkey pubkey = some xy := by
  obtain ⟨hne, hsquare⟩ := h
  cases pubkey with
  | nil => exact absurd rfl hne
  | cons head xBytes =>
    rw [List.tail_cons] at hsquare
    obtain ⟨P, hP, hcoords⟩ := coords?_decompressPoint head hsquare
    exact ⟨_, by rw [decompressPubkey, hP, Option.bind_some, hcoords, Option.map_some]⟩

section Keys

variable (lib : Primitives)

/-! ## Public children -/

/-- The sum that `ckd_pub` compresses, for a key with its chain code. -/
def childPoint (key : Bytes × Bytes) (index : ℤ) : Option Secp256k1.Point :=
  (Bytes.ofInt? 4 index).bind fun indexBytes =>
    (decompressPoint key.1).map fun parentPoint =>
      Bytes.toNat ((lib.hmacSha512 key.2 (key.1 ++ indexBytes)).take 32) • Secp256k1.generator +
        parentPoint

/-- A child on the way to the address is the point at infinity. -/
def MeetsInfinity (account : Bytes × Bytes) (index : ℤ) : Prop :=
  childPoint lib account receiveChangeLevel = some 0 ∨
    ∃ change, ckdPub lib account.1 account.2 receiveChangeLevel = some change ∧
      childPoint lib change index = some 0

variable {lib} {key account : Bytes × Bytes} {index : ℤ}

theorem onCurve_of_childPoint {point : Secp256k1.Point}
    (h : childPoint lib key index = some point) : OnCurve key.1 := by
  obtain ⟨indexBytes, -, h⟩ := Option.bind_eq_some_iff.mp h
  obtain ⟨parentPoint, hparent, -⟩ := Option.map_eq_some_iff.mp h
  exact onCurve_iff.mpr ⟨parentPoint, hparent⟩

theorem onCurve_of_ckdPub {child : Bytes × Bytes}
    (h : ckdPub lib key.1 key.2 index = some child) : OnCurve key.1 := by
  unfold ckdPub at h
  split_ifs at h
  obtain ⟨indexBytes, -, h⟩ := Option.bind_eq_some_iff.mp h
  obtain ⟨parentPoint, hparent, -⟩ := Option.bind_eq_some_iff.mp h
  exact onCurve_iff.mpr ⟨parentPoint, hparent⟩

/-- **A key on the curve has a child on the curve** at every index that is not hardened, unless that
is the point at infinity. -/
theorem exists_ckdPub (hindex : 0 ≤ index ∧ index < 2 ^ 31) (hkey : OnCurve key.1)
    (hne : childPoint lib key index ≠ some 0) :
    ∃ child, ckdPub lib key.1 key.2 index = some child ∧ OnCurve child.1 := by
  obtain ⟨parentPoint, hparent⟩ := onCurve_iff.mp hkey
  obtain ⟨i, rfl⟩ := Int.eq_ofNat_of_zero_le hindex.1
  have hsoft : ¬ hardenedOffset ≤ (i : ℤ) := by
    unfold hardenedOffset
    omega
  have hbytes := Bytes.ofInt?_natCast (show i < 256 ^ 4 by omega)
  simp only [childPoint, hbytes, hparent, Option.bind_some, Option.map_some, ne_eq,
    Option.some.injEq] at hne
  obtain ⟨xy, hxy⟩ := Option.ne_none_iff_exists'.mp fun hnone => hne (coords?_eq_none.mp hnone)
  obtain ⟨pubkey, hpubkey⟩ : ∃ pubkey, compressPoint _ = some pubkey :=
    ⟨_, by rw [compressPoint, hxy, Option.map_some]⟩
  simp only [ckdPub, hsoft, if_false, hbytes, hparent, Option.bind_some, hpubkey, Option.map_some]
  exact ⟨_, rfl, onCurve_iff.mpr ⟨_, decompressPoint_compressPoint hpubkey⟩⟩

/-- An account on the curve has an address at every index that is not hardened, unless a child is
the point at infinity. -/
theorem exists_accountAddress (hindex : 0 ≤ index ∧ index < 2 ^ 31) (haccount : OnCurve account.1)
    (hfinite : ¬ MeetsInfinity lib account index) :
    ∃ address, accountAddress lib account index = some address := by
  rw [MeetsInfinity, not_or, not_exists] at hfinite
  obtain ⟨change, hchange, hcurve⟩ :=
    exists_ckdPub (show 0 ≤ receiveChangeLevel ∧ receiveChangeLevel < 2 ^ 31 by decide) haccount
      hfinite.1
  obtain ⟨receive, hreceive, hcurve'⟩ :=
    exists_ckdPub hindex hcurve fun hzero => hfinite.2 change ⟨hchange, hzero⟩
  obtain ⟨xy, hxy⟩ := exists_decompressPubkey hcurve'
  refine ⟨addressOf lib xy.1 xy.2, ?_⟩
  simp only [accountAddress, hchange, hreceive, hxy, Option.bind_some, Option.map_some]

theorem onCurve_of_accountAddress {address : String}
    (h : accountAddress lib account index = some address) : OnCurve account.1 := by
  obtain ⟨change, hchange, -⟩ := Option.bind_eq_some_iff.mp h
  exact onCurve_of_ckdPub hchange

theorem onCurve_of_meetsInfinity (h : MeetsInfinity lib account index) : OnCurve account.1 := by
  rcases h with hchange | ⟨change, hchange, -⟩
  · exact onCurve_of_childPoint hchange
  · exact onCurve_of_ckdPub hchange

/-! ## Texts -/

variable (lib) (xpub : String)

/-- The text that is validated. -/
def stripped : String := String.ofList (PyText.strip xpub.toList)

/-- Only for a child at infinity does an index below `2 ^ 31` have no address. -/
def DerivesAll : Prop :=
  ∀ index : ℤ, 0 ≤ index → index < 2 ^ 31 → deriveEvmAddress lib index xpub = none →
    ∃ account, parseXpub lib xpub = some account ∧ MeetsInfinity lib account index

/-- What the validation is to ensure: no derivation fails, no checkout fails once it is within the
quota, and the payload is the one of an extended public key. -/
structure TakesOrders : Prop where
  derives : DerivesAll lib xpub
  checkouts : ∀ (req : CheckoutRequest) (m : Merchant), m.payoutEvmXpub = xpub →
    0 ≤ m.nextEvmIndex → m.nextEvmIndex < 2 ^ 31 →
    createOrder (deriveEvmAddress lib) req m = .error .derivation →
    ∃ account, parseXpub lib xpub = some account ∧ MeetsInfinity lib account m.nextEvmIndex
  payload : ∃ payload, b58checkDecode lib (stripped xpub) = some payload ∧ IsAccountPayload payload

variable {lib xpub}

/-- **A text takes orders exactly when it parses to a key on the curve.** -/
theorem derivesAll_iff :
    DerivesAll lib xpub ↔ ∃ account, parseXpub lib xpub = some account ∧ OnCurve account.1 := by
  constructor
  · intro h
    cases hfirst : deriveEvmAddress lib 0 xpub with
    | none =>
      obtain ⟨account, hparse, hinfinity⟩ := h 0 le_rfl (by norm_num) hfirst
      exact ⟨account, hparse, onCurve_of_meetsInfinity hinfinity⟩
    | some address =>
      obtain ⟨account, hparse, haddress⟩ := Option.bind_eq_some_iff.mp hfirst
      exact ⟨account, hparse, onCurve_of_accountAddress haddress⟩
  · rintro ⟨account, hparse, hcurve⟩ index hnonneg hlt hnone
    refine ⟨account, hparse, ?_⟩
    by_contra hfinite
    obtain ⟨address, haddress⟩ := exists_accountAddress ⟨hnonneg, hlt⟩ hcurve hfinite
    rw [deriveEvmAddress, hparse, Option.bind_some, haddress] at hnone
    cases hnone

theorem DerivesAll.takesOrders (h : DerivesAll lib xpub) {payload : Bytes}
    (hpayload : b58checkDecode lib (stripped xpub) = some payload)
    (haccount : IsAccountPayload payload) : TakesOrders lib xpub where
  derives := h
  checkouts := by
    rintro req m rfl hnonneg hlt herror
    exact h m.nextEvmIndex hnonneg hlt (derivation_of_createOrder herror)
  payload := ⟨payload, hpayload, haccount⟩

/-- A text that decodes as it stands decodes to the same bytes as the validated text. -/
theorem RejectsOutside.decode_stripped (hlib : RejectsOutside lib) {raw : Bytes}
    (h : lib.b58decode xpub = some raw) : lib.b58decode (stripped xpub) = some raw := by
  have hblanks : ∀ c ∈ Base58.rstrip xpub.toList, PyText.isSpace c = false := fun c hc =>
    Base58.isSpace_of_mem_alphabet (hlib.alphabet _ _ h c hc)
  rw [stripped, Base58.strip_eq_rstrip hblanks]
  exact hlib.rstrip _ _ h

theorem RejectsOutside.parseXpub_stripped (hlib : RejectsOutside lib)
    (h : (lib.b58decode xpub).isSome) : parseXpub lib (stripped xpub) = parseXpub lib xpub := by
  obtain ⟨raw, hraw⟩ := Option.isSome_iff_exists.mp h
  rw [parseXpub, parseXpub, b58checkDecode, b58checkDecode, hraw, hlib.decode_stripped hraw]

theorem isSome_of_parseXpub (h : parseXpub lib xpub = some account) :
    (lib.b58decode xpub).isSome := by
  obtain ⟨payload, hpayload, -⟩ := Option.bind_eq_some_iff.mp h
  obtain ⟨raw, hraw, -⟩ := Option.bind_eq_some_iff.mp hpayload
  exact Option.isSome_of_eq_some hraw

/-- The key of an account's payload. -/
theorem account_of_payload {payload : Bytes}
    (hparse : parseXpub lib xpub = some account)
    (hpayload : b58checkDecode lib xpub = some payload) (haccount : IsAccountPayload payload) :
    account.1 = payload.drop 45 := by
  rw [parseXpub, hpayload, Option.bind_some] at hparse
  split_ifs at hparse
  obtain rfl := Option.some.inj hparse
  rw [List.take_of_length_le haccount.1.le]

end Keys

/-- **A validated text can take orders** exactly when it decodes as it stands and its key is on the
curve; and it is then an extended public key exactly when its payload is 78 bytes with a compressed
point at their end. -/
theorem validated_xpub_takes_orders_iff (lib : Primitives) (hlib : RejectsOutside lib)
    {xpub : String} (hvalid : validateEvmXpub lib xpub) :
    (DerivesAll lib xpub ↔ (lib.b58decode xpub).isSome ∧
      ∃ account, parseXpub lib (stripped xpub) = some account ∧ OnCurve account.1) ∧
    (TakesOrders lib xpub ↔ (lib.b58decode xpub).isSome ∧
      ∃ payload, b58checkDecode lib (stripped xpub) = some payload ∧ IsAccountPayload payload) := by
  have hderives : DerivesAll lib xpub ↔ (lib.b58decode xpub).isSome ∧
      ∃ account, parseXpub lib (stripped xpub) = some account ∧ OnCurve account.1 := by
    rw [derivesAll_iff]
    constructor
    · rintro ⟨account, hparse, hcurve⟩
      have hdecodes := isSome_of_parseXpub hparse
      exact ⟨hdecodes, account, (hlib.parseXpub_stripped hdecodes).trans hparse, hcurve⟩
    · rintro ⟨hdecodes, account, hparse, hcurve⟩
      exact ⟨account, (hlib.parseXpub_stripped hdecodes).symm.trans hparse, hcurve⟩
  refine ⟨hderives, fun h => ⟨(hderives.mp h.derives).1, h.payload⟩, ?_⟩
  rintro ⟨hdecodes, payload, hpayload, haccount⟩
  obtain ⟨account, hparse⟩ := Option.isSome_iff_exists.mp hvalid
  have hkey := account_of_payload hparse hpayload haccount
  refine (hderives.mpr ⟨hdecodes, account, hparse, ?_⟩).takesOrders hpayload haccount
  rw [hkey]
  exact haccount.2.onCurve

/-! ### An account, and two texts that take no orders -/

theorem rejectsOutside_accountLibraries : RejectsOutside accountLibraries where
  alphabet := fun _ _ h => Base58.mem_alphabet_of_decode h
  rstrip := by
    intro text raw h
    have htext : (String.ofList (Base58.rstrip text.toList)).toList = Base58.rstrip text.toList :=
      String.toList_ofList
    simp only [accountLibraries, htext, Base58.decode_rstrip] at h ⊢
    exact h

theorem stripped_first : stripped SampleAccount.first.xpub = SampleAccount.first.xpub := by
  decide +kernel

theorem validateEvmXpub_first : validateEvmXpub accountLibraries SampleAccount.first.xpub := by
  rw [validateEvmXpub, ← stripped, stripped_first, parseXpub_first]
  rfl

/-- The extended public key of a wallet takes orders. -/
theorem validated_xpub_takes_orders_first :
    validateEvmXpub accountLibraries SampleAccount.first.xpub ∧
    TakesOrders accountLibraries SampleAccount.first.xpub := by
  refine ⟨validateEvmXpub_first, ?_⟩
  refine (validated_xpub_takes_orders_iff accountLibraries rejectsOutside_accountLibraries
    validateEvmXpub_first).2.mpr ⟨isSome_of_parseXpub parseXpub_first,
      Bytes.ofNat 13 SampleAccount.first.header ++ SampleAccount.first.account.2 ++
        SampleAccount.first.account.1, ?_, by decide +kernel, ?_⟩
  · rw [stripped_first]
    decide +kernel
  · have hkey : (Bytes.ofNat 13 SampleAccount.first.header ++ SampleAccount.first.account.2 ++
        SampleAccount.first.account.1).drop 45 = SampleAccount.first.account.1 :=
      List.drop_left' (by decide +kernel)
    rw [hkey]
    exact
      { length := by decide +kernel
        head := by decide +kernel
        lt := by decide +kernel
        onCurve := ⟨by decide +kernel, SampleAccount.first.pubkey.2, by decide +kernel⟩ }

/-- The fields of an extended public key whose key has the first coordinate 5, like no point. -/
def offCurvePayload : Bytes := xpubVersion ++ Bytes.ofNat 41 0 ++ 0x02 :: Bytes.ofNat 32 5

/-- The extended public key of these fields. -/
def offCurveXpub : String :=
  "xpub661MyMwAqRbcEYS8w7XLSVeEsBXy79zSzH1J8vCdxAZningWLdN3zgtU6Q5JXayek4PRsn35jii4veMimro1xefs" ++
    "M58PgBMrvdYrdxDSid5"

/-- SHA-256 on the way to its checksum. -/
def offCurveSha256 (data : Bytes) : ℕ :=
  if data = offCurvePayload then 0x8eef2c9bcc3c8722ef9eb5aff6e729e088e9f0d3ab1813a3a838485196a1a1a9
  else 0xcc4cb9787a2b8b2c1db1b14550a73acf625205946d47ee8ee7f1e7e05ef54e4c

/-- The libraries with that SHA-256. -/
def offCurveLibraries : Primitives :=
  { accountLibraries with
    sha256 := fun data => Bytes.ofNat 32 (offCurveSha256 data)
    length_sha256 := fun _ => Bytes.length_ofNat _ _ }

/-- A blank in front of an extended public key, and a key on no point, pass the validation. -/
theorem accepted_xpubs_without_orders :
    (validateEvmXpub accountLibraries (" " ++ SampleAccount.first.xpub) ∧
      deriveEvmAddress accountLibraries 0 (" " ++ SampleAccount.first.xpub) = none ∧
      ¬ TakesOrders accountLibraries (" " ++ SampleAccount.first.xpub)) ∧
    validateEvmXpub offCurveLibraries offCurveXpub ∧
      deriveEvmAddress offCurveLibraries 0 offCurveXpub = none ∧
      ¬ TakesOrders offCurveLibraries offCurveXpub := by
  have hblank : parseXpub accountLibraries (" " ++ SampleAccount.first.xpub) = none := by
    decide +kernel
  have hstrip : stripped (" " ++ SampleAccount.first.xpub) = SampleAccount.first.xpub := by
    decide +kernel
  have hstrip' : stripped offCurveXpub = offCurveXpub := by decide +kernel
  have hparse : parseXpub offCurveLibraries offCurveXpub =
      some (0x02 :: Bytes.ofNat 32 5, Bytes.ofNat 32 0) := by
    decide +kernel
  have hcurve : ¬ OnCurve (0x02 :: Bytes.ofNat 32 5) := by
    rw [onCurve_iff, ← Option.isSome_iff_exists]
    decide +kernel
  have hnone : deriveEvmAddress offCurveLibraries 0 offCurveXpub = none := by
    rw [deriveEvmAddress, hparse, Option.bind_some, Option.eq_none_iff_forall_ne_some]
    exact fun address haddress => hcurve (onCurve_of_accountAddress haddress)
  refine ⟨⟨?_, ?_, fun h => ?_⟩, ?_, hnone, fun h => ?_⟩
  · rw [validateEvmXpub, ← stripped, hstrip, parseXpub_first]
    rfl
  · rw [deriveEvmAddress, hblank]
    rfl
  · obtain ⟨account, haccount, -⟩ := derivesAll_iff.mp h.derives
    rw [hblank] at haccount
    cases haccount
  · rw [validateEvmXpub, ← stripped, hstrip', hparse]
    rfl
  · obtain ⟨account, haccount, honCurve⟩ := derivesAll_iff.mp h.derives
    obtain rfl := Option.some.inj (hparse.symm.trans haccount)
    exact hcurve honCurve

end Gateway
