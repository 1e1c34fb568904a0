import Gateway.Foundations.Base58
import Gateway.Foundations.Runs
import Gateway.Wallet.Bip32

/-!
# Watch-only derivation

The gateway derives receive addresses from public keys, the merchant derives the private keys that
spend from them. Both walk down the same tree: a compressed public key is decompressed to its point
again, the sum of points is the point of the sum of keys, the fields of an extended public key come
back from its text, and a path is derived segment by segment. Hence an address handed to a customer
is the one of the merchant's private key at the same path (`watch_only_derivation`).
-/

namespace Gateway

open Foundations Foundations.ShortCurve

/-! ## Compressed points -/

theorem val_lt (x : ZMod Secp256k1.p) : x.val < 256 ^ 32 :=
  (ZMod.val_lt x).trans (by decide)

theorem toNat_ofNat_val (x : ZMod Secp256k1.p) : Bytes.toNat (Bytes.ofNat 32 x.val) = x.val :=
  Bytes.toNat_ofNat (val_lt x)

/-- The root with the parity of the second coordinate is that coordinate. -/
theorem root_eq {y : ZMod Secp256k1.p} {r : ℕ} (hlt : r < Secp256k1.p)
    (hr : (r : ZMod Secp256k1.p) = y ∨ (r : ZMod Secp256k1.p) = -y) :
    ((if (r % 2 = 0) ≠ (y.val % 2 = 0) then Secp256k1.p - r else r : ℕ) : ZMod Secp256k1.p) =
      y := by
  have hodd : Secp256k1.p % 2 = 1 := by decide
  have hval : r = (r : ZMod Secp256k1.p).val := (ZMod.val_cast_of_lt hlt).symm
  by_cases hy : (r : ZMod Secp256k1.p) = y
  · rw [hy] at hval
    rw [if_neg (by simp [hval]), hy]
  · have hneg := hr.resolve_left hy
    have hne : y ≠ 0 := by
      rintro rfl
      exact hy (by simpa using hneg)
    have hsum : r = Secp256k1.p - y.val := by
      have := NeZero.mk hne
      rw [hneg, ZMod.val_neg_of_ne_zero] at hval
      exact hval
    have hylt := ZMod.val_lt y
    have hparity : (r % 2 = 0) ≠ (y.val % 2 = 0) := by
      intro heq
      have := iff_of_eq heq
      omega
    rw [if_pos hparity, Nat.cast_sub hlt.le, hneg, ZMod.natCast_self, zero_sub, neg_neg]

theorem length_compressPoint {P : Secp256k1.Point} {bs : Bytes} (h : compressPoint P = some bs) :
    bs.length = 33 := by
  obtain ⟨xy, -, rfl⟩ := Option.map_eq_some_iff.mp h
  simp

/-- A compressed point is decompressed to itself. -/
theorem decompressPoint_compressPoint {P : Secp256k1.Point} {bs : Bytes}
    (h : compressPoint P = some bs) : decompressPoint bs = some P := by
  obtain ⟨⟨x, y⟩, hxy, rfl⟩ := Option.map_eq_some_iff.mp h
  have hsquare :
      (((x.val ^ 3 % Secp256k1.p + 7) % Secp256k1.p : ℕ) : ZMod Secp256k1.p) = y ^ 2 := by
    rw [equation_of_coords hxy]
    push_cast [ZMod.natCast_mod, ZMod.natCast_zmod_val]
    rfl
  have hroot := root_eq (r := modPow Secp256k1.p ((x.val ^ 3 % Secp256k1.p + 7) % Secp256k1.p)
    ((Secp256k1.p + 1) / 4)) ?_ (modPow_sqrt (by decide) hsquare)
  · have hhead : ((if y.val % 2 = 0 then 0x02 else 0x03 : UInt8) = 0x02) = (y.val % 2 = 0) := by
      split_ifs with heven
      · simp [heven]
      · simp [heven]
    simp only [decompressPoint, toNat_ofNat_val, hhead, hroot, ZMod.natCast_zmod_val]
    exact point?_of_coords hxy
  · rw [modPow_eq]
    exact Nat.mod_lt _ (by decide)

/-- The public key of a private key that is not zero. -/
theorem privkeyToPubkeyCompressed_isSome {k : ℕ} (hk : k % Secp256k1.order ≠ 0) :
    ∃ bs, privkeyToPubkeyCompressed k = some bs := by
  have hne : k • Secp256k1.generator ≠ 0 := fun h => hk (Secp256k1.smul_generator_eq_zero.mp h)
  cases hxy : coords? (k • Secp256k1.generator) with
  | none => exact absurd (coords?_eq_none.mp hxy) hne
  | some xy => exact ⟨_, by rw [privkeyToPubkeyCompressed, compressPoint, hxy]; rfl⟩

section Keys

variable {lib : Primitives}

/-! ## Extended public keys -/

theorem b58checkDecode_encode (payload : Bytes) :
    b58checkDecode lib (b58checkEncode lib payload) = some payload := by
  have hlen : (checksum lib payload).length = 4 := by
    simp [checksum, lib.length_sha256]
  have hcut : (payload ++ checksum lib payload).length - 4 = payload.length := by
    simp [hlen]
  simp only [b58checkDecode, b58checkEncode, lib.b58decode_b58encode, Option.bind_some, hcut,
    List.drop_left, List.take_left, if_true]

/-- **The fields of an extended public key come back from its text.** -/
theorem parseXpub_serializeXpub {pubkey chaincode parentPubkey : Bytes} {depth : ℕ}
    {childNumber : ℤ} {xpub : String} (hpubkey : pubkey.length = 33)
    (hchaincode : chaincode.length = 32)
    (h : serializeXpub lib pubkey chaincode parentPubkey depth childNumber = some xpub) :
    parseXpub lib xpub = some (pubkey, chaincode) := by
  simp only [serializeXpub] at h
  obtain ⟨depthBytes, hdepth, h⟩ := Option.bind_eq_some_iff.mp h
  obtain ⟨childBytes, hchild, rfl⟩ := Option.map_eq_some_iff.mp h
  obtain ⟨-, -, hdepthLen⟩ := Bytes.ofInt?_eq_some hdepth
  obtain ⟨-, -, hchildLen⟩ := Bytes.ofInt?_eq_some hchild
  generalize hfingerprint : (if 0 < depth then (hash160 lib parentPubkey).take 4 else [0, 0, 0, 0])
    = fingerprint
  have hfingerprintLen : fingerprint.length = 4 := by
    rw [← hfingerprint]
    split_ifs
    · simp [hash160, lib.length_ripemd160]
    · rfl
  -- the header is 13 bytes long
  set head := xpubVersion ++ depthBytes ++ fingerprint ++ childBytes with hhead
  have hheadLen : head.length = 13 := by
    simp [hhead, hdepthLen, hchildLen, hfingerprintLen, xpubVersion]
  have hversion : (head ++ chaincode ++ pubkey).take 4 = xpubVersion := by
    rw [hhead]
    simp only [List.append_assoc]
    exact List.take_left' rfl
  have hbothLen : (head ++ chaincode).length = 45 := by
    rw [List.length_append, hheadLen, hchaincode]
  have hkey : ((head ++ chaincode ++ pubkey).take 78).drop 45 = pubkey := by
    rw [List.take_of_length_le (by rw [List.length_append, hbothLen, hpubkey])]
    exact List.drop_left' hbothLen
  have hcode : ((head ++ chaincode ++ pubkey).take 45).drop 13 = chaincode := by
    rw [List.take_left' hbothLen]
    exact List.drop_left' hheadLen
  simp only [parseXpub, b58checkDecode_encode, Option.bind_some, hversion, if_true, hkey, hcode]

/-! ## Child keys -/

/-- The child of a key, when the digest does not depend on what is hashed. -/
theorem eq_of_ckdPriv {k : ℕ} {c digest : Bytes} {index : ℤ} {child : ℕ × Bytes}
    (hdigest : ∀ data, lib.hmacSha512 c data = digest) (h : ckdPriv lib k c index = some child) :
    child = ((Bytes.toNat (digest.take 32) + k) % Secp256k1.order, digest.drop 32) := by
  obtain ⟨data, -, hchild⟩ := Option.map_eq_some_iff.mp h
  rw [← hchild, hdigest data]

/-- The chain code of a child. -/
theorem length_chaincode {k k' : ℕ} {c c' : Bytes} {index : ℤ}
    (h : ckdPriv lib k c index = some (k', c')) : c'.length = 32 := by
  obtain ⟨data, -, hchild⟩ := Option.map_eq_some_iff.mp h
  obtain rfl := (Prod.mk.inj hchild).2
  simp [lib.length_hmacSha512]

variable (lib) in
/-- A child that is not hardened exists for every key that is not zero. -/
theorem ckdPriv_isSome {k : ℕ} (hk : k % Secp256k1.order ≠ 0) (c : Bytes) {i : ℕ}
    (hi : i < 2 ^ 31) : ∃ child, ckdPriv lib k c i = some child := by
  obtain ⟨pubkey, hpubkey⟩ := privkeyToPubkeyCompressed_isSome hk
  have hsoft : ¬ hardenedOffset ≤ (i : ℤ) := by
    unfold hardenedOffset
    omega
  have hindex := Bytes.ofInt?_natCast (show i < 256 ^ 4 by omega)
  simp only [ckdPriv, ckdData, hsoft, if_false, hpubkey, hindex, Option.bind_some, Option.map_some]
  exact ⟨_, rfl⟩

/-- **Public derivation agrees with private derivation**: the public key of a child is the child of
the public key. -/
theorem ckdPub_of_ckdPriv {k k' : ℕ} {c c' pubkey : Bytes} {i : ℕ} (hi : i < 2 ^ 31)
    (hpubkey : privkeyToPubkeyCompressed k = some pubkey)
    (hchild : ckdPriv lib k c i = some (k', c')) (hk' : k' % Secp256k1.order ≠ 0) :
    ∃ pubkey', privkeyToPubkeyCompressed k' = some pubkey' ∧
      ckdPub lib pubkey c i = some (pubkey', c') := by
  obtain ⟨pubkey', hpubkey'⟩ := privkeyToPubkeyCompressed_isSome hk'
  refine ⟨pubkey', hpubkey', ?_⟩
  have hsoft : ¬ hardenedOffset ≤ (i : ℤ) := by
    unfold hardenedOffset
    omega
  have hindex := Bytes.ofInt?_natCast (show i < 256 ^ 4 by omega)
  simp only [ckdPriv, ckdData, hsoft, if_false, hpubkey, hindex, Option.bind_some, Option.map_some,
    Option.some.injEq, Prod.mk.injEq] at hchild
  obtain ⟨rfl, rfl⟩ := hchild
  rw [privkeyToPubkeyCompressed, Secp256k1.smul_mod_order, add_smul] at hpubkey'
  simp only [ckdPub, hsoft, if_false, hindex, Option.bind_some,
    decompressPoint_compressPoint hpubkey, hpubkey', Option.map_some]

/-- The child number that was derived fits four bytes. -/
theorem index_of_ckdPriv {k : ℕ} {c : Bytes} {index : ℤ} {child : ℕ × Bytes}
    (h : ckdPriv lib k c index = some child) : 0 ≤ index ∧ index < 256 ^ 4 := by
  obtain ⟨data, hdata, -⟩ := Option.map_eq_some_iff.mp h
  unfold ckdData at hdata
  split_ifs at hdata
  · obtain ⟨key, -, hdata⟩ := Option.bind_eq_some_iff.mp hdata
    obtain ⟨indexBytes, hindex, -⟩ := Option.map_eq_some_iff.mp hdata
    exact ⟨(Bytes.ofInt?_eq_some hindex).1, (Bytes.ofInt?_eq_some hindex).2.1⟩
  · obtain ⟨key, -, hdata⟩ := Option.bind_eq_some_iff.mp hdata
    obtain ⟨indexBytes, hindex, -⟩ := Option.map_eq_some_iff.mp hdata
    exact ⟨(Bytes.ofInt?_eq_some hindex).1, (Bytes.ofInt?_eq_some hindex).2.1⟩

/-! ## Paths -/

/-- What holds of a derived key: its chain code and its child number have the sizes of their
fields. -/
structure DerivedKey.Fits (key : DerivedKey) : Prop where
  chaincode : key.chaincode.length = 32
  childNumber : 0 ≤ key.childNumber ∧ key.childNumber < 256 ^ 4

/-- A segment is skipped, or it derives a child of the key. -/
theorem deriveSegment_eq_some {key key' : DerivedKey} {segment : List Char}
    (h : deriveSegment lib key segment = some key') :
    ((segment = ['m'] ∨ segment = []) ∧ key' = key) ∨
      ¬ (segment = ['m'] ∨ segment = []) ∧ ∃ index parentPubkey child,
        segmentIndex segment = some index ∧
        privkeyToPubkeyCompressed key.privkey = some parentPubkey ∧
        ckdPriv lib key.privkey key.chaincode index = some child ∧
        key' = ⟨child.1, child.2, parentPubkey, key.depth + 1, index⟩ := by
  unfold deriveSegment at h
  split_ifs at h with hskip
  · exact .inl ⟨hskip, (Option.some.inj h).symm⟩
  · obtain ⟨index, hindex, h⟩ := Option.bind_eq_some_iff.mp h
    obtain ⟨parentPubkey, hpubkey, h⟩ := Option.bind_eq_some_iff.mp h
    obtain ⟨child, hchild, rfl⟩ := Option.map_eq_some_iff.mp h
    exact .inr ⟨hskip, index, parentPubkey, child, hindex, hpubkey, hchild, rfl⟩

/-- A path is derived segment by segment. -/
theorem derivePrivPath_of_exec {seed pubkey : Bytes} {path : List Char} {master : ℕ × Bytes}
    {segments : List (List Char)} {key : DerivedKey} (hmaster : masterKeyFromSeed lib seed = master)
    (hpubkey : privkeyToPubkeyCompressed master.1 = some pubkey)
    (hsplit : (PyText.strip path).splitOn '/' = segments)
    (h : exec (deriveSegment lib) ⟨master.1, master.2, pubkey, 0, 0⟩ segments = some key) :
    derivePrivPath lib seed path = some key := by
  simp only [derivePrivPath, hmaster, hpubkey, Option.bind_some, hsplit, ← exec_eq_foldlM, h]

theorem fits_of_derivePrivPath {seed : Bytes} {path : List Char} {key : DerivedKey}
    (h : derivePrivPath lib seed path = some key) : key.Fits := by
  simp only [derivePrivPath] at h
  obtain ⟨parentPubkey, -, h⟩ := Option.bind_eq_some_iff.mp h
  rw [← exec_eq_foldlM] at h
  refine exec_invariant (fun key segment key' hkey hstep => ?_) h ⟨?_, ?_⟩
  · rcases deriveSegment_eq_some hstep with
      ⟨-, rfl⟩ | ⟨-, index, parentPubkey, child, -, -, hchild, rfl⟩
    · exact hkey
    · exact ⟨length_chaincode hchild, index_of_ckdPriv hchild⟩
  · simp [masterKeyFromSeed, lib.length_hmacSha512]
  · exact ⟨le_rfl, by norm_num⟩

/-- `path + "/0/" + str(i)`. -/
def receivePath (path : List Char) (i : ℕ) : List Char :=
  path ++ '/' :: '0' :: '/' :: Nat.toDigits 10 i

/-- A segment with an index derives a child. -/
theorem deriveSegment_of_index {key : DerivedKey} {segment : List Char} {index : ℤ}
    {pubkey : Bytes} {child : ℕ × Bytes} (hskip : ¬ (segment = ['m'] ∨ segment = []))
    (hindex : segmentIndex segment = some index)
    (hpubkey : privkeyToPubkeyCompressed key.privkey = some pubkey)
    (hchild : ckdPriv lib key.privkey key.chaincode index = some child) :
    deriveSegment lib key segment = some ⟨child.1, child.2, pubkey, key.depth + 1, index⟩ := by
  simp only [deriveSegment, hskip, if_false, hindex, Option.bind_some, hpubkey, hchild,
    Option.map_some]

theorem deriveSegment_toDigits (key : DerivedKey) {i : ℕ} (hi : i < 2 ^ 31) {pubkey : Bytes}
    (hpubkey : privkeyToPubkeyCompressed key.privkey = some pubkey) {child : ℕ × Bytes}
    (hchild : ckdPriv lib key.privkey key.chaincode i = some child) :
    deriveSegment lib key (Nat.toDigits 10 i) =
      some ⟨child.1, child.2, pubkey, key.depth + 1, i⟩ := by
  have hdigit : ∀ c ∈ Nat.toDigits 10 i, c.isDigit := fun c hc =>
    Nat.isDigit_of_mem_toDigits (by decide) (by decide) hc
  have hskip : ¬ (Nat.toDigits 10 i = ['m'] ∨ Nat.toDigits 10 i = []) := by
    rintro (hm | hnil)
    · have := hdigit 'm' (by simp [hm])
      cases this
    · exact Nat.toDigits_ne_nil hnil
  have hlast : (Nat.toDigits 10 i).getLast? ≠ some '\'' := by
    intro hquote
    have := hdigit '\'' (List.mem_of_getLast? hquote)
    cases this
  have hlength : (Nat.toDigits 10 i).length ≤ PyText.maxStrDigits := by
    have hten : (Nat.toDigits 10 i).length ≤ 10 :=
      (Nat.length_toDigits_le_iff (by decide) (by decide)).mpr (by omega)
    exact hten.trans (by decide)
  have hindex : segmentIndex (Nat.toDigits 10 i) = some (i : ℤ) := by
    rw [segmentIndex, if_neg hlast, PyText.pyInt_toDigits hlength]
  exact deriveSegment_of_index hskip hindex hpubkey hchild

/-- The path of a receive address is the one of its account, and two segments. -/
theorem derivePrivPath_receivePath {seed : Bytes} {path : List Char}
    (hstrip : PyText.strip path = path) (i : ℕ) :
    derivePrivPath lib seed (receivePath path i) =
      (derivePrivPath lib seed path).bind fun key =>
        (deriveSegment lib key (Nat.toDigits 10 0)).bind fun change =>
          deriveSegment lib change (Nat.toDigits 10 i) := by
  have hdigit : ∀ c ∈ Nat.toDigits 10 i, c.isDigit := fun c hc =>
    Nat.isDigit_of_mem_toDigits (by decide) (by decide) hc
  have hstrip' : PyText.strip (receivePath path i) = receivePath path i := by
    refine PyText.stripBy_append hstrip (PyText.stripBy_eq_self ?_)
    intro c hc
    simp only [List.mem_cons] at hc
    rcases hc with rfl | rfl | rfl | hc
    · decide
    · decide
    · decide
    · exact PyText.isSpace_of_isDigit (hdigit c hc)
  have hslash : '/' ∉ Nat.toDigits 10 i := by
    intro hc
    have := hdigit '/' hc
    cases this
  have hsplit : (receivePath path i).splitOn '/' =
      path.splitOn '/' ++ [Nat.toDigits 10 0, Nat.toDigits 10 i] := by
    rw [receivePath, List.splitOn_append_cons_self,
      show '0' :: '/' :: Nat.toDigits 10 i = ['0'] ++ '/' :: Nat.toDigits 10 i from rfl,
      List.splitOn_append_cons_self, List.splitOn_eq_singleton hslash]
    rfl
  simp only [derivePrivPath, hstrip, hstrip', hsplit, ← exec_eq_foldlM, exec_append,
    Option.bind_assoc]
  simp only [exec_cons, exec_nil, Option.bind_fun_some]

/-! ## Receive addresses -/

variable (lib) in
/-- No private key on the way from an account to an address is zero. -/
def NonzeroKeys (key : DerivedKey) (i : ℕ) : Prop :=
  key.privkey % Secp256k1.order ≠ 0 ∧
    ∀ change, ckdPriv lib key.privkey key.chaincode receiveChangeLevel = some change →
      change.1 % Secp256k1.order ≠ 0 ∧
        ∀ address, ckdPriv lib change.1 change.2 i = some address →
          address.1 % Secp256k1.order ≠ 0

/-- The address at an index is the one of the private key there. -/
theorem accountAddress_eq {k k₁ k₂ i : ℕ} {c c₁ c₂ pubkey : Bytes} (hi : i < 2 ^ 31)
    (hpubkey : privkeyToPubkeyCompressed k = some pubkey)
    (hchange : ckdPriv lib k c receiveChangeLevel = some (k₁, c₁))
    (hk₁ : k₁ % Secp256k1.order ≠ 0) (haddress : ckdPriv lib k₁ c₁ i = some (k₂, c₂))
    (hk₂ : k₂ % Secp256k1.order ≠ 0) :
    ∃ x y, coords? (k₂ • Secp256k1.generator) = some (x, y) ∧
      accountAddress lib (pubkey, c) i =
        some (addressOf lib (Bytes.ofNat 32 x.val) (Bytes.ofNat 32 y.val)) := by
  obtain ⟨pubkey₁, hpubkey₁, hpub₁⟩ :=
    ckdPub_of_ckdPriv (show 0 < 2 ^ 31 by norm_num) hpubkey hchange hk₁
  obtain ⟨pubkey₂, hpubkey₂, hpub₂⟩ := ckdPub_of_ckdPriv hi hpubkey₁ haddress hk₂
  obtain ⟨⟨x, y⟩, hxy, -⟩ := Option.map_eq_some_iff.mp hpubkey₂
  refine ⟨x, y, hxy, ?_⟩
  have hpub₁' : ckdPub lib pubkey c receiveChangeLevel = some (pubkey₁, c₁) := hpub₁
  simp only [accountAddress, hpub₁', hpub₂, Option.bind_some, decompressPubkey,
    decompressPoint_compressPoint hpubkey₂, hxy, Option.map_some]

end Keys

/-- **Watch-only derivation agrees with the private keys.** For every seed, every account path that
is accepted and every order index, the address that the gateway derives from the account's extended
public key is the one of the public key of the private key at the path of that index. -/
theorem watch_only_derivation (lib : Primitives) (seed : Bytes) {path : List Char}
    {key : DerivedKey} {i : ℕ} (hstrip : PyText.strip path = path)
    (hpath : derivePrivPath lib seed path = some key) (hdepth : key.depth ≤ 255) (hi : i < 2 ^ 31)
    (hkeys : NonzeroKeys lib key i) :
    ∃ pubkey xpub child x y, privkeyToPubkeyCompressed key.privkey = some pubkey ∧
      serializeXpub lib pubkey key.chaincode key.parentPubkey key.depth key.childNumber =
        some xpub ∧
      derivePrivPath lib seed (receivePath path i) = some child ∧
      coords? (child.privkey • Secp256k1.generator) = some (x, y) ∧
      deriveEvmAddress lib i xpub =
        some (addressOf lib (Bytes.ofNat 32 x.val) (Bytes.ofNat 32 y.val)) := by
  obtain ⟨hk, hkeys⟩ := hkeys
  obtain ⟨pubkey, hpubkey⟩ := privkeyToPubkeyCompressed_isSome hk
  have hfits := fits_of_derivePrivPath hpath
  -- the account's extended public key
  obtain ⟨xpub, hxpub⟩ : ∃ xpub, serializeXpub lib pubkey key.chaincode key.parentPubkey key.depth
      key.childNumber = some xpub := by
    obtain ⟨n, hn⟩ := Int.eq_ofNat_of_zero_le hfits.childNumber.1
    have hbyte := Bytes.ofInt?_natCast (show key.depth < 256 ^ 1 by omega)
    have hchild := Bytes.ofInt?_natCast (show n < 256 ^ 4 by have := hfits.childNumber.2; omega)
    simp only [serializeXpub, hbyte, hn, hchild, Option.bind_some, Option.map_some]
    exact ⟨_, rfl⟩
  have hparse := parseXpub_serializeXpub (length_compressPoint hpubkey) hfits.chaincode hxpub
  -- the private keys below the account
  obtain ⟨⟨k₁, c₁⟩, hchange⟩ := ckdPriv_isSome lib hk key.chaincode
    (show 0 < 2 ^ 31 by norm_num)
  obtain ⟨hk₁, hkeys⟩ := hkeys _ hchange
  obtain ⟨⟨k₂, c₂⟩, haddress⟩ := ckdPriv_isSome lib hk₁ c₁ hi
  have hk₂ := hkeys _ haddress
  obtain ⟨pubkey₁, hpubkey₁⟩ := privkeyToPubkeyCompressed_isSome hk₁
  obtain ⟨x, y, hxy, hderived⟩ := accountAddress_eq hi hpubkey hchange hk₁ haddress hk₂
  refine ⟨pubkey, xpub, ⟨k₂, c₂, pubkey₁, key.depth + 1 + 1, i⟩, x, y, hpubkey, hxpub, ?_, hxy, ?_⟩
  · rw [derivePrivPath_receivePath hstrip, hpath, Option.bind_some,
      deriveSegment_toDigits key (by norm_num) hpubkey hchange, Option.bind_some]
    exact deriveSegment_toDigits ⟨k₁, c₁, pubkey, key.depth + 1, (0 : ℕ)⟩ hi hpubkey₁ haddress
  · rw [deriveEvmAddress, hparse, Option.bind_some, hderived]

/-! ### A wallet -/

/-- The halves of the digests of HMAC-SHA512 on the way to `m/44'/60'/0'/0/0` from the seed below:
the key of each is the second half of the one before it. -/
def sampleDigests : List (ℕ × ℕ) :=
  [(0x1837c1be8e2995ec11cda2b066151be2cfb48adf9e47b151d46adab3a21cdf67,
      0x7923408dadd3c7b56eed15567707ae5e5dca089de972e07f3b860450e2a3b70e),
    (0xb50e42e12a00b9e0abc8d9a1ced0f570252afcf07ed746e16d9d3a12dcc7d883,
      0x45d3b0e8206db10a08d555317c7e245c5bbd12254ce968f3c79a959d4e6af98a),
    (0x21602b33b90088326a6098004bea6dad4cc59722d6353aa37280b662ce12e405,
      0xff0603122d4dc5bf9b36606ef1b1b6e5a6c9e79fc6a4b08f7e871eee10457a71),
    (0xfb12ec6f1d3cc78657c88bcdb3706be924ba883a9402de1bb5abe3ccedff8519,
      0xd882718b7a42806803eeb17f7483f20620611adb88fc943c898dc5aba94c2819),
    (0xb8e1a688897b7d55346aefc2a3fe1a08c59a711393c76b7bcb4ca4cf891075d4,
      0xc879d136f02003dc804811e42390714ea06448aeaee158c62d65f12a421d988f),
    (0x781969f8fad2fbe3360fc9bb645ca923a2d1817b886b9e2ee513f8bba7ade40e,
      0x736094f4f24b67e838a4b3d23d31d229ca03e00c9bb99ce95da6d86e8b3847b5)]

/-- The digest for a key of that wallet. -/
def sampleHmac (key : Bytes) : Bytes :=
  let digest := ((sampleDigests.zip sampleDigests.tail).find? fun d =>
    Bytes.ofNat 32 d.1.2 = key).elim (sampleDigests.headD (0, 0)) Prod.snd
  Bytes.ofNat 32 digest.1 ++ Bytes.ofNat 32 digest.2

/-- The digests of the account's extended public key, of that digest, and of a compressed key. -/
def sampleSha256 (data : Bytes) : ℕ :=
  if data.length = 78 then
    0xa1d7c8c5a6f56b9b5333986c84b003bad3ff87e159a325f0b935e43f3782f738
  else if data.length = 32 then
    0x7376a0031ea3848868c8142b81a27c47a321559aa2de2e4c7383b4a56892db70
  else 0xf551f4f7023aabf78c00c6a788b4d15a9cb4f71ccc62f129e77dca5ee83c5abc

/-- The libraries, with hash functions that are right on the data of this wallet. -/
def sampleLibraries : Primitives where
  hmacSha512 := fun key _ => sampleHmac key
  sha256 := fun data => Bytes.ofNat 32 (sampleSha256 data)
  ripemd160 := fun _ => Bytes.ofNat 20 0xd32e45081d56d7ded42e4fe6f31f4b5f32a540cc
  keccak256 := fun _ =>
    Bytes.ofNat 32 0x515249c905300cbdd29f91a49858effd232b4033e47d90003d41ec34ecaeda94
  b58encode := fun data => String.ofList (Base58.encode data)
  b58decode := fun text => Base58.decode text.toList
  length_hmacSha512 := fun _ _ => by simp [sampleHmac]
  length_sha256 := fun _ => Bytes.length_ofNat _ _
  length_ripemd160 := fun _ => Bytes.length_ofNat _ _
  length_keccak256 := fun _ => Bytes.length_ofNat _ _
  b58decode_b58encode := Base58.decode_ofList_encode

/-- The seed of the mnemonic of eleven times "abandon", and "about". -/
def sampleSeed : Bytes :=
  Bytes.ofNat 64
    (0x5eb00bbddcf069084889a8ab9155568165f5c453ccb85e70811aaed6f6da5fc1 *
      2 ^ 256 + 0x9a5ac40b389cd370d086206dec8aa6c43daea6690f20ad3d8d48b2d2ce9e38e4)

/-- The path of the account. -/
def samplePath : List Char := "m/44'/60'/0'".toList

/-- The private key and the chain code after so many segments. -/
def sampleKey (n : ℕ) : ℕ × Bytes :=
  (((sampleDigests.take (n + 1)).map Prod.fst).sum % Secp256k1.order,
    Bytes.ofNat 32 (sampleDigests.getD n (0, 0)).2)

/-- The wallet derives the account. -/
theorem derivePrivPath_sample : ∃ parentPubkey,
    derivePrivPath sampleLibraries sampleSeed samplePath =
      some ⟨(sampleKey 3).1, (sampleKey 3).2, parentPubkey, 3, hardenedOffset⟩ := by
  have hsplit : (PyText.strip samplePath).splitOn '/' =
      [['m'], ['4', '4', '\''], ['6', '0', '\''], ['0', '\'']] := by
    decide +kernel
  have hmaster : masterKeyFromSeed sampleLibraries sampleSeed = sampleKey 0 := by
    decide +kernel
  have hfirst : ckdPriv sampleLibraries (sampleKey 0).1 (sampleKey 0).2 (44 + hardenedOffset) =
      some (sampleKey 1) := by
    decide +kernel
  have hsecond : ckdPriv sampleLibraries (sampleKey 1).1 (sampleKey 1).2 (60 + hardenedOffset) =
      some (sampleKey 2) := by
    decide +kernel
  have hthird : ckdPriv sampleLibraries (sampleKey 2).1 (sampleKey 2).2 hardenedOffset =
      some (sampleKey 3) := by
    decide +kernel
  obtain ⟨pubkey₀, h₀⟩ := privkeyToPubkeyCompressed_isSome
    (show (sampleKey 0).1 % Secp256k1.order ≠ 0 by decide +kernel)
  obtain ⟨pubkey₁, h₁⟩ := privkeyToPubkeyCompressed_isSome
    (show (sampleKey 1).1 % Secp256k1.order ≠ 0 by decide +kernel)
  obtain ⟨pubkey₂, h₂⟩ := privkeyToPubkeyCompressed_isSome
    (show (sampleKey 2).1 % Secp256k1.order ≠ 0 by decide +kernel)
  have hskip : deriveSegment sampleLibraries ⟨(sampleKey 0).1, (sampleKey 0).2, pubkey₀, 0, 0⟩
      ['m'] = some ⟨(sampleKey 0).1, (sampleKey 0).2, pubkey₀, 0, 0⟩ := if_pos (.inl rfl)
  have hpurpose : deriveSegment sampleLibraries ⟨(sampleKey 0).1, (sampleKey 0).2, pubkey₀, 0, 0⟩
      ['4', '4', '\''] = some ⟨(sampleKey 1).1, (sampleKey 1).2, pubkey₀, 1, 44 + hardenedOffset⟩ :=
    deriveSegment_of_index (by decide) (by decide +kernel) h₀ hfirst
  have hcoin : deriveSegment sampleLibraries
      ⟨(sampleKey 1).1, (sampleKey 1).2, pubkey₀, 1, 44 + hardenedOffset⟩ ['6', '0', '\''] =
        some ⟨(sampleKey 2).1, (sampleKey 2).2, pubkey₁, 2, 60 + hardenedOffset⟩ :=
    deriveSegment_of_index (by decide) (by decide +kernel) h₁ hsecond
  have haccount : deriveSegment sampleLibraries
      ⟨(sampleKey 2).1, (sampleKey 2).2, pubkey₁, 2, 60 + hardenedOffset⟩ ['0', '\''] =
        some ⟨(sampleKey 3).1, (sampleKey 3).2, pubkey₂, 3, hardenedOffset⟩ :=
    deriveSegment_of_index (by decide) (by decide +kernel) h₂ hthird
  refine ⟨pubkey₂, derivePrivPath_of_exec hmaster h₀ hsplit ?_⟩
  rw [exec_cons, hskip, Option.bind_some, exec_cons, hpurpose, Option.bind_some, exec_cons, hcoin,
    Option.bind_some, exec_cons, haccount, Option.bind_some, exec_nil]

/-- A child of a key of the wallet. -/
theorem ckdPriv_sample {k : ℕ} {c : Bytes} {index : ℤ} {child : ℕ × Bytes}
    (h : ckdPriv sampleLibraries k c index = some child) :
    child = ((Bytes.toNat ((sampleHmac c).take 32) + k) % Secp256k1.order,
      (sampleHmac c).drop 32) := by
  have hdigest : ∀ data, sampleLibraries.hmacSha512 c data = sampleHmac c := fun _ => rfl
  exact eq_of_ckdPriv hdigest h

theorem addressOf_sample (x y : Bytes) :
    addressOf sampleLibraries x y = "0x9858effd232b4033e47d90003d41ec34ecaeda94" := by
  have hash : sampleLibraries.keccak256 (x ++ y) =
      Bytes.ofNat 32 0x515249c905300cbdd29f91a49858effd232b4033e47d90003d41ec34ecaeda94 := rfl
  rw [addressOf, hash]
  decide +kernel

/-- The first receive address of the wallet. -/
theorem watch_only_derivation_first : ∃ xpub child x y,
    derivePrivPath sampleLibraries sampleSeed "m/44'/60'/0'/0/0".toList = some child ∧
    coords? (child.privkey • Secp256k1.generator) = some (x, y) ∧
    deriveEvmAddress sampleLibraries 0 xpub =
      some (addressOf sampleLibraries (Bytes.ofNat 32 x.val) (Bytes.ofNat 32 y.val)) ∧
    deriveEvmAddress sampleLibraries 0 xpub =
      some "0x9858effd232b4033e47d90003d41ec34ecaeda94" := by
  obtain ⟨parentPubkey, hpath⟩ := derivePrivPath_sample
  have hkeys : NonzeroKeys sampleLibraries
      ⟨(sampleKey 3).1, (sampleKey 3).2, parentPubkey, 3, hardenedOffset⟩ 0 := by
    refine ⟨show (sampleKey 3).1 % Secp256k1.order ≠ 0 by decide +kernel, fun change hchange => ?_⟩
    obtain rfl : change = sampleKey 4 :=
      (ckdPriv_sample (k := (sampleKey 3).1) (c := (sampleKey 3).2) hchange).trans
        (by decide +kernel)
    refine ⟨by decide +kernel, fun address haddress => ?_⟩
    obtain rfl : address = sampleKey 5 := (ckdPriv_sample haddress).trans (by decide +kernel)
    decide +kernel
  obtain ⟨pubkey, xpub, child, x, y, -, -, hchild, hxy, haddress⟩ :=
    watch_only_derivation sampleLibraries sampleSeed (i := 0)
      (show PyText.strip samplePath = samplePath by decide +kernel) hpath
      (show 3 ≤ 255 by decide) (by decide) hkeys
  have hpathText : "m/44'/60'/0'/0/0".toList = receivePath samplePath 0 := by decide +kernel
  refine ⟨xpub, child, x, y, hpathText ▸ hchild, hxy, haddress, ?_⟩
  exact haddress.trans (congrArg some (addressOf_sample _ _))

end Gateway
