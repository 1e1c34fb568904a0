import Gateway.Foundations.Bytes
import Gateway.Foundations.PyText
import Gateway.Wallet.Secp256k1

/-!
# Hierarchical wallets

The module `bip32_lite`: private and public child derivation, the serialization of an extended
public key and its parser, and over them the receive addresses of `derive_evm_address`. A function
that may raise is partial here.

The hash functions and the base58 codec belong to libraries; `Primitives` says what the code relies
on. The points are those of the curve's group, in which the point at infinity has no coordinates.
-/

namespace Gateway

open Foundations Foundations.ShortCurve

/-- The functions of the hash and base58 libraries. -/
structure Primitives where
  hmacSha512 : (key data : Bytes) → Bytes
  sha256 : Bytes → Bytes
  ripemd160 : Bytes → Bytes
  keccak256 : Bytes → Bytes
  b58encode : Bytes → String
  /-- `none` is a `ValueError`. -/
  b58decode : String → Option Bytes
  length_hmacSha512 : ∀ key data, (hmacSha512 key data).length = 64
  length_sha256 : ∀ data, (sha256 data).length = 32
  length_ripemd160 : ∀ data, (ripemd160 data).length = 20
  length_keccak256 : ∀ data, (keccak256 data).length = 32
  b58decode_b58encode : ∀ data, b58decode (b58encode data) = some data

/-- `_XPUB_VERSION`. -/
def xpubVersion : Bytes := [0x04, 0x88, 0xb2, 0x1e]

/-- `_HARDENED_OFFSET`. -/
def hardenedOffset : ℤ := 0x80000000

/-! ## Points -/

/-- `_compress_point`; the point at infinity has no coordinates. -/
def compressPoint (point : Secp256k1.Point) : Option Bytes :=
  (coords? point).map fun xy =>
    (if xy.2.val % 2 = 0 then 0x02 else 0x03) :: Bytes.ofNat 32 xy.1.val

/-- `_decompress_point`. The constructor of the point asserts that it lies on the curve; a first
coordinate of `p` or more is reduced here, and in the source by the sum that it enters. -/
def decompressPoint : Bytes → Option Secp256k1.Point
  | [] => none
  | head :: xBytes =>
    let x := Bytes.toNat xBytes
    let ySquared := (x ^ 3 % Secp256k1.p + 7) % Secp256k1.p
    let y := modPow Secp256k1.p ySquared ((Secp256k1.p + 1) / 4)
    let y := if (y % 2 = 0) ≠ (head = 0x02) then Secp256k1.p - y else y
    Secp256k1.curve.point? x y

/-- `privkey_to_pubkey_compressed`. -/
def privkeyToPubkeyCompressed (privkeyInt : ℕ) : Option Bytes :=
  compressPoint (privkeyInt • Secp256k1.generator)

/-- `decompress_pubkey`: the coordinates of the point of a compressed key, in 32 bytes each. A first
coordinate of `p` or more would be returned as it is by the source; the keys of children, to which
alone this is applied, are compressed points and have none. -/
def decompressPubkey (pubkeyCompressed : Bytes) : Option (Bytes × Bytes) :=
  (decompressPoint pubkeyCompressed).bind fun point =>
    (coords? point).map fun xy => (Bytes.ofNat 32 xy.1.val, Bytes.ofNat 32 xy.2.val)

section Keys

variable (lib : Primitives)

/-! ## Base58 with a checksum -/

/-- The checksum of a payload. -/
def checksum (payload : Bytes) : Bytes := (lib.sha256 (lib.sha256 payload)).take 4

/-- `_b58check_encode`. -/
def b58checkEncode (payload : Bytes) : String := lib.b58encode (payload ++ checksum lib payload)

/-- `_b58check_decode`; `none` is a `ValueError`. -/
def b58checkDecode (encoded : String) : Option Bytes :=
  (lib.b58decode encoded).bind fun raw =>
    let payload := raw.take (raw.length - 4)
    if raw.drop (raw.length - 4) = checksum lib payload then some payload else none

/-! ## Child keys -/

/-- `master_key_from_seed`: the private key and the chain code. -/
def masterKeyFromSeed (seed : Bytes) : ℕ × Bytes :=
  let digest := lib.hmacSha512 ("Bitcoin seed".toUTF8.toList) seed
  (Bytes.toNat (digest.take 32), digest.drop 32)

/-- What `ckd_priv` hashes. -/
def ckdData (parentPrivkey : ℕ) (index : ℤ) : Option Bytes :=
  if hardenedOffset ≤ index then
    (Bytes.ofInt? 32 parentPrivkey).bind fun key =>
      (Bytes.ofInt? 4 index).map fun indexBytes => [0x00] ++ key ++ indexBytes
  else
    (privkeyToPubkeyCompressed parentPrivkey).bind fun key =>
      (Bytes.ofInt? 4 index).map fun indexBytes => key ++ indexBytes

/-- `ckd_priv`: the private key and the chain code of a child. -/
def ckdPriv (parentPrivkey : ℕ) (parentChaincode : Bytes) (index : ℤ) : Option (ℕ × Bytes) :=
  (ckdData parentPrivkey index).map fun data =>
    let digest := lib.hmacSha512 parentChaincode data
    ((Bytes.toNat (digest.take 32) + parentPrivkey) % Secp256k1.order, digest.drop 32)

/-- `ckd_pub`: the compressed key and the chain code of a child, which is not hardened. -/
def ckdPub (parentPubkeyCompressed parentChaincode : Bytes) (index : ℤ) : Option (Bytes × Bytes) :=
  if hardenedOffset ≤ index then none
  else
    (Bytes.ofInt? 4 index).bind fun indexBytes =>
      let digest := lib.hmacSha512 parentChaincode (parentPubkeyCompressed ++ indexBytes)
      let ilPoint := Bytes.toNat (digest.take 32) • Secp256k1.generator
      (decompressPoint parentPubkeyCompressed).bind fun parentPoint =>
        (compressPoint (ilPoint + parentPoint)).map fun childPubkey =>
          (childPubkey, digest.drop 32)

/-- What `derive_priv_path` returns. -/
structure DerivedKey where
  privkey : ℕ
  chaincode : Bytes
  parentPubkey : Bytes
  depth : ℕ
  childNumber : ℤ
  deriving DecidableEq

/-- The index of a segment of a path: its number, hardened by an apostrophe at its end. -/
def segmentIndex (segment : List Char) : Option ℤ :=
  if segment.getLast? = some '\'' then
    (PyText.pyInt 10 segment.dropLast).map (· + hardenedOffset)
  else PyText.pyInt 10 segment

/-- One segment of a path. -/
def deriveSegment (key : DerivedKey) (segment : List Char) : Option DerivedKey :=
  if segment = ['m'] ∨ segment = [] then some key
  else
    (segmentIndex segment).bind fun index =>
      (privkeyToPubkeyCompressed key.privkey).bind fun parentPubkey =>
        (ckdPriv lib key.privkey key.chaincode index).map fun child =>
          { privkey := child.1
            chaincode := child.2
            parentPubkey
            depth := key.depth + 1
            childNumber := index }

/-- `derive_priv_path`. -/
def derivePrivPath (seed : Bytes) (path : List Char) : Option DerivedKey :=
  let master := masterKeyFromSeed lib seed
  (privkeyToPubkeyCompressed master.1).bind fun parentPubkey =>
    ((PyText.strip path).splitOn '/').foldlM (deriveSegment lib)
      { privkey := master.1, chaincode := master.2, parentPubkey, depth := 0, childNumber := 0 }

/-! ## Extended public keys -/

/-- `_hash160`. -/
def hash160 (data : Bytes) : Bytes := lib.ripemd160 (lib.sha256 data)

/-- `serialize_xpub`; `none` when a depth or a child number does not fit its bytes. -/
def serializeXpub (pubkeyCompressed chaincode parentPubkeyCompressed : Bytes) (depth : ℕ)
    (childNumber : ℤ) : Option String :=
  let parentFingerprint :=
    if 0 < depth then (hash160 lib parentPubkeyCompressed).take 4 else [0, 0, 0, 0]
  (Bytes.ofInt? 1 depth).bind fun depthBytes =>
    (Bytes.ofInt? 4 childNumber).map fun childBytes =>
      b58checkEncode lib (xpubVersion ++ depthBytes ++ parentFingerprint ++ childBytes ++
        chaincode ++ pubkeyCompressed)

/-- The compressed key and the chain code of an extended public key. -/
def parseXpub (xpub : String) : Option (Bytes × Bytes) :=
  (b58checkDecode lib xpub).bind fun payload =>
    if payload.take 4 = xpubVersion then
      some ((payload.take 78).drop 45, (payload.take 45).drop 13)
    else none

/-! ## Receive addresses -/

/-- `_RECEIVE_CHANGE_LEVEL`. -/
def receiveChangeLevel : ℤ := 0

/-- The address of a public key: the last 40 digits of the hash of its coordinates. -/
def addressOf (x y : Bytes) : String :=
  let hexdigest := Bytes.hex (lib.keccak256 (x ++ y))
  "0x" ++ String.ofList (hexdigest.drop (hexdigest.length - 40))

/-- The address at an index of an account, which is a compressed key with a chain code. -/
def accountAddress (account : Bytes × Bytes) (index : ℤ) : Option String :=
  (ckdPub lib account.1 account.2 receiveChangeLevel).bind fun change =>
    (ckdPub lib change.1 change.2 index).bind fun address =>
      (decompressPubkey address.1).map fun xy => addressOf lib xy.1 xy.2

/-- `derive_evm_address`. -/
def deriveEvmAddress (index : ℤ) (xpub : String) : Option String :=
  (parseXpub lib xpub).bind fun account => accountAddress lib account index

end Keys

end Gateway
