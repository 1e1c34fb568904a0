import Gateway.Foundations.Hex
import Gateway.Settlement.Consensus
import Gateway.Wallet.WatchOnly

/-!
# What a balance query asks

The call data of `balanceOf(holder)` is put together as text: the address in lower case, without
every `0x` in it, padded to a word with zeros. The contract reads it as bytes. For an address of
forty digits, in any case, these are the selector and the account of the address
(`balanceOfHolder?_balanceOfData`); hence the balance that decides an order is the one of the
account that its derived public key has (`balanceOf_derived`).
-/

namespace Gateway

open Foundations

/-- The account of an address, written as forty digits of either case after `0x`. -/
def addressAccount? (address : String) : Option Bytes :=
  match address.toList with
  | '0' :: 'x' :: digits => (Bytes.unhex? digits).filter fun account => account.length = 20
  | _ => none

/-- The account whose balance an ERC-20 contract is asked for by call data: after the four bytes of
the selector one word, the lower twenty bytes of which are the account. -/
def balanceOfHolder? (data : String) : Option Bytes :=
  match data.toList with
  | '0' :: 'x' :: digits =>
    (Bytes.unhex? digits).bind fun bytes =>
      if bytes.take 4 = [0x70, 0xa0, 0x82, 0x31] ∧ bytes.length = 36 ∧
          (bytes.drop 4).take 12 = List.replicate 12 0 then
        some (bytes.drop 16)
      else none
  | _ => none

theorem addressAccount?_eq_some {address : String} {account : Bytes}
    (h : addressAccount? address = some account) : ∃ digits, address.toList = '0' :: 'x' :: digits ∧
      Bytes.unhex? digits = some account ∧ account.length = 20 := by
  unfold addressAccount? at h
  split at h
  case h_1 digits htext =>
    obtain ⟨hdigits, hlength⟩ := Option.filter_eq_some_iff.mp h
    exact ⟨digits, htext, hdigits, of_decide_eq_true hlength⟩
  case h_2 => cases h

/-! ## The text of the call data -/

theorem dropHexPrefixes_of_not_mem {cs : List Char} (h : 'x' ∉ cs) : dropHexPrefixes cs = cs := by
  induction cs using dropHexPrefixes.induct with
  | case1 => rfl
  | case2 cs ih => exact absurd (by simp) h
  | case3 c cs hhead ih =>
    have hstep : dropHexPrefixes (c :: cs) = c :: dropHexPrefixes cs := by
      rw [dropHexPrefixes]
      exact hhead
    rw [hstep, ih fun hx => h (List.mem_cons_of_mem c hx)]

/-- A text without a sign is padded on the left. -/
theorem zfill_of_digits {cs : List Char} {bs : Bytes} (h : Bytes.unhex? cs = some bs)
    (width : ℕ) : zfill width cs = List.replicate (width - cs.length) '0' ++ cs := by
  have hsign : ∀ c, Bytes.hexDigit? c = none → c ∉ cs := fun c hc hmem =>
    Bytes.hexDigit?_of_mem h hmem hc
  unfold zfill
  split
  case h_1 cs => exact absurd List.mem_cons_self (hsign '+' (by decide))
  case h_2 cs => exact absurd List.mem_cons_self (hsign '-' (by decide))
  case h_3 => rfl

/-- The digits of call data: the selector, the padding and the address in lower case. -/
theorem balanceOfData_toList {address : String} {account : Bytes}
    (h : addressAccount? address = some account) : ∃ digits,
      Bytes.unhex? digits = some account ∧
      (balanceOfData address).toList =
        '0' :: 'x' :: ("70a08231".toList ++ List.replicate 24 '0' ++ digits) := by
  obtain ⟨digits, htext, hdigits, hlength⟩ := addressAccount?_eq_some h
  have hlower : Bytes.unhex? (digits.map Char.toLower) = some account := by
    rw [Bytes.unhex?_map_toLower, hdigits]
  have hx : 'x' ∉ digits.map Char.toLower := fun hx =>
    Bytes.hexDigit?_of_mem hlower hx (by decide)
  have hdrop : dropHexPrefixes (address.toList.map Char.toLower) = digits.map Char.toLower := by
    rw [htext, List.map_cons, List.map_cons]
    exact dropHexPrefixes_of_not_mem hx
  have hwidth : 64 - (digits.map Char.toLower).length = 24 := by
    rw [Bytes.length_of_unhex? hlower, hlength]
  refine ⟨digits.map Char.toLower, hlower, ?_⟩
  rw [balanceOfData, hdrop, zfill_of_digits hlower, hwidth, String.toList_append,
    String.toList_ofList]
  rfl

/-- **The contract reads the account of the address.** -/
theorem balanceOfHolder?_balanceOfData {address : String} {account : Bytes}
    (h : addressAccount? address = some account) :
    balanceOfHolder? (balanceOfData address) = some account := by
  obtain ⟨digits, hdigits, htext⟩ := balanceOfData_toList h
  obtain ⟨-, -, -, hlength⟩ := addressAccount?_eq_some h
  have hhead : Bytes.unhex? ("70a08231".toList ++ List.replicate 24 '0') =
      some ([0x70, 0xa0, 0x82, 0x31] ++ List.replicate 12 0) := by
    decide
  have hbytes := Bytes.unhex?_append hhead digits
  rw [hdigits, Option.map_some] at hbytes
  simp only [balanceOfHolder?, htext, hbytes, Option.bind_some]
  rw [if_pos ⟨rfl, by simp [hlength], rfl⟩]
  rfl

/-! ## Derived addresses -/

section Keys

variable (lib : Primitives)

/-- The account of a public key: the last twenty bytes of the hash of its coordinates. -/
def accountOf (x y : Bytes) : Bytes := (lib.keccak256 (x ++ y)).drop 12

theorem addressOf_toList (x y : Bytes) :
    (addressOf lib x y).toList = '0' :: 'x' :: Bytes.hex (accountOf lib x y) := by
  have hlength : (Bytes.hex (lib.keccak256 (x ++ y))).length - 40 = 2 * 12 := by
    rw [Bytes.length_hex, lib.length_keccak256]
  have htext : (addressOf lib x y).toList =
      "0x".toList ++ (Bytes.hex (lib.keccak256 (x ++ y))).drop (2 * 12) := by
    simp only [addressOf, String.toList_append, hlength, String.toList_ofList]
  rw [htext, Bytes.drop_hex]
  rfl

theorem addressAccount?_addressOf (x y : Bytes) :
    addressAccount? (addressOf lib x y) = some (accountOf lib x y) := by
  have hlength : (accountOf lib x y).length = 20 := by
    rw [accountOf, List.length_drop, lib.length_keccak256]
  rw [addressAccount?, addressOf_toList]
  simp [Bytes.unhex?_hex, hlength]

/-- The coordinates of the public key at `0/index` under an extended public key. -/
def receiveKey (index : ℤ) (xpub : String) : Option (Bytes × Bytes) :=
  (parseXpub lib xpub).bind fun account =>
    (ckdPub lib account.1 account.2 receiveChangeLevel).bind fun change =>
      (ckdPub lib change.1 change.2 index).bind fun address => decompressPubkey address.1

theorem deriveEvmAddress_eq (index : ℤ) (xpub : String) : deriveEvmAddress lib index xpub =
    (receiveKey lib index xpub).map fun xy => addressOf lib xy.1 xy.2 := by
  simp only [deriveEvmAddress, accountAddress, receiveKey, Option.map_bind, Function.comp_def]

variable {lib} {index : ℤ} {xpub address : String}

/-- **The balance of a derived address** is asked for as that of the account of its public key,
however the letters of the address are written. -/
theorem balanceOf_derived (h : deriveEvmAddress lib index xpub = some address) :
    ∃ x y, receiveKey lib index xpub = some (x, y) ∧ address = addressOf lib x y ∧
      ∀ spelling : String, spelling.toList.map Char.toLower = address.toList.map Char.toLower →
        balanceOfHolder? (balanceOfData spelling) = some (accountOf lib x y) := by
  rw [deriveEvmAddress_eq] at h
  obtain ⟨⟨x, y⟩, hkey, rfl⟩ := Option.map_eq_some_iff.mp h
  refine ⟨x, y, hkey, rfl, fun spelling hspelling => ?_⟩
  have hdata : balanceOfData spelling = balanceOfData (addressOf lib x y) := by
    rw [balanceOfData, hspelling, balanceOfData]
  rw [hdata]
  exact balanceOfHolder?_balanceOfData (addressAccount?_addressOf lib x y)

end Keys

end Gateway
