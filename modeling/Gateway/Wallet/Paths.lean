import Gateway.Foundations.FirstMatch
import Gateway.Wallet.WatchOnly

/-!
# Derivation paths

`derive_priv_path` walks down the indices that it reads in a path, and what it returns belongs to
them: the key is the one of the last index, the public key the one of its parent
(`derivedAlong_of_derivePrivPath`). But it reads more than the notation of BIP32: whatever `int`
takes as a number is moved up by the hardened offset before an apostrophe, and not bounded without
one, and a further `m` is passed over. So the path is read as BIP32 has it exactly when each of its
segments is in that notation, unless the derivation raises (`derive_priv_path_reads_bip32_iff`).
-/

namespace Gateway

open Foundations

/-! ## Segments -/

/-- The index of a segment in the notation of BIP32: a decimal number below `2 ^ 31`, which is
hardened by an apostrophe. -/
def bip32Index (segment : List Char) : Option ℤ :=
  let hardened := segment.getLast? = some '\''
  let digits := if hardened then segment.dropLast else segment
  if digits ≠ [] ∧ PyText.IsNumeral 10 digits ∧ PyText.numeral 10 digits < 2 ^ 31 then
    some (PyText.numeral 10 digits + if hardened then 2 ^ 31 else 0)
  else none

/-- The code passes over such a segment. -/
def isSkipped (segment : List Char) : Bool := segment = ['m'] ∨ segment = []

/-- The segments of a path. -/
def pathSegments (path : List Char) : List (List Char) := (PyText.strip path).splitOn '/'

/-- The segments that the code reads as indices. -/
def readSegments (path : List Char) : List (List Char) :=
  (pathSegments path).filter fun segment => !isSkipped segment

/-- The segments that stand for indices: those after the leading `m`, as far as they are not
empty. -/
def indexSegments (path : List Char) : List (List Char) :=
  let segments := pathSegments path
  (if segments.head? = some ['m'] then segments.tail else segments).filter fun segment =>
    segment ≠ []

/-- In a segment of BIP32 the code reads the index that it stands for, or raises. -/
theorem eq_of_bip32Index {segment : List Char} {i j : ℤ} (h : bip32Index segment = some i)
    (hread : segmentIndex segment = some j) : j = i := by
  simp only [bip32Index] at h
  unfold segmentIndex at hread
  by_cases hhardened : segment.getLast? = some '\''
  · simp only [if_pos hhardened] at h hread
    split_ifs at h with hdigits
    obtain ⟨hne, hnumeral, -⟩ := hdigits
    obtain ⟨n, hn, rfl⟩ := Option.map_eq_some_iff.mp hread
    rw [← Option.some.inj h, PyText.eq_numeral_of_pyInt hnumeral hne hn]
    rfl
  · simp only [if_neg hhardened] at h hread
    split_ifs at h with hdigits
    obtain ⟨hne, hnumeral, -⟩ := hdigits
    rw [← Option.some.inj h, PyText.eq_numeral_of_pyInt hnumeral hne hread, add_zero]

theorem bip32Index_of_isSkipped {segment : List Char} (h : isSkipped segment) :
    bip32Index segment = none := by
  rcases of_decide_eq_true h with rfl | rfl <;> decide

/-- When all that stands for an index is in the notation, the code reads the same segments. -/
theorem readSegments_eq {path : List Char}
    (h : ∀ segment ∈ indexSegments path, (bip32Index segment).isSome) :
    readSegments path = indexSegments path := by
  have hread : ∀ segments : List (List Char),
      (∀ segment ∈ segments.filter (fun segment => segment ≠ []), (bip32Index segment).isSome) →
      segments.filter (fun segment => !isSkipped segment) =
        segments.filter fun segment => segment ≠ [] := by
    intro segments hall
    refine List.filter_congr fun segment hmem => ?_
    by_cases hempty : segment = []
    · simp [hempty, isSkipped]
    · have hsome := hall segment (List.mem_filter.mpr ⟨hmem, by simpa using hempty⟩)
      cases hskip : isSkipped segment with
      | true =>
        rw [bip32Index_of_isSkipped hskip] at hsome
        cases hsome
      | false => simp [hempty]
  unfold indexSegments at h ⊢
  unfold readSegments
  cases hsegments : pathSegments path with
  | nil => rfl
  | cons first rest =>
    simp only [hsegments, List.head?_cons, List.tail_cons, Option.some.injEq] at h ⊢
    by_cases hm : first = ['m']
    · rw [if_pos hm] at h ⊢
      rw [hm, List.filter_cons_of_neg (by decide), hread rest h]
    · rw [if_neg hm] at h ⊢
      exact hread _ h

section Keys

variable (lib : Primitives) (seed : Bytes)

/-! ## Keys along indices -/

/-- The private key and the chain code at the end of some indices. -/
def childAlong (indices : List ℤ) : Option (ℕ × Bytes) :=
  exec (fun key index => ckdPriv lib key.1 key.2 index) (masterKeyFromSeed lib seed) indices

/-- What belongs to the key at the end of some indices: how many they are, the last of them, the
keys that are derived along them, and the public key of the parent. -/
structure DerivedAlong (indices : List ℤ) (key : DerivedKey) : Prop where
  depth : key.depth = indices.length
  childNumber : key.childNumber = indices.getLast?.getD 0
  child : childAlong lib seed indices = some (key.privkey, key.chaincode)
  parent : ∃ parent, childAlong lib seed indices.dropLast = some parent ∧
    privkeyToPubkeyCompressed parent.1 = some key.parentPubkey

/-- No key has the number zero that has a child along the indices. -/
def NonzeroParents (indices : List ℤ) : Prop :=
  ∀ before key, before <+: indices.dropLast → childAlong lib seed before = some key →
    key.1 % Secp256k1.order ≠ 0

variable {lib seed}

theorem childAlong_concat (indices : List ℤ) (index : ℤ) :
    childAlong lib seed (indices ++ [index]) =
      (childAlong lib seed indices).bind fun key => ckdPriv lib key.1 key.2 index := by
  rw [childAlong, exec_append, childAlong]
  simp only [exec_cons, exec_nil, Option.bind_fun_some]

/-- One more index. -/
theorem DerivedAlong.concat {indices : List ℤ} {key : DerivedKey}
    (h : DerivedAlong lib seed indices key) {index : ℤ} {parentPubkey : Bytes} {child : ℕ × Bytes}
    (hpubkey : privkeyToPubkeyCompressed key.privkey = some parentPubkey)
    (hchild : ckdPriv lib key.privkey key.chaincode index = some child) :
    DerivedAlong lib seed (indices ++ [index])
      ⟨child.1, child.2, parentPubkey, key.depth + 1, index⟩ where
  depth := by simp [h.depth]
  childNumber := by simp
  child := by rw [childAlong_concat, h.child, Option.bind_some, hchild]
  parent := by
    rw [List.dropLast_concat]
    exact ⟨_, h.child, hpubkey⟩

/-- A private key that has a public key is not zero. -/
theorem mod_order_ne_zero {k : ℕ} {pubkey : Bytes} (h : privkeyToPubkeyCompressed k = some pubkey) :
    k % Secp256k1.order ≠ 0 := by
  intro hzero
  rw [privkeyToPubkeyCompressed, Secp256k1.smul_generator_eq_zero.mpr hzero] at h
  cases h

theorem NonzeroParents.concat {indices : List ℤ} (h : NonzeroParents lib seed indices)
    {parent : ℕ × Bytes} (hparent : childAlong lib seed indices = some parent) {pubkey : Bytes}
    (hpubkey : privkeyToPubkeyCompressed parent.1 = some pubkey) {index : ℤ} :
    NonzeroParents lib seed (indices ++ [index]) := by
  intro before key hbefore hkey
  rw [List.dropLast_concat] at hbefore
  rcases List.eq_nil_or_concat' indices with rfl | ⟨earlier, last, rfl⟩
  · exact h before key hbefore hkey
  · rcases List.prefix_concat_iff.mp hbefore with rfl | hprefix
    · obtain rfl := Option.some.inj (hparent.symm.trans hkey)
      exact mod_order_ne_zero hpubkey
    · refine h before key ?_ hkey
      rwa [List.dropLast_concat]

/-- A key that fits in its 32 bytes. -/
theorem childAlong_lt {indices : List ℤ} {key : ℕ × Bytes}
    (h : childAlong lib seed indices = some key) : key.1 < 256 ^ 32 := by
  have hmaster : (masterKeyFromSeed lib seed).1 < 256 ^ 32 := by
    have hlt := Bytes.toNat_lt ((lib.hmacSha512 "Bitcoin seed".toUTF8.toList seed).take 32)
    rwa [List.length_take, lib.length_hmacSha512] at hlt
  have hstep : ∀ (key : ℕ × Bytes) (index : ℤ) (child : ℕ × Bytes), key.1 < 256 ^ 32 →
      ckdPriv lib key.1 key.2 index = some child → child.1 < 256 ^ 32 := by
    intro key index child _ hchild
    obtain ⟨data, -, rfl⟩ := Option.map_eq_some_iff.mp hchild
    exact (Nat.mod_lt _ (by decide)).trans (by decide)
  exact exec_invariant hstep h hmaster

variable (lib) in
/-- A key that is not zero has a child at every index of four bytes. -/
theorem ckdPriv_isSome_of_lt {k : ℕ} (hk : k % Secp256k1.order ≠ 0) (hlt : k < 256 ^ 32)
    (c : Bytes) {index : ℤ} (hindex : 0 ≤ index ∧ index < 2 ^ 32) :
    ∃ child, ckdPriv lib k c index = some child := by
  obtain ⟨pubkey, hpubkey⟩ := privkeyToPubkeyCompressed_isSome hk
  obtain ⟨n, rfl⟩ := Int.eq_ofNat_of_zero_le hindex.1
  have hkey := Bytes.ofInt?_natCast hlt
  have hbytes := Bytes.ofInt?_natCast (show n < 256 ^ 4 by have := hindex.2; omega)
  simp only [ckdPriv, ckdData, hpubkey, hkey, hbytes, Option.bind_some, Option.map_some]
  split_ifs <;> exact ⟨_, rfl⟩

/-! ## Paths -/

theorem filter_concat_of_skipped {segments : List (List Char)} {segment : List Char}
    (h : segment = ['m'] ∨ segment = []) :
    (segments ++ [segment]).filter (fun segment => !isSkipped segment) =
      segments.filter fun segment => !isSkipped segment := by
  have hskip : isSkipped segment = true := decide_eq_true h
  rw [List.filter_append, List.filter_cons_of_neg (by simp [hskip]), List.filter_nil,
    List.append_nil]

theorem filter_concat_of_read {segments : List (List Char)} {segment : List Char}
    (h : ¬ (segment = ['m'] ∨ segment = [])) :
    (segments ++ [segment]).filter (fun segment => !isSkipped segment) =
      segments.filter (fun segment => !isSkipped segment) ++ [segment] := by
  have hread : isSkipped segment = false := decide_eq_false h
  rw [List.filter_append, List.filter_cons_of_pos (by simp [hread]), List.filter_nil]

/-- What is derived along segments belongs to the indices that are read in them. -/
theorem derivedAlong_of_exec {segments : List (List Char)} {pubkey : Bytes} {key : DerivedKey}
    (hpubkey : privkeyToPubkeyCompressed (masterKeyFromSeed lib seed).1 = some pubkey)
    (h : exec (deriveSegment lib) ⟨(masterKeyFromSeed lib seed).1, (masterKeyFromSeed lib seed).2,
      pubkey, 0, 0⟩ segments = some key) :
    ∃ indices, (segments.filter fun segment => !isSkipped segment).mapM segmentIndex =
        some indices ∧
      (∀ index ∈ indices, 0 ≤ index ∧ index < 2 ^ 32) ∧ DerivedAlong lib seed indices key ∧
      NonzeroParents lib seed indices := by
  induction segments using List.reverseRecOn generalizing key with
  | nil =>
    obtain rfl := Option.some.inj h
    refine ⟨[], rfl, nofun, ⟨rfl, rfl, rfl, _, rfl, hpubkey⟩, fun before key hbefore hkey => ?_⟩
    obtain rfl := List.prefix_nil.mp hbefore
    obtain rfl := Option.some.inj hkey
    exact mod_order_ne_zero hpubkey
  | append_singleton segments segment ih =>
    rw [exec_append] at h
    obtain ⟨before, hbefore, h⟩ := Option.bind_eq_some_iff.mp h
    simp only [exec_cons, exec_nil, Option.bind_fun_some] at h
    obtain ⟨indices, hindices, hrange, hderived, hnonzero⟩ := ih hbefore
    rcases deriveSegment_eq_some h with
      ⟨hskip, rfl⟩ | ⟨hread, index, parentPubkey, child, hindex, hparent, hchild, rfl⟩
    · refine ⟨indices, ?_, hrange, hderived, hnonzero⟩
      rw [filter_concat_of_skipped hskip, hindices]
    · refine ⟨indices ++ [index], ?_, fun i hi => ?_, hderived.concat hparent hchild,
        hnonzero.concat hderived.child hparent⟩
      · rw [filter_concat_of_read hread, mapM_concat, hindices, Option.bind_some, hindex,
          Option.map_some]
      · rcases List.mem_append.mp hi with hi | hi
        · exact hrange i hi
        · obtain rfl := List.mem_singleton.mp hi
          have := index_of_ckdPriv hchild
          omega

/-- Segments in which indices of four bytes are read are derived, unless a parent is zero. -/
theorem exists_derivedAlong {segments : List (List Char)} {pubkey : Bytes} {indices : List ℤ}
    (hpubkey : privkeyToPubkeyCompressed (masterKeyFromSeed lib seed).1 = some pubkey)
    (hindices : (segments.filter fun segment => !isSkipped segment).mapM segmentIndex =
      some indices)
    (hrange : ∀ index ∈ indices, 0 ≤ index ∧ index < 2 ^ 32)
    (hparents : NonzeroParents lib seed indices) :
    ∃ key, exec (deriveSegment lib) ⟨(masterKeyFromSeed lib seed).1,
      (masterKeyFromSeed lib seed).2, pubkey, 0, 0⟩ segments = some key := by
  induction segments using List.reverseRecOn generalizing indices with
  | nil => exact ⟨_, rfl⟩
  | append_singleton segments segment ih =>
    by_cases hskip : segment = ['m'] ∨ segment = []
    · rw [filter_concat_of_skipped hskip] at hindices
      obtain ⟨key, hkey⟩ := ih hindices hrange hparents
      refine ⟨key, ?_⟩
      rw [exec_append, hkey, Option.bind_some, exec_cons, deriveSegment, if_pos hskip]
      rfl
    · rw [filter_concat_of_read hskip, mapM_concat] at hindices
      obtain ⟨earlier, hearlier, hindices⟩ := Option.bind_eq_some_iff.mp hindices
      obtain ⟨index, hindex, rfl⟩ := Option.map_eq_some_iff.mp hindices
      rw [NonzeroParents, List.dropLast_concat] at hparents
      obtain ⟨before, hbefore⟩ := ih hearlier
        (fun i hi => hrange i (List.mem_append_left _ hi))
        fun pre key hpre => hparents pre key (hpre.trans (List.dropLast_prefix _))
      obtain ⟨indices', hindices', -, hderived, -⟩ := derivedAlong_of_exec hpubkey hbefore
      obtain rfl := Option.some.inj (hearlier.symm.trans hindices')
      have hne : before.privkey % Secp256k1.order ≠ 0 :=
        hparents _ _ List.prefix_rfl hderived.child
      obtain ⟨parentPubkey, hparent⟩ := privkeyToPubkeyCompressed_isSome hne
      obtain ⟨child, hchild⟩ := ckdPriv_isSome_of_lt lib hne
        (childAlong_lt hderived.child) before.chaincode (hrange index (by simp))
      refine ⟨⟨child.1, child.2, parentPubkey, before.depth + 1, index⟩, ?_⟩
      rw [exec_append, hbefore, Option.bind_some, exec_cons,
        deriveSegment_of_index hskip hindex hparent hchild]
      rfl

variable (lib seed)

/-- A key on the way to the last index is zero, so that it has no public key. -/
def MeetsZeroKey (path : List Char) : Prop :=
  ∃ indices, (readSegments path).mapM segmentIndex = some indices ∧
    ¬ NonzeroParents lib seed indices

/-- A path has a segment in which no index of four bytes is read. -/
def HasUnreadable (path : List Char) : Prop :=
  ∃ segment ∈ readSegments path, ∀ index, segmentIndex segment = some index →
    ¬ (0 ≤ index ∧ index < 2 ^ 32)

/-- All that stands for an index is in the notation of BIP32. -/
def IsBip32Path (path : List Char) : Prop :=
  ∀ segment ∈ indexSegments path, (bip32Index segment).isSome

/-- The path is read as BIP32 has it: unless the derivation raises, every segment stands for an
index, and what is returned belongs to these indices. -/
def ReadsBip32 (path : List Char) : Prop :=
  ∀ key, derivePrivPath lib seed path = some key →
    ∃ indices, (indexSegments path).mapM bip32Index = some indices ∧
      DerivedAlong lib seed indices key

variable {lib seed} {path : List Char}

/-- **What is derived belongs to the indices that are read.** -/
theorem derivedAlong_of_derivePrivPath {key : DerivedKey}
    (h : derivePrivPath lib seed path = some key) :
    ∃ indices, (readSegments path).mapM segmentIndex = some indices ∧
      (∀ index ∈ indices, 0 ≤ index ∧ index < 2 ^ 32) ∧ DerivedAlong lib seed indices key ∧
      NonzeroParents lib seed indices := by
  simp only [derivePrivPath] at h
  obtain ⟨pubkey, hpubkey, h⟩ := Option.bind_eq_some_iff.mp h
  rw [← exec_eq_foldlM] at h
  exact derivedAlong_of_exec hpubkey h

/-- The derivation raises exactly when a segment cannot be read, or a key on the way is zero. -/
theorem derivePrivPath_eq_none :
    derivePrivPath lib seed path = none ↔ HasUnreadable path ∨ MeetsZeroKey lib seed path := by
  rw [Option.eq_none_iff_forall_ne_some]
  constructor
  · intro hraises
    by_contra hreads
    rw [not_or] at hreads
    obtain ⟨hreadable, hnonzero⟩ := hreads
    have hread : ∀ segment ∈ readSegments path, ∃ index, segmentIndex segment = some index ∧
        0 ≤ index ∧ index < 2 ^ 32 := by
      intro segment hmem
      by_contra hno
      exact hreadable ⟨segment, hmem, fun index hindex hrange => hno ⟨index, hindex, hrange⟩⟩
    obtain ⟨indices, hindices⟩ := exists_mapM fun segment hmem => by
      obtain ⟨index, hindex, -⟩ := hread segment hmem
      exact Option.isSome_of_eq_some hindex
    have hrange : ∀ index ∈ indices, 0 ≤ index ∧ index < 2 ^ 32 := by
      intro index hmem
      obtain ⟨segment, hsegment, hindex⟩ := mem_of_mapM hindices hmem
      obtain ⟨index', hindex', hrange⟩ := hread segment hsegment
      obtain rfl := Option.some.inj (hindex.symm.trans hindex')
      exact hrange
    have hparents : NonzeroParents lib seed indices := by
      by_contra hzero
      exact hnonzero ⟨indices, hindices, hzero⟩
    have hmaster : (masterKeyFromSeed lib seed).1 % Secp256k1.order ≠ 0 :=
      hparents [] _ List.nil_prefix rfl
    obtain ⟨pubkey, hpubkey⟩ := privkeyToPubkeyCompressed_isSome hmaster
    obtain ⟨key, hkey⟩ := exists_derivedAlong hpubkey hindices hrange hparents
    exact hraises key (derivePrivPath_of_exec rfl hpubkey rfl hkey)
  · rintro (⟨segment, hmem, hunreadable⟩ | ⟨indices', hindices', hzero⟩) key h
    · obtain ⟨indices, hindices, hrange, -, -⟩ := derivedAlong_of_derivePrivPath h
      obtain ⟨index, hindex, hsegment⟩ := exists_of_mapM hindices hmem
      exact hunreadable index hsegment (hrange index hindex)
    · obtain ⟨indices, hindices, -, -, hnonzero⟩ := derivedAlong_of_derivePrivPath h
      obtain rfl := Option.some.inj (hindices.symm.trans hindices')
      exact hzero hnonzero

/-- In the notation of BIP32 the code reads the indices that the segments stand for. -/
theorem IsBip32Path.mapM_eq (h : IsBip32Path path) {indices : List ℤ}
    (hindices : (readSegments path).mapM segmentIndex = some indices) :
    (indexSegments path).mapM bip32Index = some indices := by
  rw [readSegments_eq h, mapM_eq_some] at hindices
  rw [mapM_eq_some, ← hindices]
  refine List.map_congr_left fun segment hmem => ?_
  obtain ⟨index, hindex⟩ := Option.isSome_iff_exists.mp (h segment hmem)
  have hread : segmentIndex segment ∈ indices.map some := by
    rw [← hindices]
    exact List.mem_map_of_mem hmem
  obtain ⟨index', -, hindex'⟩ := List.mem_map.mp hread
  rw [hindex, ← hindex', eq_of_bip32Index hindex hindex'.symm]

end Keys

/-- **A path is read as BIP32 has it exactly when its segments are in that notation**, or the
derivation raises: because of a segment in which no index of four bytes is read, or of a key on the
way that is zero. Whatever the path, what is returned belongs to the indices that are read. -/
theorem derive_priv_path_reads_bip32_iff (lib : Primitives) (seed : Bytes) (path : List Char) :
    (ReadsBip32 lib seed path ↔
      IsBip32Path path ∨ HasUnreadable path ∨ MeetsZeroKey lib seed path) ∧
    ∀ key, derivePrivPath lib seed path = some key →
      ∃ indices, (readSegments path).mapM segmentIndex = some indices ∧
        DerivedAlong lib seed indices key := by
  refine ⟨⟨fun hreads => ?_, ?_⟩, fun key hkey => ?_⟩
  · rw [or_iff_not_imp_right, ← derivePrivPath_eq_none]
    intro hsome
    obtain ⟨key, hkey⟩ := Option.ne_none_iff_exists'.mp hsome
    obtain ⟨indices, hindices, -⟩ := hreads key hkey
    intro segment hmem
    obtain ⟨index, -, hindex⟩ := exists_of_mapM hindices hmem
    exact Option.isSome_of_eq_some hindex
  · rintro (hbip32 | hraises) key hkey
    · obtain ⟨indices, hindices, -, hderived, -⟩ := derivedAlong_of_derivePrivPath hkey
      exact ⟨indices, hbip32.mapM_eq hindices, hderived⟩
    · rw [derivePrivPath_eq_none.mpr hraises] at hkey
      cases hkey
  · obtain ⟨indices, hindices, -, hderived, -⟩ := derivedAlong_of_derivePrivPath hkey
    exact ⟨indices, hindices, hderived⟩

/-! ### Two misread paths -/

/-- HMAC-SHA512 on the way from the seed of the wallet to its children at the last index that is not
hardened, whose four bytes end with `0xff`, and at the first hardened one. -/
def misreadHmac (key data : Bytes) : Bytes :=
  if key = "Bitcoin seed".toUTF8.toList then sampleHmac key
  else if data.getLast? = some 0xff then
    Bytes.ofNat 32 0xff04bebd7cd4ebc55b18c0a8b1507d893f79e81ad7bbb09404af5d587cdb37fe ++
      Bytes.ofNat 32 0x148f22ef59cd119925d9d23611ac2a4f2f8f73223c2d6550dc8d66d910f8fc16
  else
    Bytes.ofNat 32 0xa85531730b3aecd45be62fa99984a2692753ad4536e9d4915d2713c9490f1a08 ++
      Bytes.ofNat 32 0xf1c03f5ff97108912fd56761d3fada8879e4173aba45f10da4bbd94b1c497160

theorem length_misreadHmac (key data : Bytes) : (misreadHmac key data).length = 64 := by
  unfold misreadHmac
  split_ifs
  · exact sampleLibraries.length_hmacSha512 key data
  · simp
  · simp

/-- The libraries with that HMAC-SHA-512. -/
def misreadLibraries : Primitives :=
  { sampleLibraries with hmacSha512 := misreadHmac, length_hmacSha512 := length_misreadHmac }

/-- A path of one segment that is read as an index is derived along that index. -/
theorem exists_misread {path : List Char} {index : ℤ}
    (hsegments : (readSegments path).mapM segmentIndex = some [index])
    (hrange : 0 ≤ index ∧ index < 2 ^ 32) :
    ∃ key, derivePrivPath misreadLibraries sampleSeed path = some key ∧ key.depth = 1 ∧
      key.childNumber = index := by
  have hmaster : (masterKeyFromSeed misreadLibraries sampleSeed).1 % Secp256k1.order ≠ 0 := by
    decide +kernel
  have hsome : derivePrivPath misreadLibraries sampleSeed path ≠ none := by
    rw [ne_eq, derivePrivPath_eq_none, not_or]
    refine ⟨?_, ?_⟩
    · rintro ⟨segment, hmem, hunreadable⟩
      obtain ⟨index', hindex', hsegment⟩ := exists_of_mapM hsegments hmem
      obtain rfl := List.mem_singleton.mp hindex'
      exact hunreadable _ hsegment hrange
    · rintro ⟨indices, hindices, hzero⟩
      obtain rfl := Option.some.inj (hsegments.symm.trans hindices)
      refine hzero fun before key hbefore hkey => ?_
      obtain rfl := List.prefix_nil.mp hbefore
      obtain rfl := Option.some.inj hkey
      exact hmaster
  obtain ⟨key, hkey⟩ := Option.ne_none_iff_exists'.mp hsome
  obtain ⟨indices, hindices, -, hderived, -⟩ := derivedAlong_of_derivePrivPath hkey
  obtain rfl := Option.some.inj (hsegments.symm.trans hindices)
  exact ⟨key, hkey, hderived.depth, hderived.childNumber⟩

/-- A hardened negative number is read as an index that is not hardened, and a number that is too
large as a hardened one. -/
theorem misread_paths :
    (∃ key, derivePrivPath misreadLibraries sampleSeed "m/-1'".toList = some key ∧
      key.childNumber = 2 ^ 31 - 1) ∧
    ¬ ReadsBip32 misreadLibraries sampleSeed "m/-1'".toList ∧
    (∃ key, derivePrivPath misreadLibraries sampleSeed "m/2147483648".toList = some key ∧
      key.childNumber = hardenedOffset) ∧
    ¬ ReadsBip32 misreadLibraries sampleSeed "m/2147483648".toList := by
  have hnegative : (readSegments "m/-1'".toList).mapM segmentIndex = some [2 ^ 31 - 1] := by
    decide +kernel
  have hlarge : (readSegments "m/2147483648".toList).mapM segmentIndex = some [hardenedOffset] := by
    decide +kernel
  obtain ⟨key, hkey, -, hnumber⟩ := exists_misread hnegative (by decide)
  obtain ⟨key', hkey', -, hnumber'⟩ := exists_misread hlarge (by decide)
  refine ⟨⟨key, hkey, hnumber⟩, fun hreads => ?_, ⟨key', hkey', hnumber'⟩, fun hreads => ?_⟩
  · obtain ⟨indices, hindices, -⟩ := hreads key hkey
    have hnone : (indexSegments "m/-1'".toList).mapM bip32Index = none := by decide +kernel
    rw [hnone] at hindices
    cases hindices
  · obtain ⟨indices, hindices, -⟩ := hreads key' hkey'
    have hnone : (indexSegments "m/2147483648".toList).mapM bip32Index = none := by decide +kernel
    rw [hnone] at hindices
    cases hindices

end Gateway
