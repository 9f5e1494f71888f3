import Chirc.Sds
import Mathlib.Tactic.IntervalCases

/-! # The layout of a string

A block with a string holds the header, the bytes, a NUL and the bytes that are free. `Layout` is
such a block whose numbers fit into the fields of its header. Each function makes a layout of a
layout, and reads and writes within the block. -/

namespace Chirc.Sds

open Block (leBytes ofLe)

/-- What is smaller fits into the header. -/
def SdsType.limit : SdsType → Nat
  | .type5 => 32
  | .type8 => 256
  | .type16 => 65536
  | .type32 => 4294967296
  | .type64 => 18446744073709551616

/-- The byte `flags` -/
def SdsType.flags : SdsType → Nat → Byte
  | .type5, len => UInt8.ofNat (len * 8)
  | type, _ => type.code

/-- The header of a string of `len` bytes -/
def SdsType.hdr (type : SdsType) (len alloc : Nat) : List Byte :=
  leBytes type.width len ++ leBytes type.width alloc ++ [type.flags len]

/-- A string with this header and these bytes behind it -/
def SdsType.block (type : SdsType) (len alloc : Nat) (region : List Byte) : Sds :=
  ⟨type.hdr len alloc ++ region, type.hdrSize⟩

theorem SdsType.length_hdr (type : SdsType) (len alloc : Nat) :
    (type.hdr len alloc).length = type.hdrSize := by
  rw [hdr, List.length_append, List.length_append, Block.length_leBytes, Block.length_leBytes,
    hdrSize]
  exact congrArg (· + 1) (Nat.two_mul _).symm

theorem SdsType.limit_eq {type : SdsType} (h : type ≠ .type5) : type.limit = 256 ^ type.width := by
  cases type with
  | type5 => exact absurd rfl h
  | type8 => rfl
  | type16 => rfl
  | type32 => rfl
  | type64 => rfl

theorem lt_limit_sdsReqType (h : n < 18446744073709551616) : n < (sdsReqType n).limit := by
  rw [sdsReqType]
  split
  · assumption
  split
  · assumption
  split
  · assumption
  split
  · assumption
  · exact h

/-! ## Bits -/

theorem type5_and (h : len < 32) : (UInt8.ofNat (len * 8) &&& 7).toNat = 0 := by
  interval_cases len <;> rfl

theorem type5_shiftRight (h : len < 32) : (UInt8.ofNat (len * 8) >>> 3).toNat = len := by
  interval_cases len <;> rfl

theorem sdsType_code (type : SdsType) : sdsType type.code = some type := by
  cases type <;> decide

theorem sdsType_flags {type : SdsType} (h : len < type.limit) :
    sdsType (type.flags len) = some type := by
  cases type with
  | type5 =>
    rw [sdsType, SdsType.flags, type5_and h]
    rfl
  | type8 => exact sdsType_code .type8
  | type16 => exact sdsType_code .type16
  | type32 => exact sdsType_code .type32
  | type64 => exact sdsType_code .type64

section

variable {type : SdsType} {len alloc : Nat} {region : List Byte}

/-! ## Reads of the header -/

theorem load_of_eq {mem xs : List Byte} (pre post : List Byte) (hmem : mem = pre ++ xs ++ post)
    (hi : i = pre.length) (hn : n = xs.length) : load mem i n = .ok xs := by
  rw [load, Block.read_of_eq hmem hi hn]
  rfl

theorem store_of_eq {mem mem' xs : List Byte} (pre old post : List Byte)
    (hmem : mem = pre ++ old ++ post) (hi : i = pre.length) (hlen : old.length = xs.length)
    (hmem' : mem' = pre ++ xs ++ post) : store mem i xs = .ok mem' := by
  rw [store, Block.write_of_eq hmem hi hlen, hmem']
  rfl

theorem back_of_le (h : n ≤ i) : back i n = .ok (i - n) := if_pos h

theorem back_hdrSize (type : SdsType) : back type.hdrSize type.hdrSize = .ok 0 := by
  rw [back_of_le (Nat.le_refl _), Nat.sub_self]

theorem back_one (type : SdsType) : back type.hdrSize 1 = .ok (2 * type.width) :=
  back_of_le (Nat.le_add_left 1 _)

theorem flags_block (type : SdsType) (len alloc : Nat) (region : List Byte) :
    flags (type.block len alloc region) = .ok (type.flags len) := by
  have hlen : 2 * type.width = (leBytes type.width len ++ leBytes type.width alloc).length := by
    rw [List.length_append, Block.length_leBytes, Block.length_leBytes, Nat.two_mul]
  rw [flags, SdsType.block, back_one, Stop.ok_bind, loadByte, SdsType.hdr, List.append_assoc, hlen,
    List.getElem?_append_right (Nat.le_refl _), Nat.sub_self]
  rfl

theorem load_len (type : SdsType) (len alloc : Nat) (region : List Byte) :
    load (type.block len alloc region).sh 0 type.width = .ok (leBytes type.width len) := by
  refine load_of_eq [] (leBytes type.width alloc ++ [type.flags len] ++ region) ?_
    rfl (Block.length_leBytes _ _).symm
  rw [SdsType.block, SdsType.hdr, List.nil_append]
  simp only [List.append_assoc]

theorem load_alloc (type : SdsType) (len alloc : Nat) (region : List Byte) :
    load (type.block len alloc region).sh (0 + type.width) type.width =
      .ok (leBytes type.width alloc) := by
  refine load_of_eq (leBytes type.width len) ([type.flags len] ++ region) ?_ ?_
    (Block.length_leBytes _ _).symm
  · rw [SdsType.block, SdsType.hdr, List.append_assoc]
  · rw [Block.length_leBytes, Nat.zero_add]

theorem loadInt_len (hne : type ≠ .type5) (h : len < type.limit) (alloc : Nat)
    (region : List Byte) : loadInt (type.block len alloc region).sh 0 type.width = .ok len := by
  rw [loadInt, load_len, Stop.ok_bind, Block.ofLe_leBytes_of_lt (type.limit_eq hne ▸ h)]
  rfl

theorem loadInt_alloc (hne : type ≠ .type5) (h : alloc < type.limit) (len : Nat)
    (region : List Byte) :
    loadInt (type.block len alloc region).sh (0 + type.width) type.width = .ok alloc := by
  rw [loadInt, load_alloc, Stop.ok_bind, Block.ofLe_leBytes_of_lt (type.limit_eq hne ▸ h)]
  rfl

/-- `sdslen` gives the length in the header. -/
theorem sdslen_block (h : len < type.limit) (alloc : Nat) (region : List Byte) :
    sdslen (type.block len alloc region) = .ok len := by
  by_cases h5 : type = .type5
  · subst h5
    rw [sdslen, flags_block, Stop.ok_bind, sdsType_flags h]
    exact congrArg Except.ok (type5_shiftRight h)
  · have hread := loadInt_len h5 h alloc region
    rw [sdslen, flags_block, Stop.ok_bind, sdsType_flags h]
    cases type with
    | type5 => exact absurd rfl h5
    | _ => exact hread

/-- `sdsalloc`: a string of type 5 has no room but for its bytes. -/
theorem sdsalloc_block (h : len < type.limit) (ha : type ≠ .type5 → alloc < type.limit)
    (region : List Byte) :
    sdsalloc (type.block len alloc region) = .ok (if type = .type5 then len else alloc) := by
  by_cases h5 : type = .type5
  · subst h5
    rw [sdsalloc, flags_block, Stop.ok_bind, sdsType_flags h]
    exact congrArg Except.ok (type5_shiftRight h)
  · have hread := loadInt_alloc h5 (ha h5) len region
    rw [sdsalloc, flags_block, Stop.ok_bind, sdsType_flags h, if_neg h5]
    cases type with
    | type5 => exact absurd rfl h5
    | _ => exact hread

theorem sizeT_of_lt (h : n < 18446744073709551616) : sizeT n = n := Nat.mod_eq_of_lt h

/-- A difference of unsigned numbers, as the code has it -/
theorem sub_mod (h : len ≤ alloc) (ha : alloc < m) : (alloc + m - len) % m = alloc - len := by
  rw [Nat.sub_add_comm h, Nat.add_mod_right, Nat.mod_eq_of_lt (by omega)]

theorem SdsType.limit_le (type : SdsType) : type.limit ≤ 18446744073709551616 := by
  cases type <;> decide

/-- `sdsavail` -/
theorem sdsavail_block (hlen : len < type.limit) (h : len ≤ alloc)
    (ha : type ≠ .type5 → alloc < type.limit) (region : List Byte) :
    sdsavail (type.block len alloc region) =
      .ok (if type = .type5 then 0 else alloc - len) := by
  by_cases h5 : type = .type5
  · subst h5
    rw [sdsavail, flags_block, Stop.ok_bind, sdsType_flags hlen]
    rfl
  · have hread : (do
        let sh ← back type.hdrSize type.hdrSize
        let len' ← loadInt (type.block len alloc region).sh sh type.width
        let alloc' ← loadInt (type.block len alloc region).sh (sh + type.width) type.width
        if type = .type32 then return (alloc' + 4294967296 - len') % 4294967296
        else return sizeT (alloc' + 18446744073709551616 - len')) =
          (.ok (alloc - len) : Except Stop Nat) := by
      rw [back_hdrSize, Stop.ok_bind, loadInt_len h5 hlen, Stop.ok_bind, loadInt_alloc h5 (ha h5),
        Stop.ok_bind]
      split
      · next h32 =>
        subst h32
        exact congrArg Except.ok (sub_mod h (ha h5))
      · exact congrArg Except.ok (sub_mod h (Nat.lt_of_lt_of_le (ha h5) type.limit_le))
    rw [sdsavail, flags_block, Stop.ok_bind, sdsType_flags hlen, if_neg h5]
    cases type with
    | type5 => exact absurd rfl h5
    | _ => exact hread

/-! ## Writes to the header -/

theorem store_len (type : SdsType) (len alloc newlen : Nat) (f : Byte) (region : List Byte) :
    store (leBytes type.width len ++ leBytes type.width alloc ++ [f] ++ region) 0
      (leBytes type.width newlen) =
      .ok (leBytes type.width newlen ++ leBytes type.width alloc ++ [f] ++ region) := by
  refine store_of_eq [] (leBytes type.width len)
    (leBytes type.width alloc ++ [f] ++ region) ?_ rfl ?_ ?_
  · simp only [List.nil_append, List.append_assoc]
  · rw [Block.length_leBytes, Block.length_leBytes]
  · simp only [List.nil_append, List.append_assoc]

theorem store_alloc (type : SdsType) (len alloc newalloc : Nat) (f : Byte) (region : List Byte) :
    store (leBytes type.width len ++ leBytes type.width alloc ++ [f] ++ region) (0 + type.width)
      (leBytes type.width newalloc) =
      .ok (leBytes type.width len ++ leBytes type.width newalloc ++ [f] ++ region) := by
  refine store_of_eq (leBytes type.width len) (leBytes type.width alloc)
    ([f] ++ region) ?_ ?_ ?_ ?_
  · rw [List.append_assoc]
  · rw [Block.length_leBytes, Nat.zero_add]
  · rw [Block.length_leBytes, Block.length_leBytes]
  · rw [List.append_assoc]

/-- A write of the byte before the string -/
theorem store_flags (type : SdsType) (len alloc : Nat) (f f' : Byte) (region : List Byte) :
    store (leBytes type.width len ++ leBytes type.width alloc ++ [f] ++ region)
      (2 * type.width) [f'] =
      .ok (leBytes type.width len ++ leBytes type.width alloc ++ [f'] ++ region) := by
  refine store_of_eq (leBytes type.width len ++ leBytes type.width alloc) [f]
    region rfl ?_ rfl rfl
  rw [List.length_append, Block.length_leBytes, Block.length_leBytes, Nat.two_mul]

theorem flags_eq_of_ne (h : type ≠ .type5) (len len' : Nat) : type.flags len = type.flags len' := by
  cases type with
  | type5 => exact absurd rfl h
  | _ => rfl

/-- `sdssetlen` -/
theorem sdssetlen_block (h : len < type.limit) (newlen alloc : Nat) (region : List Byte) :
    sdssetlen (type.block len alloc region) newlen = .ok (type.block newlen alloc region) := by
  by_cases h5 : type = .type5
  · subst h5
    have hwrite : (do
        let sh ← store (SdsType.type5.block len alloc region).sh
          (← back SdsType.type5.hdrSize 1) [SdsType.type5.code ||| UInt8.ofNat (newlen * 8)]
        return { SdsType.type5.block len alloc region with sh := sh }) =
          (.ok (SdsType.type5.block newlen alloc region) : Except Stop Sds) := by
      rw [back_one, Stop.ok_bind, SdsType.block, SdsType.hdr, store_flags, SdsType.code,
        UInt8.zero_or]
      rfl
    rw [sdssetlen, flags_block, Stop.ok_bind, sdsType_flags h]
    exact hwrite
  · have hwrite : (do
        let sh ← store (type.block len alloc region).sh (← back type.hdrSize type.hdrSize)
          (leBytes type.width newlen)
        return { type.block len alloc region with sh := sh }) =
          (.ok (type.block newlen alloc region) : Except Stop Sds) := by
      rw [back_hdrSize, Stop.ok_bind, SdsType.block, SdsType.hdr, store_len,
        flags_eq_of_ne h5 len newlen]
      rfl
    rw [sdssetlen, flags_block, Stop.ok_bind, sdsType_flags h]
    cases type with
    | type5 => exact absurd rfl h5
    | _ => exact hwrite

/-- `sdssetalloc` -/
theorem sdssetalloc_block (h : len < type.limit) (newalloc alloc : Nat) (region : List Byte) :
    sdssetalloc (type.block len alloc region) newalloc = .ok (type.block len newalloc region) := by
  by_cases h5 : type = .type5
  · subst h5
    rw [sdssetalloc, flags_block, Stop.ok_bind, sdsType_flags h]
    rfl
  · have hwrite : (do
        let sh ← store (type.block len alloc region).sh
          ((← back type.hdrSize type.hdrSize) + type.width) (leBytes type.width newalloc)
        return { type.block len alloc region with sh := sh }) =
          (.ok (type.block len newalloc region) : Except Stop Sds) := by
      rw [back_hdrSize, Stop.ok_bind, SdsType.block, SdsType.hdr, store_alloc]
      rfl
    rw [sdssetalloc, flags_block, Stop.ok_bind, sdsType_flags h]
    cases type with
    | type5 => exact absurd rfl h5
    | _ => exact hwrite

/-! ## Writes behind the header -/

theorem store_region (type : SdsType) (len alloc : Nat) {region xs : List Byte}
    (h : i + xs.length ≤ region.length) :
    store (type.block len alloc region).sh (type.hdrSize + i) xs =
      .ok (type.block len alloc (region.take i ++ xs ++ region.drop (i + xs.length))).sh := by
  rw [store, SdsType.block, ← type.length_hdr len alloc, Block.write_append_right,
    Block.write_of_le h]
  rfl

/-- Bytes that are copied behind the first `i` -/
theorem copyFrom_block (type : SdsType) (len alloc : Nat) {region t xs : List Byte}
    (hload : load t j n = .ok xs) (h : i + xs.length ≤ region.length) :
    copyFrom (type.block len alloc region) i t j n =
      .ok (type.block len alloc (region.take i ++ xs ++ region.drop (i + xs.length))) := by
  rw [copyFrom, hload, Stop.ok_bind]
  have hstore := store_region type len alloc h
  have hs : (type.block len alloc region).s = type.hdrSize := rfl
  rw [hs, hstore]
  rfl

/-- The NUL behind the bytes -/
theorem setByte_block (type : SdsType) (len alloc : Nat) (content : List Byte) (b : Byte)
    (rest : List Byte) :
    setByte (type.block len alloc (content ++ b :: rest)) content.length NUL =
      .ok (type.block len alloc (content ++ NUL :: rest)) := by
  have hstore : store (type.hdr len alloc ++ (content ++ b :: rest))
      (type.hdrSize + content.length) [NUL] =
      .ok (type.hdr len alloc ++ (content ++ NUL :: rest)) := by
    refine store_of_eq (type.hdr len alloc ++ content) [b] rest ?_ ?_ rfl ?_
    · simp only [List.append_assoc, List.singleton_append]
    · rw [List.length_append, type.length_hdr]
    · simp only [List.append_assoc, List.singleton_append]
  rw [setByte, SdsType.block, hstore]
  rfl

end

/-! ## Layouts -/

/-- A string whose header describes its block -/
structure Layout where
  type : SdsType
  content : List Byte
  /-- the bytes behind the NUL -/
  free : List Byte
  fits : content.length < type.limit
  fitsAlloc : type ≠ .type5 → content.length + free.length < type.limit

namespace Layout

def alloc (L : Layout) : Nat := L.content.length + L.free.length

def region (L : Layout) : List Byte := L.content ++ NUL :: L.free

def sds (L : Layout) : Sds := L.type.block L.content.length L.alloc L.region

/-- There is room for `n` bytes, and their number fits into the header. -/
def Room (L : Layout) (n : Nat) : Prop := n ≤ L.alloc ∧ n < L.type.limit

theorem length_region (L : Layout) : L.region.length = L.alloc + 1 := by
  rw [region, List.length_append, List.length_cons]
  rfl

theorem sdslen_sds (L : Layout) : sdslen L.sds = .ok L.content.length := sdslen_block L.fits _ _

theorem flags_sds (L : Layout) : flags L.sds = .ok (L.type.flags L.content.length) :=
  flags_block _ _ _ _

theorem sdsalloc_sds (L : Layout) :
    sdsalloc L.sds = .ok (if L.type = .type5 then L.content.length else L.alloc) :=
  sdsalloc_block L.fits L.fitsAlloc _

theorem sdsavail_sds (L : Layout) :
    sdsavail L.sds = .ok (if L.type = .type5 then 0 else L.free.length) := by
  have h := sdsavail_block L.fits (Nat.le_add_right _ L.free.length) L.fitsAlloc L.region
  rw [Nat.add_sub_cancel_left] at h
  exact h

theorem exists_of_length {type : SdsType} {content free : List Byte} {n : Nat}
    (hlen : content.length + free.length = n) (hfits : content.length < type.limit)
    (hlt : type ≠ .type5 → n < type.limit) :
    ∃ M : Layout, M.sds = type.block content.length n (content ++ NUL :: free) ∧
      M.content = content ∧ M.type = type ∧ M.alloc = n := by
  subst hlen
  exact ⟨⟨type, content, free, hfits, hlt⟩, rfl, rfl, rfl, rfl⟩

/-- Bytes that begin what lies behind the header get a NUL, and are a string once the header has
their length. -/
theorem finish (L : Layout) {c region' : List Byte} (hc : c <+: region')
    (hregion : region'.length = L.alloc + 1) (hroom : L.Room c.length) :
    ∃ M : Layout, M.content = c ∧ M.type = L.type ∧ M.alloc = L.alloc ∧
      ∀ len, setByte (L.type.block len L.alloc region') c.length NUL =
        .ok (L.type.block len L.alloc M.region) := by
  obtain ⟨rest, rfl⟩ := hc
  cases rest with
  | nil =>
    rw [List.append_nil] at hregion
    exact absurd hroom.1 (by omega)
  | cons b free =>
    have halloc : c.length + free.length = L.alloc := by
      rw [List.length_append, List.length_cons] at hregion
      omega
    refine ⟨⟨L.type, c, free, hroom.2, ?_⟩, rfl, rfl, halloc, ?_⟩
    · rw [halloc]
      exact L.fitsAlloc
    · exact fun len => setByte_block L.type len L.alloc c b free

/-- `setByte` and then `sdssetlen` -/
theorem finish_setlen (L : Layout) {c region' : List Byte} (hc : c <+: region')
    (hregion : region'.length = L.alloc + 1) (hroom : L.Room c.length) (h : len < L.type.limit) :
    ∃ M : Layout, M.content = c ∧ M.type = L.type ∧ M.alloc = L.alloc ∧
      (setByte (L.type.block len L.alloc region') c.length NUL >>= fun x => sdssetlen x c.length) =
        .ok M.sds := by
  obtain ⟨M, hcontent, htype, halloc, hset⟩ := L.finish hc hregion hroom
  refine ⟨M, hcontent, htype, halloc, ?_⟩
  rw [hset, Stop.ok_bind, sdssetlen_block h, sds, htype, halloc, hcontent]

/-- A copy behind the first `i` bytes of the string -/
theorem copy (L : Layout) {t xs : List Byte} (hload : load t j n = .ok xs)
    (hi : i ≤ L.content.length) (hroom : i + xs.length ≤ L.alloc) :
    ∃ region', copyFrom L.sds i t j n = .ok (L.type.block L.content.length L.alloc region') ∧
      L.content.take i ++ xs <+: region' ∧ region'.length = L.alloc + 1 := by
  refine ⟨_, copyFrom_block _ _ _ hload ?_, ?_, ?_⟩
  · rw [L.length_region]
    omega
  · rw [region, List.take_append_of_le_length hi]
    exact List.prefix_append _ _
  · rw [List.length_append, List.length_append, List.length_take, List.length_drop,
      L.length_region]
    omega

end Layout

end Chirc.Sds
