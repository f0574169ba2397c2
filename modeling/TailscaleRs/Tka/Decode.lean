import Mathlib.Data.List.Chain
import TailscaleRs.Lib.Except
import TailscaleRs.Tka.Types

namespace TailscaleRs.Tka

open List BigEndian
open Cbor (Value encodeHead)
open UInt8 (ofNat)

def maxSigNestingDepth : Nat := 16

def decodeArgument (width : Nat) (truncated : String) (major : UInt8) (rest : Bytes) :
    Except TkaError (UInt8 × UInt64 × Bytes) :=
  if rest.length < width then .error (.decode truncated)
  else .ok (major, UInt64.ofNat (ofBytes (rest.take width)), rest.drop width)

/-- A CBOR head: the major type, the argument, and the bytes after it. -/
def decodeHead (buf : Bytes) : Except TkaError (UInt8 × UInt64 × Bytes) :=
  match buf with
  | [] => .error (.decode "empty CBOR")
  | first :: rest =>
    let major := first >>> 5
    let info := first &&& 0x1f
    if info ≤ 23 then .ok (major, info.toUInt64, rest)
    else if info = 24 then decodeArgument 1 "truncated u8" major rest
    else if info = 25 then decodeArgument 2 "truncated u16" major rest
    else if info = 26 then decodeArgument 4 "truncated u32" major rest
    else if info = 27 then decodeArgument 8 "truncated u64" major rest
    else .error (.decode "indefinite/reserved CBOR length")

def decodeString (truncated : String) (wrap : Bytes → Value) (arg : UInt64) (rest : Bytes) :
    Except TkaError (Value × Bytes) :=
  if rest.length < arg.toNat then .error (.decode truncated)
  else .ok (wrap (rest.take arg.toNat), rest.drop arg.toNat)

section

variable (decode : Bytes → Except TkaError (Value × Bytes))

def decodeItems : Nat → Bytes → Except TkaError (List Value × Bytes)
  | 0, buf => .ok ([], buf)
  | count + 1, buf => do
      let (v, next) ← decode buf
      let (items, rest) ← decodeItems count next
      return (v :: items, rest)

def decodeEntries {K : Type} (decodeKey : Bytes → Except TkaError (K × Bytes)) :
    Nat → Bytes → Except TkaError (List (K × Value) × Bytes)
  | 0, buf => .ok ([], buf)
  | count + 1, buf => do
      let (k, next) ← decodeKey buf
      let (v, next) ← decode next
      let (entries, rest) ← decodeEntries decodeKey count next
      return ((k, v) :: entries, rest)

def decodeIntKey (buf : Bytes) : Except TkaError (UInt64 × Bytes) := do
  let (major, arg, rest) ← decodeHead buf
  if major = 0 then .ok (arg, rest) else .error (.decode "mixed map key types")

def decodeTextKey (buf : Bytes) : Except TkaError (Bytes × Bytes) := do
  match ← decode buf with
  | (.text k, next) => .ok (k, next)
  | _ => .error (.decode "mixed map key types")

/-- Duplicates are adjacent once the keys are sorted. -/
def rejectDuplicateKeys {K : Type} [LE K] [DecidableLE K] [DecidableEq K] (keys : List K) :
    Except TkaError Unit :=
  if (keys.insertionSort (· ≤ ·)).IsChain (· ≠ ·) then .ok ()
  else .error (.decode "duplicate map key")

/-- The entries of a map; the first key's major type fixes the kind of all keys, and
an empty map reads as an integer map. -/
def decodeMap (count : Nat) (buf : Bytes) : Except TkaError (Value × Bytes) :=
  if count = 0 then .ok (.intMap [], buf)
  else do
    let (firstMajor, _, _) ← decodeHead buf
    if firstMajor = 0 then
      let (entries, rest) ← decodeEntries decode decodeIntKey count buf
      rejectDuplicateKeys (entries.map Prod.fst)
      return (.intMap entries, rest)
    else if firstMajor = 3 then
      let (entries, rest) ← decodeEntries decode (decodeTextKey decode) count buf
      rejectDuplicateKeys (entries.map Prod.fst)
      return (.textMap entries, rest)
    else .error (.decode "map key not uint or text string")

end

/-- One CBOR value. The first argument counts the levels left: the source descends
to depth `maxSigNestingDepth` and refuses the next. -/
def decodeValue : Nat → Bytes → Except TkaError (Value × Bytes)
  | 0, _ => .error (.decode "CBOR nesting too deep")
  | levels + 1, buf => do
      let (major, arg, rest) ← decodeHead buf
      if major = 0 then return (.uint arg, rest)
      else if major = 2 then decodeString "byte string truncated" .bytes arg rest
      else if major = 3 then decodeString "text string truncated" .text arg rest
      else if major = 4 then
        let (items, rest) ← decodeItems (decodeValue levels) arg.toNat rest
        return (.array items, rest)
      else if major = 5 then decodeMap (decodeValue levels) arg.toNat rest
      else if major = 7 ∧ arg = 22 then return (.null, rest)
      else .error (.decode "unsupported CBOR major type")

/-- The levels a top-level value may use. -/
def topLevels : Nat := maxSigNestingDepth + 1

theorem headByte_split {major info : UInt8} (majorFits : major < 8) (infoFits : info < 32) :
    (major <<< 5 ||| info) >>> 5 = major ∧ (major <<< 5 ||| info) &&& 0x1f = info := by
  have table : ∀ m : Fin 8, ∀ i : Fin 32,
      (ofNat m <<< 5 ||| ofNat i) >>> 5 = ofNat m ∧
        (ofNat m <<< 5 ||| ofNat i) &&& 0x1f = ofNat i := by decide
  have entry := table ⟨major.toNat, UInt8.lt_iff_toNat_lt.mp majorFits⟩
    ⟨info.toNat, UInt8.lt_iff_toNat_lt.mp infoFits⟩
  simpa only [UInt8.ofNat_toNat] using entry

theorem headByte_join (first : UInt8) : first >>> 5 <<< 5 ||| first &&& 0x1f = first := by
  have table : ∀ b : Fin 256, ofNat b >>> 5 <<< 5 ||| ofNat b &&& 0x1f =
      ofNat b := by decide +kernel
  simpa only [UInt8.ofNat_toNat] using table ⟨first.toNat, first.toNat_lt⟩

/-- The number of bytes that follow a head, by its low bits. -/
def argumentForms : List (UInt8 × Nat) := [(24, 1), (25, 2), (26, 4), (27, 8)]

/-- The bytes of a definite-length head. -/
inductive IsHead (major : UInt8) : UInt64 → Bytes → Prop where
  | inline (info : UInt8) (small : info ≤ 23) :
      IsHead major info.toUInt64 [major <<< 5 ||| info]
  | long (info : UInt8) (argument : Bytes) (form : (info, argument.length) ∈ argumentForms) :
      IsHead major (UInt64.ofNat (ofBytes argument)) ((major <<< 5 ||| info) :: argument)

theorem IsHead.decode {major : UInt8} {arg : UInt64} {head : Bytes} (is : IsHead major arg head)
    (fits : major < 8) (rest : Bytes) : decodeHead (head ++ rest) = .ok (major, arg, rest) := by
  cases is with
  | inline info small =>
    obtain ⟨high, low⟩ := headByte_split fits (UInt8.lt_of_le_of_lt small (by decide))
    simp only [singleton_append, decodeHead, high, low, if_pos small]
  | long info argument form =>
    have read (truncated : String) : decodeArgument argument.length truncated major
        (argument ++ rest) = .ok (major, UInt64.ofNat (ofBytes argument), rest) := by
      rw [decodeArgument, if_neg (by rw [length_append]; omega), take_left, drop_left]
    simp only [argumentForms, mem_cons, Prod.mk.injEq, not_mem_nil, or_false] at form
    have infoFits : info < 32 := by
      rcases form with ⟨rfl, -⟩ | ⟨rfl, -⟩ | ⟨rfl, -⟩ | ⟨rfl, -⟩ <;> decide
    obtain ⟨high, low⟩ := headByte_split fits infoFits
    simp only [cons_append, decodeHead, high, low]
    rcases form with ⟨rfl, width⟩ | ⟨rfl, width⟩ | ⟨rfl, width⟩ | ⟨rfl, width⟩ <;>
      rw [width] at read <;> exact read _

theorem decodeHead_isHead {buf rest : Bytes} {major : UInt8} {arg : UInt64}
    (read : decodeHead buf = .ok (major, arg, rest)) :
    ∃ head, buf = head ++ rest ∧ IsHead major arg head := by
  cases buf with
  | nil => cases read
  | cons first after =>
    have long (width : Nat) (truncated : String) (form : (first &&& 0x1f, width) ∈ argumentForms)
        (read : decodeArgument width truncated (first >>> 5) after = .ok (major, arg, rest)) :
        ∃ head, first :: after = head ++ rest ∧ IsHead major arg head := by
      unfold decodeArgument at read
      split at read
      · cases read
      · rename_i enough
        cases read
        refine ⟨first :: after.take width, by simp, ?_⟩
        have is := @IsHead.long (first >>> 5) (first &&& 0x1f) (after.take width)
          (by rwa [length_take_of_le (by omega)])
        rwa [headByte_join] at is
    simp only [decodeHead] at read
    split_ifs at read with small byte word double quad
    · cases read
      refine ⟨[first], rfl, ?_⟩
      have is := @IsHead.inline (first >>> 5) (first &&& 0x1f) small
      rwa [headByte_join] at is
    · exact long 1 _ (by rw [byte]; decide) read
    · exact long 2 _ (by rw [word]; decide) read
    · exact long 4 _ (by rw [double]; decide) read
    · exact long 8 _ (by rw [quad]; decide) read

theorem isHead_encodeHead {major : UInt8} {n : UInt64} : IsHead major n (encodeHead major n) := by
  have long (info : UInt8) (width : Nat) (form : (info, width) ∈ argumentForms)
      (fits : n.toNat < 256 ^ width) :
      IsHead major n ((major <<< 5 ||| info) :: toBytes width n.toNat) := by
    have is := @IsHead.long major info (toBytes width n.toNat)
      (by rwa [toBytes_length])
    rwa [ofBytes_toBytes _ _ fits, UInt64.ofNat_toNat] at is
  unfold encodeHead
  split
  · rename_i small
    have same : n.toUInt8.toNat = n.toNat := by
      exact Nat.mod_eq_of_lt (Nat.lt_trans small (by decide))
    have inline : n.toUInt8 ≤ 23 := by
      rw [UInt8.le_iff_toNat_le, same]
      exact Nat.le_of_lt_succ small
    have argument : n.toUInt8.toUInt64 = n := by
      rw [← UInt64.toNat_inj, UInt8.toNat_toUInt64, same]
    have is := @IsHead.inline major n.toUInt8 inline
    rwa [argument] at is
  · split
    · rename_i _ byte
      exact long 24 1 (by decide) (Nat.lt_succ_of_le (UInt64.le_iff_toNat_le.mp byte))
    · split
      · rename_i _ _ word
        exact long 25 2 (by decide) (Nat.lt_succ_of_le (UInt64.le_iff_toNat_le.mp word))
      · split
        · rename_i _ _ _ double
          exact long 26 4 (by decide) (Nat.lt_succ_of_le (UInt64.le_iff_toNat_le.mp double))
        · exact long 27 8 (by decide) n.toNat_lt

theorem sorted_isChain_ne_iff {K : Type} [LE K] [IsTrans K (· ≤ ·)]
    [Std.Antisymm (α := K) (· ≤ ·)] (keys : List K) (sorted : keys.Pairwise (· ≤ ·)) :
    keys.IsChain (· ≠ ·) ↔ keys.Nodup := by
  constructor
  · intro adjacent
    induction keys with
    | nil => exact nodup_nil
    | cons key rest ih =>
      rw [pairwise_cons] at sorted
      rw [nodup_cons]
      refine ⟨?_, ih sorted.2 (List.IsChain.tail adjacent)⟩
      intro repeated
      cases rest with
      | nil => cases repeated
      | cons next rest =>
        rw [isChain_cons_cons] at adjacent
        rcases mem_cons.mp repeated with same | later
        · exact adjacent.1 same
        · have below := sorted.1 next mem_cons_self
          have above := (pairwise_cons.mp sorted.2).1 key later
          exact adjacent.1 (Std.Antisymm.antisymm key next below above)
  · exact List.Pairwise.isChain

theorem rejectDuplicateKeys_ok {K : Type} [LE K] [DecidableLE K] [DecidableEq K]
    [Std.Total (α := K) (· ≤ ·)] [IsTrans K (· ≤ ·)] [Std.Antisymm (α := K) (· ≤ ·)]
    (keys : List K) : rejectDuplicateKeys keys = .ok () ↔ keys.Nodup := by
  have sorted := sorted_isChain_ne_iff _ (pairwise_insertionSort (· ≤ ·) keys)
  rw [(perm_insertionSort (· ≤ ·) keys).nodup_iff] at sorted
  unfold rejectDuplicateKeys
  split
  · rename_i adjacent
    exact iff_of_true rfl (sorted.mp adjacent)
  · rename_i adjacent
    exact iff_of_false (fun impossible => by cases impossible) (fun nodup =>
      adjacent (sorted.mpr nodup))

end TailscaleRs.Tka
