import TailscaleRs.Lib.Depth
import TailscaleRs.Tka.Decode

namespace TailscaleRs.Tka

open List
open Cbor (Value)

/-- A byte string is the encodings of the items of a list, one after the other. -/
inductive Splits {α : Type} (P : α → Bytes → Prop) : List α → Bytes → Prop where
  | nil : Splits P [] []
  | cons {a : α} {items : List α} {used rest : Bytes} (first : P a used)
      (later : Splits P items rest) : Splits P (a :: items) (used ++ rest)

/-- An entry of a map is encoded as its key and its value. -/
inductive EntrySplits {K : Type} (Q : K → Bytes → Prop) (P : Value → Bytes → Prop) :
    K × Value → Bytes → Prop where
  | mk {k : K} {v : Value} {key value : Bytes} (first : Q k key) (second : P v value) :
      EntrySplits Q P (k, v) (key ++ value)

section

variable (plain unique : Bool)

/-- The entries of a map; where `unique` is asked for, no key is there twice. -/
inductive Entries (P : Value → Bytes → Prop) (count : Nat) : Value → Bytes → Prop where
  | intMap {entries : List (UInt64 × Value)} {used : Bytes} (length : entries.length = count)
      (distinct : unique = true → (entries.map Prod.fst).Nodup)
      (inner : Splits (EntrySplits (IsHead 0) P) entries used) :
      Entries P count (.intMap entries) used
  | textMap {entries : List (Bytes × Value)} {used : Bytes} (length : entries.length = count)
      (nonempty : entries ≠ []) (distinct : unique = true → (entries.map Prod.fst).Nodup)
      (inner : Splits (EntrySplits (fun t => P (.text t)) P) entries used) :
      Entries P count (.textMap entries) used

/-- A definite-length item over the items inside it. A null is the byte `0xf6`; unless the item is
to be plain, its head may also be a longer one. -/
inductive ItemOver (P : Value → Bytes → Prop) : Value → Bytes → Prop where
  | uint {n : UInt64} {head : Bytes} (is : IsHead 0 n head) : ItemOver P (.uint n) head
  | null : ItemOver P .null [0xf6]
  | longNull {head : Bytes} (loose : plain = false) (is : IsHead 7 22 head) : ItemOver P .null head
  | bytes {n : UInt64} {head b : Bytes} (is : IsHead 2 n head) (count : b.length = n.toNat) :
      ItemOver P (.bytes b) (head ++ b)
  | text {n : UInt64} {head t : Bytes} (is : IsHead 3 n head) (count : t.length = n.toNat) :
      ItemOver P (.text t) (head ++ t)
  | array {n : UInt64} {head used : Bytes} {items : List Value} (is : IsHead 4 n head)
      (count : items.length = n.toNat) (inner : Splits P items used) :
      ItemOver P (.array items) (head ++ used)
  | map {n : UInt64} {head used : Bytes} {v : Value} (is : IsHead 5 n head)
      (entries : Entries unique P n.toNat v used) : ItemOver P v (head ++ used)

/-- An item of at most so many levels. -/
def Item : Nat → Value → Bytes → Prop
  | 0 => fun _ _ => False
  | levels + 1 => ItemOver plain unique (Item levels)

def checkKeys {K : Type} [LE K] [DecidableLE K] [DecidableEq K] (keys : List K) :
    Except TkaError Unit :=
  if unique then rejectDuplicateKeys keys else .ok ()

variable (decode : Bytes → Except TkaError (Value × Bytes))

/-- `decode_map`, with the check for duplicate keys or without it. -/
def decodeMapIn (count : Nat) (buf : Bytes) : Except TkaError (Value × Bytes) :=
  if count = 0 then .ok (.intMap [], buf)
  else do
    let (firstMajor, _, _) ← decodeHead buf
    if firstMajor = 0 then
      let (entries, rest) ← decodeEntries decode decodeIntKey count buf
      checkKeys unique (entries.map Prod.fst)
      return (.intMap entries, rest)
    else if firstMajor = 3 then
      let (entries, rest) ← decodeEntries decode (decodeTextKey decode) count buf
      checkKeys unique (entries.map Prod.fst)
      return (.textMap entries, rest)
    else .error (.decode "map key not uint or text string")

/-- One call of `decode_value` below the depth guard, its recursive calls being `decode`. -/
def decodeBody (buf : Bytes) : Except TkaError (Value × Bytes) := do
  let (major, arg, rest) ← decodeHead buf
  if major = 0 then return (.uint arg, rest)
  else if major = 2 then decodeString "byte string truncated" .bytes arg rest
  else if major = 3 then decodeString "text string truncated" .text arg rest
  else if major = 4 then
    let (items, rest) ← decodeItems decode arg.toNat rest
    return (.array items, rest)
  else if major = 5 then decodeMapIn unique decode arg.toNat rest
  else if major = 7 ∧ arg = 22 then return (.null, rest)
  else .error (.decode "unsupported CBOR major type")

/-- `decode_value`, with the check for duplicate keys or without it. -/
def decodeIn : Nat → Bytes → Except TkaError (Value × Bytes) :=
  Depth.descend (.error (.decode "CBOR nesting too deep")) (decodeBody unique)

end

theorem checkKeys_ok {K : Type} [LE K] [DecidableLE K] [DecidableEq K] [Std.Total (α := K) (· ≤ ·)]
    [IsTrans K (· ≤ ·)] [Std.Antisymm (α := K) (· ≤ ·)] {unique : Bool} {keys : List K} :
    checkKeys unique keys = .ok () ↔ (unique = true → keys.Nodup) := by
  cases unique <;> simp [checkKeys, rejectDuplicateKeys_ok]

variable (levels : Nat)

theorem decodeIn_eq : decodeIn true levels = decodeValue levels := by
  induction levels with
  | zero => rfl
  | succ levels ih =>
    funext buf
    rw [decodeValue, ← ih]
    rfl

section Lists

variable {α β : Type} {P P' : α → Bytes → Prop} {items : List α} {used : Bytes}

theorem Splits.mono (splits : Splits P items used) (more : ∀ a used, P a used → P' a used) :
    Splits P' items used := by
  induction splits with
  | nil => exact .nil
  | cons first later ih => exact .cons (more _ _ first) ih

theorem Splits.forall {holds : α → Prop} (splits : Splits P items used)
    (each : ∀ a used, P a used → holds a) : ∀ a ∈ items, holds a := by
  induction splits with
  | nil => exact forall_mem_nil _
  | cons first later ih => exact forall_mem_cons.mpr ⟨each _ _ first, ih⟩

theorem splits_flatMap {f : β → α} {encode : β → Bytes} {items : List β}
    (each : ∀ b ∈ items, P (f b) (encode b)) :
    Splits P (items.map f) (items.flatMap encode) := by
  induction items with
  | nil => exact .nil
  | cons b later ih =>
    rw [map_cons, flatMap_cons]
    exact .cons (each b mem_cons_self) (ih fun c member => each c (mem_cons_of_mem b member))

end Lists

section Readers

/-- The decoder reads the encodings and nothing else. -/
def Exact {α : Type} (decode : Bytes → Except TkaError (α × Bytes)) (P : α → Bytes → Prop) : Prop :=
  ∀ buf a rest, decode buf = .ok (a, rest) ↔ ∃ used, buf = used ++ rest ∧ P a used

variable {K : Type} {decode : Bytes → Except TkaError (Value × Bytes)} {P : Value → Bytes → Prop}
  (exact : Exact decode P)

theorem decodeIntKey_exact : Exact decodeIntKey (IsHead 0) := by
  intro buf k rest
  rw [decodeIntKey, bind_ok]
  constructor
  · rintro ⟨⟨major, arg, after⟩, head, read⟩
    dsimp only at read
    split at read
    · rename_i same
      cases read
      exact same ▸ decodeHead_isHead head
    · cases read
  · rintro ⟨key, rfl, is⟩
    exact ⟨_, is.decode (by decide) rest, rfl⟩

include exact

theorem decodeItems_exact (count : Nat) :
    Exact (decodeItems decode count)
      fun items used => items.length = count ∧ Splits P items used := by
  induction count with
  | zero =>
    intro buf items rest
    constructor
    · rintro ⟨⟩
      exact ⟨[], rfl, rfl, .nil⟩
    · rintro ⟨used, rfl, length, splits⟩
      cases splits with
      | nil => rfl
      | cons => cases length
  | succ count ih =>
    intro buf items rest
    simp only [decodeItems, bind_ok]
    constructor
    · rintro ⟨⟨v, next⟩, first, ⟨later, after⟩, others, ⟨⟩⟩
      obtain ⟨used, rfl, item⟩ := (exact _ _ _).mp first
      obtain ⟨used', rfl, length, splits⟩ := (ih _ _ _).mp others
      exact ⟨used ++ used', (append_assoc ..).symm, congrArg (· + 1) length, .cons item splits⟩
    · rintro ⟨used, rfl, length, splits⟩
      cases splits with
      | nil => cases length
      | cons first later =>
        exact ⟨_, (exact _ _ _).mpr ⟨_, append_assoc .., first⟩, _,
          (ih _ _ _).mpr ⟨_, rfl, Nat.succ.inj length, later⟩, rfl⟩

theorem decodeTextKey_exact : Exact (decodeTextKey decode) fun t => P (.text t) := by
  intro buf t rest
  rw [decodeTextKey, bind_ok, ← exact]
  constructor
  · rintro ⟨⟨v, next⟩, first, read⟩
    split at read
    · rename_i same
      cases same
      cases read
      exact first
    · cases read
  · exact fun read => ⟨_, read, rfl⟩

theorem decodeEntries_exact {decodeKey : Bytes → Except TkaError (K × Bytes)} {Q : K → Bytes → Prop}
    (keys : Exact decodeKey Q) (count : Nat) :
    Exact (decodeEntries decode decodeKey count)
      fun entries used => entries.length = count ∧ Splits (EntrySplits Q P) entries used := by
  induction count with
  | zero =>
    intro buf entries rest
    constructor
    · rintro ⟨⟩
      exact ⟨[], rfl, rfl, .nil⟩
    · rintro ⟨used, rfl, length, splits⟩
      cases splits with
      | nil => rfl
      | cons => cases length
  | succ count ih =>
    intro buf entries rest
    simp only [decodeEntries, bind_ok]
    constructor
    · rintro ⟨⟨k, next⟩, key, ⟨v, next'⟩, first, ⟨later, after⟩, others, ⟨⟩⟩
      obtain ⟨used, rfl, isKey⟩ := (keys _ _ _).mp key
      obtain ⟨used', rfl, item⟩ := (exact _ _ _).mp first
      obtain ⟨used'', rfl, length, splits⟩ := (ih _ _ _).mp others
      refine ⟨used ++ used' ++ used'', by simp only [append_assoc], congrArg (· + 1) length, ?_⟩
      exact .cons (.mk isKey item) splits
    · rintro ⟨used, rfl, length, splits⟩
      cases splits with
      | nil => cases length
      | cons first later =>
        obtain ⟨key, value⟩ := first
        rw [append_assoc, append_assoc]
        exact ⟨_, (keys _ _ _).mpr ⟨_, rfl, key⟩, _, (exact _ _ _).mpr ⟨_, rfl, value⟩, _,
          (ih _ _ _).mpr ⟨_, rfl, Nat.succ.inj length, later⟩, rfl⟩

variable (texts : ∀ t used, P (.text t) used → ∃ n head, IsHead 3 n head ∧ used = head ++ t)
include texts

theorem decodeMapIn_exact (unique : Bool) (count : Nat) :
    Exact (decodeMapIn unique decode count) (Entries unique P count) := by
  have ints := decodeEntries_exact exact decodeIntKey_exact count
  have strings := decodeEntries_exact exact (decodeTextKey_exact exact) count
  intro buf v rest
  rw [decodeMapIn]
  constructor
  · intro read
    split at read
    · rename_i empty
      cases read
      exact ⟨[], rfl, .intMap empty.symm (fun _ => nodup_nil) .nil⟩
    · rename_i positive
      rw [bind_ok] at read
      obtain ⟨⟨major, arg, after⟩, -, read⟩ := read
      dsimp only at read
      split at read
      · simp only [bind_ok] at read
        obtain ⟨⟨entries, after'⟩, loop, ⟨⟩, unique, same⟩ := read
        cases same
        obtain ⟨used, rfl, length, inner⟩ := (ints _ _ _).mp loop
        exact ⟨used, rfl, .intMap length (checkKeys_ok.mp unique) inner⟩
      · split at read
        · simp only [bind_ok] at read
          obtain ⟨⟨entries, after'⟩, loop, ⟨⟩, unique, same⟩ := read
          cases same
          obtain ⟨used, rfl, length, inner⟩ := (strings _ _ _).mp loop
          refine ⟨used, rfl, .textMap length ?_ (checkKeys_ok.mp unique) inner⟩
          rintro rfl
          exact positive length.symm
        · cases read
  · rintro ⟨used, rfl, entries⟩
    cases entries with
    | intMap length distinct inner =>
      have loop := (ints _ _ rest).mpr ⟨used, rfl, length, inner⟩
      cases inner with
      | nil =>
        cases length
        rfl
      | cons first later =>
        obtain ⟨is, -⟩ := first
        simp only [append_assoc] at loop ⊢
        rw [if_neg (by rw [← length]; simp), is.decode (by decide), ok_bind, loop]
        change (checkKeys unique _ >>= _) = _
        rw [checkKeys_ok.mpr distinct]
        rfl
    | textMap length nonempty distinct inner =>
      have loop := (strings _ _ rest).mpr ⟨used, rfl, length, inner⟩
      cases inner with
      | nil => exact absurd rfl nonempty
      | cons first later =>
        obtain ⟨key, -⟩ := first
        obtain ⟨n, head, is, rfl⟩ := texts _ _ key
        simp only [append_assoc] at loop ⊢
        rw [if_neg (by rw [← length]; simp), is.decode (by decide), ok_bind, loop]
        change (checkKeys unique _ >>= _) = _
        rw [checkKeys_ok.mpr distinct]
        rfl

omit exact texts

theorem decodeString_exact {truncated : String} {wrap : Bytes → Value} {arg : UInt64} :
    Exact (decodeString truncated wrap arg)
      fun v used => v = wrap used ∧ used.length = arg.toNat := by
  intro buf v rest
  rw [decodeString]
  constructor
  · intro read
    split at read
    · cases read
    · rename_i enough
      cases read
      exact ⟨_, (take_append_drop ..).symm, rfl, length_take_of_le (by omega)⟩
  · rintro ⟨content, rfl, rfl, count⟩
    rw [← count, if_neg (by rw [length_append]; omega), take_left, drop_left]

end Readers

section Decoder

variable {plain unique : Bool} {levels : Nat} {v : Value}

theorem decodeIn_exact (unique : Bool) (levels : Nat) :
    Exact (decodeIn unique levels) (Item false unique levels) := by
  induction levels with
  | zero =>
    intro buf v rest
    constructor
    · intro read
      cases read
    · rintro ⟨_, _, none⟩
      exact none.elim
  | succ levels ih =>
    have texts (t used : Bytes) (item : Item false unique levels (.text t) used) :
        ∃ n head, IsHead 3 n head ∧ used = head ++ t := by
      cases levels with
      | zero => exact item.elim
      | succ levels =>
        cases item with
        | text is count => exact ⟨_, _, is, rfl⟩
        | map is entries => cases entries
    have items := decodeItems_exact ih
    have entries := decodeMapIn_exact ih texts unique
    intro buf v rest
    rw [decodeIn, Depth.descend, ← decodeIn, decodeBody, bind_ok]
    constructor
    · rintro ⟨⟨major, arg, after⟩, head, read⟩
      obtain ⟨first, rfl, is⟩ := decodeHead_isHead head
      dsimp only at read
      split_ifs at read with uint bytes text array map null
      · subst uint
        cases read
        exact ⟨first, rfl, .uint is⟩
      · subst bytes
        obtain ⟨b, rfl, rfl, count⟩ := (decodeString_exact _ _ _).mp read
        exact ⟨_, (append_assoc ..).symm, .bytes is count⟩
      · subst text
        obtain ⟨t, rfl, rfl, count⟩ := (decodeString_exact _ _ _).mp read
        exact ⟨_, (append_assoc ..).symm, .text is count⟩
      · subst array
        rw [bind_ok] at read
        obtain ⟨⟨inner, after'⟩, loop, same⟩ := read
        cases same
        obtain ⟨used, rfl, count, splits⟩ := (items _ _ _ _).mp loop
        exact ⟨_, (append_assoc ..).symm, .array is count splits⟩
      · subst map
        obtain ⟨used, rfl, inner⟩ := (entries _ _ _ _).mp read
        exact ⟨_, (append_assoc ..).symm, .map is inner⟩
      · obtain ⟨rfl, rfl⟩ := null
        cases read
        exact ⟨first, rfl, .longNull rfl is⟩
    · rintro ⟨used, rfl, item⟩
      cases item with
      | uint is => exact ⟨_, is.decode (by decide) rest, rfl⟩
      | null => exact ⟨(7, 22, rest), rfl, rfl⟩
      | longNull loose is => exact ⟨_, is.decode (by decide) rest, rfl⟩
      | bytes is count | text is count =>
        rw [append_assoc]
        exact ⟨_, is.decode (by decide) _, (decodeString_exact _ _ _).mpr ⟨_, rfl, rfl, count⟩⟩
      | array is count inner =>
        rw [append_assoc]
        refine ⟨_, is.decode (by decide) _, ?_⟩
        change (decodeItems _ _ _ >>= _) = _
        rw [(items _ _ _ rest).mpr ⟨_, rfl, count, inner⟩]
        rfl
      | map is inner =>
        rw [append_assoc]
        exact ⟨_, is.decode (by decide) _, (entries _ _ _ rest).mpr ⟨_, rfl, inner⟩⟩

theorem item_wf {used : Bytes} (item : Item plain true levels v used) : v.Wf true levels := by
  induction levels generalizing v used with
  | zero => exact item.elim
  | succ levels ih =>
    cases item with
    | uint is => exact .uint levels _
    | null => exact .null levels
    | longNull => exact .null levels
    | bytes is count => exact .bytes levels _ (count ▸ UInt64.toNat_lt _)
    | text is count => exact .text levels _ (count ▸ UInt64.toNat_lt _)
    | array is count inner =>
      exact .array levels _ (count ▸ UInt64.toNat_lt _) (inner.forall fun _ _ item => ih item)
    | map is entries =>
      cases entries with
      | intMap length distinct inner =>
        refine .intMap levels _ (length ▸ UInt64.toNat_lt _) distinct (inner.forall ?_)
        rintro _ _ ⟨-, item⟩
        exact ih item
      | textMap length nonempty distinct inner =>
        refine .textMap levels _ (length ▸ UInt64.toNat_lt _) nonempty (inner.forall ?_) distinct
          (inner.forall ?_)
        · rintro _ _ ⟨key, -⟩
          cases ih key with
          | text _ _ fits => exact fits
        · rintro _ _ ⟨-, item⟩
          exact ih item

theorem item_encode (wf : v.Wf unique levels) : Item plain unique levels v.canon v.encode := by
  have count {length : Nat} (fits : length < 2 ^ 64) : length = (UInt64.ofNat length).toNat :=
    (UInt64.toNat_ofNat_of_lt' fits).symm
  induction wf with
  | uint levels n => exact .uint isHead_encodeHead
  | null levels => exact .null
  | bytes levels b fits => exact .bytes isHead_encodeHead (count fits)
  | text levels t fits => exact .text isHead_encodeHead (count fits)
  | array levels items fits inner ih =>
    rw [Cbor.array_encode, Cbor.array_canon]
    exact .array isHead_encodeHead (by rw [length_map, ← count fits])
      (splits_flatMap ih)
  | intMap levels entries fits distinct inner ih =>
    have same := Cbor.sortIntKeys_perm entries
    rw [Cbor.intMap_encode_sort, Cbor.intMap_canon]
    refine .map isHead_encodeHead (.intMap ?_ (fun asked => ?_)
      (splits_flatMap fun e member => ?_))
    · rw [length_map, same.length_eq, ← count fits]
    · rw [map_map]
      exact (same.map Prod.fst).nodup_iff.mpr (distinct asked)
    · exact .mk isHead_encodeHead (ih e (same.mem_iff.mp member))
  | textMap levels entries fits nonempty keys distinct inner ih =>
    have same := Cbor.sortTextKeys_perm entries
    rw [Cbor.textMap_encode_sort, Cbor.textMap_canon]
    refine .map isHead_encodeHead (.textMap ?_ ?_ (fun asked => ?_)
      (splits_flatMap fun e member => ?_))
    · rw [length_map, same.length_eq, ← count fits]
    · rw [Ne, map_eq_nil_iff]
      exact fun none => nonempty (none ▸ same).symm.eq_nil
    · rw [map_map]
      exact (same.map Prod.fst).nodup_iff.mpr (distinct asked)
    · have held := same.mem_iff.mp member
      refine .mk ?_ (ih e held)
      -- a key is read one level down, where the value beside it needs a level too
      have deeper := inner e held
      cases levels with
      | zero => cases deeper
      | succ levels => exact .text isHead_encodeHead (count (keys e held))

/-- Items that are not asked to be plain or unique, at more levels. -/
theorem item_mono {used : Bytes} (item : Item plain unique levels v used) (more : Nat) :
    Item false false (levels + more) v used := by
  induction levels generalizing v used with
  | zero => exact item.elim
  | succ levels ih =>
    rw [Nat.add_right_comm]
    cases item with
    | uint is => exact .uint is
    | null => exact .null
    | longNull loose is => exact .longNull rfl is
    | bytes is count => exact .bytes is count
    | text is count => exact .text is count
    | array is count inner => exact .array is count (inner.mono fun _ _ item => ih item)
    | map is entries =>
      refine .map is ?_
      cases entries with
      | intMap length distinct inner =>
        refine .intMap length (fun asked => by cases asked) (inner.mono ?_)
        rintro _ _ ⟨key, item⟩
        exact .mk key (ih item)
      | textMap length nonempty distinct inner =>
        refine .textMap length nonempty (fun asked => by cases asked) (inner.mono ?_)
        rintro _ _ ⟨key, item⟩
        exact .mk (ih key) (ih item)

theorem item_inj {plain' unique' : Bool} {levels' : Nat} {w : Value} {used used' rest rest' : Bytes}
    (item : Item plain unique levels v used) (item' : Item plain' unique' levels' w used')
    (same : used ++ rest = used' ++ rest') : v = w ∧ rest = rest' := by
  have read := (decodeIn_exact _ _ _ _ rest).mpr ⟨_, rfl, item_mono item levels'⟩
  have read' := (decodeIn_exact _ _ _ _ rest').mpr ⟨_, rfl, item_mono item' levels⟩
  rw [same, Nat.add_comm, read'] at read
  cases read
  exact ⟨rfl, rfl⟩

end Decoder

theorem encode_inj (unique unique' : Bool) (depth depth' : Nat) (v w : Value)
    (wf : v.Wf unique depth) (wf' : w.Wf unique' depth') (rest rest' : Bytes)
    (same : v.encode ++ rest = w.encode ++ rest') : v.canon = w.canon ∧ rest = rest' :=
  item_inj (@item_encode true _ _ _ wf) (@item_encode true _ _ _ wf') same

theorem decodeValue_encode (v : Value) (wf : v.Wf true levels) (rest : Bytes) :
    decodeValue levels (v.encode ++ rest) = .ok (v.canon, rest) := by
  rw [← decodeIn_eq]
  exact (decodeIn_exact _ _ _ _ _).mpr ⟨_, rfl, item_encode wf⟩

/-- An encoding is not read as anything else, at any number of levels. -/
theorem decodeValue_of_encode {unique : Bool} {levels depth : Nat} {v w : Value} {rest : Bytes}
    (wf : v.Wf unique depth) (read : decodeValue levels v.encode = .ok (w, rest)) :
    w = v.canon := by
  rw [← decodeIn_eq] at read
  obtain ⟨used, same, item⟩ := (decodeIn_exact _ _ _ _ _).mp read
  rw [← append_nil v.encode] at same
  exact (item_inj item (@item_encode true _ _ _ wf) same.symm).1

theorem decodeValue_wf {buf : Bytes} (v : Value) {rest : Bytes}
    (read : decodeValue levels buf = .ok (v, rest)) : v.Wf true levels := by
  rw [← decodeIn_eq] at read
  obtain ⟨used, rfl, item⟩ := (decodeIn_exact _ _ _ _ _).mp read
  exact item_wf item

/-- The items and the bytes that belong to an item, after its head. -/
def inside (major : UInt8) (arg : UInt64) : Nat × Nat :=
  if major = 2 ∨ major = 3 then (0, arg.toNat)
  else if major = 4 then (arg.toNat, 0)
  else if major = 5 then (2 * arg.toNat, 0)
  else (0, 0)

/-- The bytes at which the items of a byte string start, in a walk over their heads: so many items
are still to come, and so many bytes are left of the one before. -/
def itemStarts : Nat → Nat → Bytes → Bytes
  | _, _, [] => []
  | items, skipped + 1, _ :: rest => itemStarts items skipped rest
  | 0, 0, _ :: _ => []
  | items + 1, 0, first :: rest =>
    match decodeHead (first :: rest) with
    | .error _ => [first]
    | .ok (major, arg, after) =>
      first :: itemStarts (items + (inside major arg).1)
        (rest.length - after.length + (inside major arg).2) rest

/-- The bytes that announce a simple value or a float in the bytes after them. -/
def longSimples : List UInt8 := [0xf8, 0xf9, 0xfa, 0xfb]

/-- No item of so many starts with a long simple value or a float. -/
def PlainStarts (items : Nat) (buf : Bytes) : Prop :=
  ∀ first ∈ itemStarts items 0 buf, first ∉ longSimples

instance PlainStarts.decidable (items : Nat) (buf : Bytes) : Decidable (PlainStarts items buf) :=
  decidableBAll _ (itemStarts items 0 buf)

section Starts

variable {major : UInt8} {arg : UInt64} {head after : Bytes} {items : Nat}

theorem itemStarts_skip (items skipped : Nat) (buf : Bytes) :
    itemStarts items skipped buf = itemStarts items 0 (buf.drop skipped) := by
  induction buf generalizing skipped with
  | nil => cases skipped <;> simp [itemStarts]
  | cons first rest ih =>
    cases skipped with
    | zero => rfl
    | succ skipped => rw [itemStarts, ih, drop_succ_cons]

theorem plainStarts_zero (buf : Bytes) : PlainStarts 0 buf := by
  cases buf <;> simp [PlainStarts, itemStarts]

theorem IsHead.first (is : IsHead major arg head) :
    ∃ info argument, info < 32 ∧ head = (major <<< 5 ||| info) :: argument := by
  cases is with
  | inline info small => exact ⟨info, [], UInt8.lt_of_le_of_lt small (by decide), rfl⟩
  | long info argument form =>
    refine ⟨info, argument, ?_, rfl⟩
    simp only [argumentForms, mem_cons, Prod.mk.injEq, not_mem_nil, or_false] at form
    rcases form with ⟨rfl, -⟩ | ⟨rfl, -⟩ | ⟨rfl, -⟩ | ⟨rfl, -⟩ <;> decide

theorem plainStarts_head (is : IsHead major arg head) (fits : major < 8) :
    PlainStarts (items + 1) (head ++ after) ↔ (∀ first ∈ head.head?, first ∉ longSimples) ∧
      PlainStarts (items + (inside major arg).1) (after.drop (inside major arg).2) := by
  have read := is.decode fits after
  obtain ⟨info, argument, -, rfl⟩ := is.first
  rw [cons_append] at read
  have starts : itemStarts (items + 1) 0 ((major <<< 5 ||| info) :: argument ++ after) =
      (major <<< 5 ||| info) ::
        itemStarts (items + (inside major arg).1) 0 (after.drop (inside major arg).2) := by
    rw [cons_append, itemStarts, read]
    dsimp only
    rw [itemStarts_skip, length_append, Nat.add_sub_cancel, drop_length_add_append]
  rw [PlainStarts, starts, forall_mem_cons]
  simp [PlainStarts]

/-- Only a head of the last major type can be a long one that stands for itself. -/
theorem plainStarts_item (is : IsHead major arg head) (fits : major < 7) :
    PlainStarts (items + 1) (head ++ after) ↔
      PlainStarts (items + (inside major arg).1) (after.drop (inside major arg).2) := by
  rw [plainStarts_head is (UInt8.lt_trans fits (by decide)), and_iff_right]
  obtain ⟨info, argument, small, rfl⟩ := is.first
  rintro _ ⟨⟩ long
  obtain ⟨high, -⟩ := headByte_split (UInt8.lt_trans fits (by decide)) small
  simp only [longSimples, mem_cons, not_mem_nil, or_false] at long
  rcases long with long | long | long | long <;> rw [long] at high <;> rw [← high] at fits <;>
    exact absurd fits (by decide)

/-- A null that is not long is the byte `0xf6`. -/
theorem isHead_null (is : IsHead 7 arg head) (null : arg = 22)
    (short : ∀ first ∈ head.head?, first ∉ longSimples) : head = [0xf6] := by
  cases is with
  | inline info small =>
    have is : info = 22 := by
      rw [← UInt8.toNat_inj, ← UInt8.toNat_toUInt64, null]
      rfl
    rw [is]
    rfl
  | long info argument form =>
    simp only [argumentForms, mem_cons, Prod.mk.injEq, not_mem_nil, or_false] at form
    rcases form with ⟨rfl, -⟩ | ⟨rfl, -⟩ | ⟨rfl, -⟩ | ⟨rfl, -⟩ <;>
      exact absurd (by decide) (short _ rfl)

variable {plain unique : Bool} {α K : Type}

/-- What `P` allows is allowed by `P'` too, where no item in it starts with a long simple value; it
has the starts of `width` items, and the others are as they are without it. -/
def Walks (plain : Bool) (width : Nat) (P P' : α → Bytes → Prop) : Prop :=
  ∀ a used items rest, P a used → (plain = false → PlainStarts (items + width) (used ++ rest)) →
    P' a used ∧ (PlainStarts (items + width) (used ++ rest) ↔ PlainStarts items rest)

theorem Walks.splits {width : Nat} {P P' : α → Bytes → Prop} (each : Walks plain width P P')
    {list : List α} {used : Bytes} (splits : Splits P list used) (items : Nat) (rest : Bytes)
    (starts : plain = false → PlainStarts (items + width * list.length) (used ++ rest)) :
    Splits P' list used ∧
      (PlainStarts (items + width * list.length) (used ++ rest) ↔ PlainStarts items rest) := by
  induction splits with
  | nil => exact ⟨.nil, Iff.rfl⟩
  | @cons a list used used' first later ih =>
    rw [append_assoc, length_cons, Nat.mul_succ, ← Nat.add_assoc] at starts ⊢
    obtain ⟨plainFirst, walked⟩ := each a used _ _ first starts
    obtain ⟨plainLater, walked'⟩ := ih fun loose => walked.mp (starts loose)
    exact ⟨.cons plainFirst plainLater, walked.trans walked'⟩

theorem Walks.entry {Q Q' : K → Bytes → Prop} {P P' : Value → Bytes → Prop}
    (key : Walks plain 1 Q Q') (value : Walks plain 1 P P') :
    Walks plain 2 (EntrySplits Q P) (EntrySplits Q' P') := by
  rintro _ _ items rest ⟨first, second⟩ starts
  rw [append_assoc] at starts ⊢
  obtain ⟨plainFirst, walked⟩ := key _ _ (items + 1) _ first starts
  obtain ⟨plainSecond, walked'⟩ := value _ _ items rest second fun loose => walked.mp (starts loose)
  exact ⟨.mk plainFirst plainSecond, walked.trans walked'⟩

theorem walks_intKey : Walks plain 1 (IsHead 0) (IsHead 0) := by
  intro k head items rest is _
  exact ⟨is, plainStarts_item is (by decide)⟩

theorem plainStarts_null {rest : Bytes} :
    PlainStarts (items + 1) ([0xf6] ++ rest) ↔ PlainStarts items rest := by
  have is : IsHead 7 22 [0xf6] := .inline 22 (by decide)
  rw [plainStarts_head is (by decide)]
  exact and_iff_right (by simp [longSimples])

theorem walks_item (levels : Nat) :
    Walks plain 1 (Item plain unique levels) (Item true unique levels) := by
  induction levels with
  | zero => exact fun _ _ _ _ none => none.elim
  | succ levels ih =>
    intro v used items rest item starts
    cases item with
    | uint is => exact ⟨.uint is, plainStarts_item is (by decide)⟩
    | null => exact ⟨.null, plainStarts_null⟩
    | longNull loose is =>
      obtain ⟨short, -⟩ := (plainStarts_head is (by decide)).mp (starts loose)
      obtain rfl := isHead_null is rfl short
      exact ⟨.null, plainStarts_null⟩
    | bytes is count =>
      refine ⟨.bytes is count, ?_⟩
      rw [append_assoc, plainStarts_item is (by decide), inside, if_pos (.inl rfl), ← count,
        drop_left]
      rfl
    | text is count =>
      refine ⟨.text is count, ?_⟩
      rw [append_assoc, plainStarts_item is (by decide), inside, if_pos (.inr rfl), ← count,
        drop_left]
      rfl
    | @array n head used list is count inner =>
      have step : PlainStarts (items + 1) (head ++ used ++ rest) ↔
          PlainStarts (items + 1 * list.length) (used ++ rest) := by
        rw [append_assoc, plainStarts_item is (by decide), Nat.one_mul, count]
        rfl
      obtain ⟨inner, walked⟩ := ih.splits inner items rest fun loose => step.mp (starts loose)
      exact ⟨.array is count inner, step.trans walked⟩
    | @map n head used v is entries =>
      have step (count : Nat) (length : count = n.toNat) :
          PlainStarts (items + 1) (head ++ used ++ rest) ↔
            PlainStarts (items + 2 * count) (used ++ rest) := by
        rw [append_assoc, plainStarts_item is (by decide), length]
        rfl
      cases entries with
      | intMap length distinct inner =>
        obtain ⟨inner, walked⟩ := (walks_intKey.entry ih).splits inner items rest
          fun loose => (step _ length).mp (starts loose)
        exact ⟨.map is (.intMap length distinct inner), (step _ length).trans walked⟩
      | textMap length nonempty distinct inner =>
        have keys : Walks plain 1 (fun t => Item plain unique levels (.text t))
            (fun t => Item true unique levels (.text t)) := fun t => ih (.text t)
        obtain ⟨inner, walked⟩ := (keys.entry ih).splits inner items rest
          fun loose => (step _ length).mp (starts loose)
        exact ⟨.map is (.textMap length nonempty distinct inner), (step _ length).trans walked⟩

end Starts

/-- What decodes is an item of the subset, up to the form of its nulls. It is one with every null
the byte `0xf6` exactly when no item in the bytes starts with a long simple value or a float. -/
theorem decodeValue_subset_iff {levels : Nat} {buf rest : Bytes} {v : Value}
    (read : decodeValue levels buf = .ok (v, rest)) :
    (∃ used, buf = used ++ rest ∧ Item false true levels v used) ∧
      ((∃ used, buf = used ++ rest ∧ Item true true levels v used) ↔ PlainStarts 1 buf) := by
  rw [← decodeIn_eq] at read
  obtain ⟨used, rfl, item⟩ := (decodeIn_exact _ _ _ _ _).mp read
  refine ⟨⟨used, rfl, item⟩, ?_, fun starts => ?_⟩
  · rintro ⟨used', same, plain⟩
    rw [same]
    exact (walks_item levels v used' 0 rest plain nofun).2.mpr (plainStarts_zero rest)
  · exact ⟨used, rfl, (walks_item levels v used 0 rest item fun _ => starts).1⟩

theorem decodeValue_subset_iff_array :
    ∃ used, [0x82, 0x01, 0xf6] = used ++ [] ∧
      Item true true topLevels (.array [.uint 1, .null]) used :=
  (@decodeValue_subset_iff topLevels _ _ _ rfl).2.mpr (by decide)

/-- A half-precision float is read as null, and so is a two-byte simple value in an array. -/
theorem decodeValue_long_null :
    decodeValue topLevels [0xf9, 0x00, 0x16] = .ok (.null, []) ∧
      decodeValue topLevels [0x81, 0xf8, 0x16] = .ok (.array [.null], []) ∧
      (¬ ∃ used, [0xf9, 0x00, 0x16] = used ++ [] ∧ Item true true topLevels .null used) ∧
      ¬ ∃ used, [0x81, 0xf8, 0x16] = used ++ [] ∧
        Item true true topLevels (.array [.null]) used := by
  have refuted {v : Value} {buf : Bytes} (long : ¬PlainStarts 1 buf) :
      ¬∃ used, buf = used ++ [] ∧ Item true true topLevels v used := by
    rintro ⟨used, rfl, item⟩
    exact long ((walks_item topLevels v used 0 [] item nofun).2.mpr (plainStarts_zero []))
  exact ⟨rfl, rfl, refuted (by decide), refuted (by decide)⟩

end TailscaleRs.Tka
