import Mathlib.Data.List.Sort
import TailscaleRs.Lib.BigEndian

namespace TailscaleRs.Cbor

/-- A CBOR value, limited to the shapes TKA serialization needs. -/
inductive Value where
  | uint (n : UInt64)
  | null
  | bytes (b : Bytes)
  | text (t : Bytes)
  | array (items : List Value)
  | intMap (entries : List (UInt64 × Value))
  | textMap (entries : List (Bytes × Value))

/-- A CBOR head: the major type in the top three bits, the argument in the
smallest of the inline and the one, two, four and eight byte forms. -/
def encodeHead (major : UInt8) (n : UInt64) : Bytes :=
  let mt := major <<< 5
  if n < 24 then
    [mt ||| n.toUInt8]
  else if n ≤ 0xff then
    (mt ||| 24) :: BigEndian.toBytes 1 n.toNat
  else if n ≤ 0xffff then
    (mt ||| 25) :: BigEndian.toBytes 2 n.toNat
  else if n ≤ 0xffffffff then
    (mt ||| 26) :: BigEndian.toBytes 4 n.toNat
  else
    (mt ||| 27) :: BigEndian.toBytes 8 n.toNat

/-- The head whose argument is the length of a vector, `v.len() as u64`. -/
def encodeLen (major : UInt8) (length : Nat) : Bytes :=
  encodeHead major (UInt64.ofNat length)

/-- An encoded text string, head and content: what a text map is sorted by. -/
def encodeText (t : Bytes) : Bytes :=
  encodeLen 3 t.length ++ t

/-- `sort_by_key` on the integer key; insertion sort is stable as Rust's is. -/
def sortIntKeys {α : Type} (entries : List (UInt64 × α)) : List (UInt64 × α) :=
  entries.insertionSort (fun a b => a.1 ≤ b.1)

/-- Bytewise lexicographic sort on the encoded key. -/
def sortTextKeys {α : Type} (entries : List (Bytes × α)) : List (Bytes × α) :=
  entries.insertionSort (fun a b => encodeText a.1 ≤ encodeText b.1)

mutual

/-- Canonical CTAP2 encoding. Entries are encoded before the sort, which moves
whole entries by their key only. -/
def Value.encode : Value → Bytes
  | .uint n => encodeHead 0 n
  | .null => [0xf6]
  | .bytes b => encodeLen 2 b.length ++ b
  | .text t => encodeText t
  | .array items => encodeLen 4 items.length ++ encodeItems items
  | .intMap entries =>
    encodeLen 5 entries.length ++
      (sortIntKeys (encodeIntEntries entries)).flatMap (fun e => encodeHead 0 e.1 ++ e.2)
  | .textMap entries =>
    encodeLen 5 entries.length ++
      (sortTextKeys (encodeTextEntries entries)).flatMap (fun e => encodeText e.1 ++ e.2)

def encodeItems : List Value → Bytes
  | [] => []
  | v :: rest => v.encode ++ encodeItems rest

def encodeIntEntries : List (UInt64 × Value) → List (UInt64 × Bytes)
  | [] => []
  | (k, v) :: rest => (k, v.encode) :: encodeIntEntries rest

def encodeTextEntries : List (Bytes × Value) → List (Bytes × Bytes)
  | [] => []
  | (k, v) :: rest => (k, v.encode) :: encodeTextEntries rest

end

variable (pairs : List (UInt64 × Option Value))

/-- An absent field is not emitted. -/
def presentFields : List (UInt64 × Value) :=
  pairs.filterMap (fun pair => pair.2.map (fun v => (pair.1, v)))

/-- Integer map from optional fields. -/
def intMapOf : Value := .intMap (presentFields pairs)

theorem encodeLen_small (major : UInt8) (length : Nat) (small : length < 24) :
    ∃ head, encodeLen major length = [head] := by
  have below : UInt64.ofNat length < 24 := by
    have fits : length < UInt64.size := Nat.lt_trans small (by decide)
    rw [UInt64.lt_iff_toNat_lt, UInt64.toNat_ofNat_of_lt' fits]
    exact small
  exact ⟨_, by rw [encodeLen, encodeHead, if_pos below]⟩

theorem encodeItems_eq (items : List Value) : encodeItems items = items.flatMap Value.encode := by
  induction items with
  | nil => rfl
  | cons v rest ih => simp only [encodeItems, List.flatMap_cons, ih]

variable (entries : List (UInt64 × Value))

theorem encodeIntEntries_eq :
    encodeIntEntries entries = entries.map (fun e => (e.1, e.2.encode)) := by
  induction entries with
  | nil => rfl
  | cons e rest ih => simp only [encodeIntEntries, List.map_cons, ih]

theorem encodeTextEntries_eq (entries : List (Bytes × Value)) :
    encodeTextEntries entries = entries.map (fun e => (e.1, e.2.encode)) := by
  induction entries with
  | nil => rfl
  | cons e rest ih => simp only [encodeTextEntries, List.map_cons, ih]

def encodeIntEntry (e : UInt64 × Value) : Bytes := encodeHead 0 e.1 ++ e.2.encode

theorem intMap_encode (sorted : entries.Pairwise (fun a b => a.1 < b.1)) :
    (Value.intMap entries).encode =
      encodeLen 5 entries.length ++ entries.flatMap encodeIntEntry := by
  have listed : (entries.map (fun e => (e.1, e.2.encode))).Pairwise (fun a b => a.1 ≤ b.1) := by
    rw [List.pairwise_map]
    exact sorted.imp (fun before => UInt64.le_of_lt before)
  rw [Value.encode, encodeIntEntries_eq, sortIntKeys, listed.insertionSort_eq, List.flatMap_map]
  rfl

theorem mem_presentFields (k : UInt64) (v : Value) :
    (k, v) ∈ presentFields pairs ↔ (k, some v) ∈ pairs := by
  simp [presentFields]

theorem presentFields_sorted (sorted : (pairs.map Prod.fst).Pairwise (· < ·)) :
    (presentFields pairs).Pairwise (fun a b => a.1 < b.1) := by
  rw [List.pairwise_map] at sorted
  refine List.Pairwise.filterMap _ ?_ sorted
  rintro ⟨k, v⟩ ⟨k', v'⟩ before e present e' present'
  simp only [Option.map_eq_some_iff] at present present'
  obtain ⟨_, -, rfl⟩ := present
  obtain ⟨_, -, rfl⟩ := present'
  exact before

theorem intMapOf_encode (sorted : (pairs.map Prod.fst).Pairwise (· < ·)) :
    (intMapOf pairs).encode =
      encodeLen 5 (presentFields pairs).length ++ (presentFields pairs).flatMap encodeIntEntry :=
  intMap_encode _ (presentFields_sorted pairs sorted)

example : (Value.intMap [(3, .uint 30), (1, .uint 10), (2, .uint 20)]).encode =
    [0xa3, 0x01, 0x0a, 0x02, 0x14, 0x03, 0x18, 30] := by decide

example : (Value.textMap [([97, 97], .uint 2), ([122], .uint 1)]).encode =
    [0xa2, 0x61, 0x7a, 0x01, 0x62, 0x61, 0x61, 0x02] := by decide

open List

mutual

/-- The value with every map listed in canonical key order. -/
def Value.canon : Value → Value
  | .uint n => .uint n
  | .null => .null
  | .bytes b => .bytes b
  | .text t => .text t
  | .array items => .array (canonItems items)
  | .intMap entries => .intMap (sortIntKeys (canonIntEntries entries))
  | .textMap entries => .textMap (sortTextKeys (canonTextEntries entries))

def canonItems : List Value → List Value
  | [] => []
  | v :: rest => v.canon :: canonItems rest

def canonIntEntries : List (UInt64 × Value) → List (UInt64 × Value)
  | [] => []
  | (k, v) :: rest => (k, v.canon) :: canonIntEntries rest

def canonTextEntries : List (Bytes × Value) → List (Bytes × Value)
  | [] => []
  | (k, v) :: rest => (k, v.canon) :: canonTextEntries rest

end

variable (items : List Value)

theorem canonItems_eq : canonItems items = items.map Value.canon := by
  induction items with
  | nil => rfl
  | cons v rest ih => simp only [canonItems, map_cons, ih]

def canonEntry {K : Type} (e : K × Value) : K × Value := (e.1, e.2.canon)

variable (entries : List (UInt64 × Value))

theorem canonIntEntries_eq : canonIntEntries entries = entries.map canonEntry := by
  induction entries with
  | nil => rfl
  | cons e rest ih => simp only [canonIntEntries, map_cons, ih, canonEntry]

theorem canonTextEntries_eq (entries : List (Bytes × Value)) :
    canonTextEntries entries = entries.map canonEntry := by
  induction entries with
  | nil => rfl
  | cons e rest ih => simp only [canonTextEntries, map_cons, ih, canonEntry]

theorem sortIntKeys_map {α β : Type} (f : α → β) (entries : List (UInt64 × α)) :
    sortIntKeys (entries.map (fun e => (e.1, f e.2))) =
      (sortIntKeys entries).map (fun e => (e.1, f e.2)) := by
  symm
  apply map_insertionSort
  intro a _ b _
  exact Iff.rfl

theorem sortTextKeys_map {α β : Type} (f : α → β) (entries : List (Bytes × α)) :
    sortTextKeys (entries.map (fun e => (e.1, f e.2))) =
      (sortTextKeys entries).map (fun e => (e.1, f e.2)) := by
  symm
  apply map_insertionSort
  intro a _ b _
  exact Iff.rfl

def encodeTextEntry (e : Bytes × Value) : Bytes := encodeText e.1 ++ e.2.encode

theorem array_encode :
    (Value.array items).encode = encodeLen 4 items.length ++ items.flatMap Value.encode := by
  rw [Value.encode, encodeItems_eq]

theorem intMap_encode_sort :
    (Value.intMap entries).encode =
      encodeLen 5 entries.length ++ (sortIntKeys entries).flatMap encodeIntEntry := by
  rw [Value.encode, encodeIntEntries_eq, sortIntKeys_map, flatMap_map]
  rfl

theorem textMap_encode_sort (entries : List (Bytes × Value)) :
    (Value.textMap entries).encode =
      encodeLen 5 entries.length ++ (sortTextKeys entries).flatMap encodeTextEntry := by
  rw [Value.encode, encodeTextEntries_eq, sortTextKeys_map, flatMap_map]
  rfl

theorem array_canon : (Value.array items).canon = .array (items.map Value.canon) := by
  rw [Value.canon, canonItems_eq]

theorem intMap_canon :
    (Value.intMap entries).canon = .intMap ((sortIntKeys entries).map canonEntry) := by
  rw [Value.canon, canonIntEntries_eq]
  exact congrArg _ (sortIntKeys_map _ _)

theorem textMap_canon (entries : List (Bytes × Value)) :
    (Value.textMap entries).canon = .textMap ((sortTextKeys entries).map canonEntry) := by
  rw [Value.canon, canonTextEntries_eq]
  exact congrArg _ (sortTextKeys_map _ _)

variable {α : Type}

theorem sortIntKeys_perm (entries : List (UInt64 × α)) :
    (sortIntKeys entries).Perm entries := perm_insertionSort _ entries

theorem sortTextKeys_perm (entries : List (Bytes × α)) :
    (sortTextKeys entries).Perm entries := perm_insertionSort _ entries

/-- The values of the wire format: every vector is of a machine length, no text map
is empty, at most `depth` levels are nested and, where `unique` is asked for, no map
repeats a key. -/
inductive Value.Wf (unique : Bool) : Nat → Value → Prop where
  | uint (depth : Nat) (n : UInt64) : Wf unique (depth + 1) (.uint n)
  | null (depth : Nat) : Wf unique (depth + 1) .null
  | bytes (depth : Nat) (b : Bytes) (fits : b.length < 2 ^ 64) :
      Wf unique (depth + 1) (.bytes b)
  | text (depth : Nat) (t : Bytes) (fits : t.length < 2 ^ 64) :
      Wf unique (depth + 1) (.text t)
  | array (depth : Nat) (items : List Value) (fits : items.length < 2 ^ 64)
      (inner : ∀ v ∈ items, Wf unique depth v) : Wf unique (depth + 1) (.array items)
  | intMap (depth : Nat) (entries : List (UInt64 × Value)) (fits : entries.length < 2 ^ 64)
      (distinct : unique = true → (entries.map Prod.fst).Nodup)
      (inner : ∀ e ∈ entries, Wf unique depth e.2) : Wf unique (depth + 1) (.intMap entries)
  | textMap (depth : Nat) (entries : List (Bytes × Value)) (fits : entries.length < 2 ^ 64)
      (nonempty : entries ≠ []) (keys : ∀ e ∈ entries, e.1.length < 2 ^ 64)
      (distinct : unique = true → (entries.map Prod.fst).Nodup)
      (inner : ∀ e ∈ entries, Wf unique depth e.2) : Wf unique (depth + 1) (.textMap entries)

instance intKeyTotal {α : Type} : Std.Total (fun a b : UInt64 × α => a.1 ≤ b.1) :=
  ⟨fun a b => UInt64.le_total a.1 b.1⟩

instance intKeyTrans {α : Type} : IsTrans (UInt64 × α) (fun a b => a.1 ≤ b.1) :=
  ⟨fun _ _ _ ab bc => UInt64.le_trans ab bc⟩

instance textKeyTotal {α : Type} : Std.Total
    (fun a b : Bytes × α => encodeText a.1 ≤ encodeText b.1) :=
  ⟨fun _ _ => List.le_total _ _⟩

instance textKeyTrans {α : Type} : IsTrans (Bytes × α)
    (fun a b => encodeText a.1 ≤ encodeText b.1) :=
  ⟨fun _ _ _ ab bc => List.le_trans ab bc⟩

theorem sortIntKeys_idem (entries : List (UInt64 × α)) :
    sortIntKeys (sortIntKeys entries) = sortIntKeys entries :=
  (pairwise_insertionSort _ entries).insertionSort_eq

theorem sortTextKeys_idem (entries : List (Bytes × α)) :
    sortTextKeys (sortTextKeys entries) = sortTextKeys entries :=
  (pairwise_insertionSort _ entries).insertionSort_eq

theorem encode_canon (unique : Bool) (depth : Nat) (v : Value) (wf : v.Wf unique depth) :
    v.canon.encode = v.encode := by
  induction wf with
  | uint depth n => rfl
  | null depth => rfl
  | bytes depth b fits => rfl
  | text depth t fits => rfl
  | array depth items fits inner ih =>
    rw [array_canon, array_encode, array_encode, length_map, flatMap_map]
    congr 1
    exact flatMap_congr ih
  | intMap depth entries fits distinct inner ih =>
    have listed := sortIntKeys_perm entries
    rw [intMap_canon, intMap_encode_sort, intMap_encode_sort, length_map, listed.length_eq]
    congr 1
    rw [show (canonEntry : UInt64 × Value → _) = fun e => (e.1, e.2.canon) from rfl,
      sortIntKeys_map, sortIntKeys_idem, flatMap_map]
    refine flatMap_congr (fun e held => ?_)
    rw [encodeIntEntry, encodeIntEntry, ih e (listed.mem_iff.mp held)]
  | textMap depth entries fits nonempty keys distinct inner ih =>
    have listed := sortTextKeys_perm entries
    rw [textMap_canon, textMap_encode_sort, textMap_encode_sort, length_map, listed.length_eq]
    congr 1
    rw [show (canonEntry : Bytes × Value → _) = fun e => (e.1, e.2.canon) from rfl,
      sortTextKeys_map, sortTextKeys_idem, flatMap_map]
    refine flatMap_congr (fun e held => ?_)
    rw [encodeTextEntry, encodeTextEntry, ih e (listed.mem_iff.mp held)]

end TailscaleRs.Cbor
